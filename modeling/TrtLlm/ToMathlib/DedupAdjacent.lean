import Mathlib.Data.List.Destutter
import Mathlib.Data.List.Nodup
import Mathlib.Data.List.Sort

/-! # Dropping repeats of the neighbour after a stable sort

Dropping every element that equals the one kept before it leaves no duplicates exactly when no two different elements
alternate. A stable sort keeps the order of elements that it does not tell apart, so after it, only elements that are
tied and alternate already can leave duplicates.
-/

namespace List

variable {α : Type*} {l c : List α} {a b : α}

/-! ### Dropping repeats -/

section Destutter

variable [DecidableEq α]

theorem IsChain.sublist_destutter' (chain : c.IsChain (· ≠ ·)) (sublist : c <+ a :: l) :
    c <+ l.destutter' (· ≠ ·) a := by
  induction l generalizing a c with
  | nil => exact sublist
  | cons b l ih =>
    by_cases same : a = b
    · subst same
      rw [destutter'_cons_neg _ (not_not.mpr rfl)]
      refine ih chain ?_
      rcases sublist_cons_iff.mp sublist with rest | ⟨tail, rfl, rest⟩
      · exact rest
      · -- a chain does not use both copies
        rcases sublist_cons_iff.mp rest with later | ⟨_, rfl, -⟩
        · exact later.cons_cons a
        · exact absurd rfl (isChain_cons_cons.mp chain).1
    · rw [destutter'_cons_pos _ same]
      rcases sublist_cons_iff.mp sublist with rest | ⟨tail, rfl, rest⟩
      · exact (ih chain rest).cons a
      · exact (ih chain.tail rest).cons_cons a

/-- A sublist without equal neighbours survives. -/
theorem IsChain.sublist_destutter (chain : c.IsChain (· ≠ ·)) (sublist : c <+ l) : c <+ l.destutter (· ≠ ·) := by
  cases l with
  | nil => exact sublist
  | cons a l => exact chain.sublist_destutter' sublist

theorem mem_destutter_ne : a ∈ l.destutter (· ≠ ·) ↔ a ∈ l := by
  refine ⟨fun kept => (destutter_sublist _ l).subset kept, fun member => ?_⟩
  exact singleton_sublist.mp ((isChain_singleton a).sublist_destutter (singleton_sublist.mpr member))

omit [DecidableEq α] in
/-- Between two copies there is something else. -/
theorem IsChain.exists_between (chain : l.IsChain (· ≠ ·)) (copies : [a, a] <+ l) : ∃ b, a ≠ b ∧ [a, b, a] <+ l := by
  induction l with
  | nil => cases copies
  | cons c l ih =>
    rcases sublist_cons_iff.mp copies with rest | ⟨tail, same, rest⟩
    · obtain ⟨b, other, found⟩ := ih chain.tail rest
      exact ⟨b, other, found.cons c⟩
    · obtain ⟨rfl, rfl⟩ := cons.inj same
      cases l with
      | nil => cases rest
      | cons b l =>
        have other := (isChain_cons_cons.mp chain).1
        refine ⟨b, other, ?_⟩
        rcases sublist_cons_iff.mp rest with later | ⟨_, equal, -⟩
        · exact (later.cons_cons b).cons_cons a
        · exact absurd (cons.inj equal).1 other

/-- Dropping repeats leaves no duplicates exactly when no two elements alternate. -/
theorem nodup_destutter_ne_iff : (l.destutter (· ≠ ·)).Nodup ↔ ∀ a b, [a, b, a] <+ l → a = b := by
  constructor
  · intro nodup a b alternate
    by_contra other
    have chain : [a, b, a].IsChain (· ≠ ·) := by simp [other, Ne.symm other]
    have copies : [a, a] <+ l.destutter (· ≠ ·) :=
      (Sublist.cons_cons a (sublist_cons_self b [a])).trans (chain.sublist_destutter alternate)
    exact nodup_iff_sublist.mp nodup a copies
  · intro unique
    rw [nodup_iff_sublist]
    intro a copies
    obtain ⟨b, other, alternate⟩ := (isChain_destutter _ l).exists_between copies
    exact other (unique a b (alternate.trans (destutter_sublist _ l)))

end Destutter

theorem exists_of_triple_sublist_map {β : Type*} {f : α → β} {x y z : β} (sublist : [x, y, z] <+ l.map f) :
    ∃ a b c, [a, b, c] <+ l ∧ f a = x ∧ f b = y ∧ f c = z := by
  obtain ⟨chosen, sublist, named⟩ := sublist_map_iff.mp sublist
  obtain ⟨a, _, rfl, first, named⟩ := map_eq_cons_iff.mp named.symm
  obtain ⟨b, _, rfl, second, named⟩ := map_eq_cons_iff.mp named
  obtain ⟨c, _, rfl, third, named⟩ := map_eq_cons_iff.mp named
  obtain rfl := map_eq_nil_iff.mp named
  exact ⟨a, b, c, sublist, first, second, third⟩

/-! ### Ties in a stable sort -/

section Stable

variable {r : α → α → Prop} [DecidableRel r]

theorem filter_orderedInsert_of_tied [IsTrans α r] (a x : α) (l : List α) :
    (l.orderedInsert r x).filter (fun y => r a y ∧ r y a) = (x :: l).filter fun y => r a y ∧ r y a := by
  induction l with
  | nil => rfl
  | cons b l ih =>
    rw [orderedInsert_cons]
    split
    next => rfl
    next later =>
      by_cases tied : r a b ∧ r b a
      · have apart : ¬(r a x ∧ r x a) := fun both => later (trans_of r both.2 tied.1)
        rw [filter_cons_of_pos (by simpa using tied), ih, filter_cons_of_neg (by simpa using apart),
          filter_cons_of_neg (by simpa using apart), filter_cons_of_pos (by simpa using tied)]
      · rw [filter_cons_of_neg (by simpa using tied), ih, filter_cons, filter_cons (x := x),
          filter_cons_of_neg (a := b) (by simpa using tied)]

/-- The elements tied with one keep their order. -/
theorem filter_insertionSort_of_tied [IsTrans α r] (a : α) (l : List α) :
    (l.insertionSort r).filter (fun y => r a y ∧ r y a) = l.filter fun y => r a y ∧ r y a := by
  induction l with
  | nil => rfl
  | cons b l ih => rw [insertionSort_cons, filter_orderedInsert_of_tied, filter_cons, filter_cons, ih]

/-- Tied elements are in the sorted list as they were before. -/
theorem sublist_insertionSort_iff_of_tied [IsTrans α r] (tied : ∀ x ∈ c, ∀ y ∈ c, r x y) :
    c <+ l.insertionSort r ↔ c <+ l := by
  constructor
  · intro sublist
    cases c with
    | nil => exact nil_sublist l
    | cons a c =>
      have all : (a :: c).filter (fun y => r a y ∧ r y a) = a :: c :=
        filter_eq_self.mpr fun y member => by simp [tied a (.head _) y member, tied y member a (.head _)]
      have kept := sublist.filter fun y => r a y ∧ r y a
      rw [all, filter_insertionSort_of_tied] at kept
      exact kept.trans filter_sublist
  · exact sublist_insertionSort (pairwise_of_forall_mem_list tied)

/-- What alternates in the sorted list was tied and alternated before. -/
theorem alternate_insertionSort_iff [Std.Total r] [IsTrans α r] :
    [a, b, a] <+ l.insertionSort r ↔ r a b ∧ r b a ∧ [a, b, a] <+ l := by
  have reflexive : ∀ x, r x x := fun x => (Std.Total.total x x).elim id id
  constructor
  · intro alternate
    have sorted := (pairwise_insertionSort r l).sublist alternate
    simp only [pairwise_cons, mem_cons, not_mem_nil, or_false] at sorted
    have first := sorted.1 b (.inl rfl)
    have second := sorted.2.1 a rfl
    refine ⟨first, second, (sublist_insertionSort_iff_of_tied ?_).mp alternate⟩
    simp [first, second, reflexive]
  · rintro ⟨first, second, alternate⟩
    refine (sublist_insertionSort_iff_of_tied ?_).mpr alternate
    simp [first, second, reflexive]

end Stable

end List
