import Mathlib.Data.List.Sort

/-! # Insertion sort against another listing and another order

Two facts about a stable sort. On elements that the order tells apart, the result does not depend
on how the input was listed. And two orders sort one list the same way exactly when they agree on
every earlier element against every later one.
-/

namespace List

variable {α : Type*} {r s : α → α → Prop} [DecidableRel r] [DecidableRel s]

theorem insertionSort_eq_of_perm [Std.Total r] [IsTrans α r] {l l' : List α} (perm : l.Perm l')
    (antisymm : ∀ a ∈ l, ∀ b ∈ l, r a b → r b a → a = b) : l.insertionSort r = l'.insertionSort r := by
  have sorted := List.pairwise_insertionSort r l
  have sorted' := List.pairwise_insertionSort r l'
  refine Perm.eq_of_pairwise ?_ sorted sorted' ?_
  · intro a b ha hb
    rw [mem_insertionSort] at ha hb
    exact antisymm a ha b (perm.mem_iff.mpr hb)
  · exact (perm_insertionSort r l).trans (perm.trans (perm_insertionSort r l').symm)

theorem orderedInsert_congr {a : α} {l : List α} (agree : ∀ b ∈ l, r a b ↔ s a b) :
    l.orderedInsert r a = l.orderedInsert s a := by
  induction l with
  | nil => rfl
  | cons b l ih =>
    have here := agree b (.head _)
    have rest := ih fun c member => agree c (.tail _ member)
    simp only [orderedInsert_cons, here, rest]

theorem insertionSort_congr {l : List α} (agree : l.Pairwise fun a b => r a b ↔ s a b) :
    l.insertionSort r = l.insertionSort s := by
  induction l with
  | nil => rfl
  | cons a l ih =>
    rw [pairwise_cons] at agree
    rw [insertionSort_cons, insertionSort_cons, ← ih agree.2]
    refine orderedInsert_congr fun b member => agree.1 b ?_
    exact (mem_insertionSort r).mp member

theorem insertionSort_eq_iff [Std.Total r] [IsTrans α r] [Std.Total s] [IsTrans α s] {l : List α} :
    l.insertionSort r = l.insertionSort s ↔ l.Pairwise fun a b => r a b ↔ s a b := by
  refine ⟨fun same => ?_, insertionSort_congr⟩
  rw [pairwise_iff_forall_sublist]
  intro a b pair
  constructor
  · intro before
    have kept := pair_sublist_insertionSort before pair
    rw [same] at kept
    exact pairwise_pair.mp ((pairwise_insertionSort s l).sublist kept)
  · intro before
    have kept := pair_sublist_insertionSort before pair
    rw [← same] at kept
    exact pairwise_pair.mp ((pairwise_insertionSort r l).sublist kept)

end List
