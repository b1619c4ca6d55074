import Mathlib.Data.List.DropRight

/-! # The last element with a property

A list read from its end: the last element that satisfies a predicate, together with what follows it, and whether
one of the last few elements satisfies it.
-/

namespace List

variable {α : Type*} {P : α → Prop} {l after : List α} {a x : α}

/-- `x` is the last element of `l` that satisfies `P`, and `after` is the part of `l` behind it. -/
def LastWith (P : α → Prop) (l : List α) (x : α) (after : List α) : Prop :=
  ∃ before, l = before ++ x :: after ∧ P x ∧ ∀ y ∈ after, ¬P y

theorem not_lastWith_nil : ¬LastWith P [] x after := by
  rintro ⟨before, split, -⟩
  exact append_ne_nil_of_right_ne_nil _ (cons_ne_nil _ _) split.symm

theorem lastWith_concat_of_pos (holds : P a) : LastWith P (l ++ [a]) x after ↔ x = a ∧ after = [] := by
  constructor
  · rintro ⟨before, split, -, fails⟩
    cases after using List.reverseRecOn with
    | nil =>
      obtain ⟨-, same⟩ := append_inj' split rfl
      exact ⟨(singleton_inj.mp same).symm, rfl⟩
    | append_singleton after last =>
      rw [← cons_append, ← append_assoc] at split
      obtain ⟨-, same⟩ := append_inj' split rfl
      exact absurd (singleton_inj.mp same ▸ holds) (fails last (mem_append_right _ (mem_singleton_self _)))
  · rintro ⟨rfl, rfl⟩
    exact ⟨l, rfl, holds, fun y member => absurd member not_mem_nil⟩

theorem lastWith_concat_of_neg (fails : ¬P a) :
    LastWith P (l ++ [a]) x after ↔ ∃ earlier, after = earlier ++ [a] ∧ LastWith P l x earlier := by
  constructor
  · rintro ⟨before, split, holds, none⟩
    cases after using List.reverseRecOn with
    | nil =>
      obtain ⟨-, same⟩ := append_inj' split rfl
      exact absurd (singleton_inj.mp same ▸ holds) fails
    | append_singleton earlier last =>
      rw [← cons_append, ← append_assoc] at split
      obtain ⟨front, same⟩ := append_inj' split rfl
      refine ⟨earlier, by rw [singleton_inj.mp same], before, front, holds, fun y member => ?_⟩
      exact none y (mem_append_left _ member)
  · rintro ⟨earlier, rfl, before, rfl, holds, none⟩
    refine ⟨before, append_assoc _ _ _, holds, fun y member => ?_⟩
    rcases mem_append.mp member with old | new
    · exact none y old
    · rwa [mem_singleton.mp new]

/-- The last element with the property is among the last `n` exactly when any of these has it. -/
theorem exists_lastWith_iff (n : ℕ) :
    (∃ x after, LastWith P l x after ∧ after.length < n) ↔ ∃ x ∈ l.rtake n, P x := by
  induction l using List.reverseRecOn generalizing n with
  | nil => simp [not_lastWith_nil]
  | append_singleton l a ih =>
    cases n with
    | zero => simp
    | succ n =>
      rw [rtake_concat_succ]
      by_cases holds : P a
      · refine iff_of_true ⟨a, [], (lastWith_concat_of_pos holds).mpr ⟨rfl, rfl⟩, Nat.succ_pos n⟩ ?_
        exact ⟨a, mem_append_right _ (mem_singleton_self a), holds⟩
      · have shorter : (∃ x after, LastWith P (l ++ [a]) x after ∧ after.length < n + 1) ↔
            ∃ x after, LastWith P l x after ∧ after.length < n := by
          constructor
          · rintro ⟨x, after, last, short⟩
            obtain ⟨earlier, rfl, before⟩ := (lastWith_concat_of_neg holds).mp last
            rw [length_append, length_singleton] at short
            exact ⟨x, earlier, before, Nat.lt_of_succ_lt_succ short⟩
          · rintro ⟨x, earlier, last, short⟩
            refine ⟨x, earlier ++ [a], (lastWith_concat_of_neg holds).mpr ⟨earlier, rfl, last⟩, ?_⟩
            rw [length_append, length_singleton]
            exact Nat.succ_lt_succ short
        rw [shorter, ih]
        constructor
        · rintro ⟨x, member, holds⟩
          exact ⟨x, mem_append_left _ member, holds⟩
        · rintro ⟨x, member, found⟩
          rcases mem_append.mp member with old | new
          · exact ⟨x, old, found⟩
          · exact absurd (mem_singleton.mp new ▸ found) holds

end List
