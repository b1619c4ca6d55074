import Mathlib.Data.List.Basic

/-! # First mentions

`List.eraseDups` keeps the first occurrence of every element. A partial function that is undefined at an element does
not see whether the element was filtered out before.
-/

universe u v

variable {α : Type u} {β : Type v} [BEq α] [LawfulBEq α]

namespace List

/-- Dropping an element changes nothing for a function that skips it. -/
theorem filterMap_eraseDups_filter {f : α → Option β} {a : α} (skipped : f a = none) (l : List α) :
    (l.filter fun b => !b == a).eraseDups.filterMap f = l.eraseDups.filterMap f := by
  -- By induction on the length: the tail that `eraseDups` goes on with is filtered.
  induction size : l.length using Nat.strongRecOn generalizing l with
  | ind n ih =>
    cases l with
    | nil => rfl
    | cons b l =>
      rw [eraseDups_cons]
      by_cases here : b = a
      · subst here
        rw [filter_cons_of_neg (by simp), filterMap_cons_none skipped]
      · rw [filter_cons_of_pos (by simpa using here), eraseDups_cons, filterMap_cons, filterMap_cons]
        have shorter : (l.filter fun c => !c == b).length < n := by
          rw [← size, length_cons]
          exact Nat.lt_succ_of_le (length_filter_le _ _)
        have rest := ih _ shorter (l.filter fun c => !c == b) rfl
        rw [filter_filter] at rest ⊢
        simp only [Bool.and_comm] at rest ⊢
        rw [rest]

omit [LawfulBEq α] in
/-- Reading the first mentions: the head, and then the rest without it. -/
theorem filterMap_eraseDups_cons {f : α → Option β} (a : α) (l : List α) :
    (a :: l).eraseDups.filterMap f = (f a).toList ++ (l.filter fun b => !b == a).eraseDups.filterMap f := by
  rw [eraseDups_cons, filterMap_cons]
  cases f a <;> rfl

end List
