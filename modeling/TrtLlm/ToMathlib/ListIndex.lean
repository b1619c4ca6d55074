import Mathlib.Data.List.Count
import Mathlib.Data.List.Basic
import Mathlib.Data.List.Induction

/-! # Positions in lists

Mathlib relates positions and multiplicities for duplicate-free lists; here only the element in
question has to occur once. Looking up a list's own positions gives the list back.
-/

namespace List

variable {α : Type*} [DecidableEq α]

/-- An element with multiplicity one has one position. -/
theorem index_unique_of_count_eq_one {l : List α} {a : α} {i j : ℕ} (once : l.count a = 1)
    (first : l[i]? = some a) (second : l[j]? = some a) : i = j := by
  induction l generalizing i j with
  | nil => simp at first
  | cons x rest ih =>
    by_cases same : x = a
    · subst x
      have absent : a ∉ rest := by
        rw [count_cons_self] at once
        exact count_eq_zero.mp (by omega)
      have zero : ∀ k, (a :: rest)[k]? = some a → k = 0 := by
        intro k found
        cases k with
        | zero => rfl
        | succ k => exact (absent (mem_of_getElem? (by simpa using found))).elim
      rw [zero i first, zero j second]
    · rw [count_cons_of_ne same] at once
      cases i with
      | zero => simp [same] at first
      | succ i =>
        cases j with
        | zero => simp [same] at second
        | succ j => exact congrArg Nat.succ (ih once (by simpa using first) (by simpa using second))

omit [DecidableEq α] in
/-- Looking up every index in turn gives the list back. -/
theorem filterMap_getElem?_range (l : List α) : (range l.length).filterMap (l[·]?) = l := by
  induction l using List.reverseRecOn with
  | nil => rfl
  | append_singleton l last ih =>
    have earlier : (range l.length).filterMap ((l ++ [last])[·]?) = (range l.length).filterMap (l[·]?) :=
      filterMap_congr fun i member => getElem?_append_left (mem_range.mp member)
    rw [length_append, length_singleton, range_succ, filterMap_append, earlier, ih]
    simp

end List
