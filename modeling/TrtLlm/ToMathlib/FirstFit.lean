import Mathlib.Algebra.BigOperators.Group.List.Basic
import Mathlib.Algebra.Order.Field.Rat
import Mathlib.Data.List.Nodup

/-! # First-fit packing

A greedy pass over a list with two budgets, a number of slots and an amount of room. An item that does not
fit is skipped, and later items are still tried against what is left.
-/

namespace List

variable {α : Type*} (cost : α → ℕ)

/-- In list order, take every item that finds a free slot and enough room. -/
def firstFit : ℕ → ℕ → List α → List α
  | _, _, [] => []
  | slots, room, item :: items =>
    if 0 < slots ∧ cost item ≤ room then item :: firstFit (slots - 1) (room - cost item) items
    else firstFit slots room items

variable {cost} {slots room : ℕ} {item : α} {items : List α}

@[simp]
theorem firstFit_nil : firstFit cost slots room [] = [] := rfl

theorem firstFit_cons_of_fits (fits : 0 < slots ∧ cost item ≤ room) :
    firstFit cost slots room (item :: items) = item :: firstFit cost (slots - 1) (room - cost item) items :=
  if_pos fits

theorem firstFit_cons_of_not (full : ¬ (0 < slots ∧ cost item ≤ room)) :
    firstFit cost slots room (item :: items) = firstFit cost slots room items :=
  if_neg full

theorem firstFit_sublist (items : List α) : (firstFit cost slots room items).Sublist items := by
  induction items generalizing slots room with
  | nil => exact .slnil
  | cons item items ih =>
    by_cases fits : 0 < slots ∧ cost item ≤ room
    · rw [firstFit_cons_of_fits fits]
      exact ih.cons_cons item
    · rw [firstFit_cons_of_not fits]
      exact ih.cons item

/-- Packing two lists in a row packs the second into what the first left. -/
theorem firstFit_append (before after : List α) :
    firstFit cost slots room (before ++ after) =
      firstFit cost slots room before ++
        firstFit cost (slots - (firstFit cost slots room before).length)
          (room - ((firstFit cost slots room before).map cost).sum) after := by
  induction before generalizing slots room with
  | nil => simp
  | cons item items ih =>
    rw [cons_append]
    by_cases fits : 0 < slots ∧ cost item ≤ room
    · rw [firstFit_cons_of_fits fits, firstFit_cons_of_fits fits, ih, cons_append, length_cons, map_cons, sum_cons,
        Nat.sub_sub, Nat.sub_sub, Nat.add_comm 1]
    · rw [firstFit_cons_of_not fits, firstFit_cons_of_not fits, ih]

theorem sum_firstFit_le (items : List α) : ((firstFit cost slots room items).map cost).sum ≤ room := by
  induction items generalizing slots room with
  | nil => simp
  | cons item items ih =>
    by_cases fits : 0 < slots ∧ cost item ≤ room
    · have rest := @ih (slots - 1) (room - cost item)
      rw [firstFit_cons_of_fits fits, map_cons, sum_cons]
      omega
    · rw [firstFit_cons_of_not fits]
      exact ih

/-- With a slot free, something is packed exactly when some item fits the whole room: up to the first item
packed, the budgets are untouched. -/
theorem firstFit_ne_nil_iff (free : 0 < slots) :
    firstFit cost slots room items ≠ [] ↔ ∃ item ∈ items, cost item ≤ room := by
  induction items with
  | nil => simp
  | cons item items ih =>
    by_cases fits : 0 < slots ∧ cost item ≤ room
    · rw [firstFit_cons_of_fits fits]
      exact ⟨fun _ => ⟨item, mem_cons_self, fits.2⟩, fun _ => cons_ne_nil _ _⟩
    · have large : ¬ cost item ≤ room := fun small => fits ⟨free, small⟩
      rw [firstFit_cons_of_not fits, ih]
      simp only [mem_cons, exists_eq_or_imp, large, false_or]

/-- An item is packed exactly when it fits at its own turn, after everything before it. -/
theorem mem_firstFit_iff_turn {before after : List α} (distinct : (before ++ item :: after).Nodup) :
    item ∈ firstFit cost slots room (before ++ item :: after) ↔
      (firstFit cost slots room before).length < slots ∧
        ((firstFit cost slots room before).map cost).sum + cost item ≤ room := by
  rw [nodup_append, nodup_cons] at distinct
  have earlier : item ∉ firstFit cost slots room before := fun member =>
    distinct.2.2 item ((firstFit_sublist before).subset member) item mem_cons_self rfl
  have spent : ((firstFit cost slots room before).map cost).sum ≤ room := sum_firstFit_le before
  rw [firstFit_append, mem_append, or_iff_right earlier]
  constructor
  · intro taken
    by_contra full
    rw [firstFit_cons_of_not (by omega)] at taken
    exact distinct.2.1.1 ((firstFit_sublist after).subset taken)
  · intro fits
    rw [firstFit_cons_of_fits (by omega)]
    exact mem_cons_self

end List
