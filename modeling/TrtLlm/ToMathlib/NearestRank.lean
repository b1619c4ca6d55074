import Mathlib.Algebra.Order.Field.Rat
import Mathlib.Algebra.Order.Floor.Semifield
import Mathlib.Data.List.Sort
import Mathlib.Data.Rat.Floor
import Mathlib.Tactic.Linarith
import Mathlib.Tactic.Ring

/-! # Nearest-rank quantiles

The nearest-rank quantile of a sample is its smallest element that is no less than the given share of the sample. In the
sorted sample it sits at the share of the length, rounded up, less one. For nine tenths, two other ways to round the
position are compared with that one.
-/

namespace List

variable {α : Type*} [LinearOrder α] {l l' : List α} {a b : α} {q : ℚ}

/-- The smallest element that at least the share `q` of the list does not exceed. -/
def IsNearestRank (l : List α) (q : ℚ) (a : α) : Prop :=
  a ∈ l ∧ q * l.length ≤ l.countP (· ≤ a) ∧ ∀ b ∈ l, q * l.length ≤ l.countP (· ≤ b) → a ≤ b

theorem Perm.isNearestRank_iff (perm : l.Perm l') : l.IsNearestRank q a ↔ l'.IsNearestRank q a := by
  simp only [IsNearestRank, perm.mem_iff, perm.length_eq, perm.countP_eq]

/-- In a sorted list the elements up to a bound come first. -/
theorem lt_countP_le_iff (sorted : l.Pairwise (· ≤ ·)) (m : ℕ) :
    m < l.countP (· ≤ b) ↔ ∃ x, l[m]? = some x ∧ x ≤ b := by
  induction l generalizing m with
  | nil => simp
  | cons first l ih =>
    rw [pairwise_cons] at sorted
    by_cases below : first ≤ b
    · rw [countP_cons_of_pos (by simpa using below)]
      cases m with
      | zero => simp [below]
      | succ m => rw [Nat.succ_lt_succ_iff, ih sorted.2, getElem?_cons_succ]
    · have none : ∀ x ∈ first :: l, ¬x ≤ b := by
        intro x member
        rcases mem_cons.mp member with rfl | later
        · exact below
        · exact fun le => below ((sorted.1 x later).trans le)
      have zero : (first :: l).countP (· ≤ b) = 0 := countP_eq_zero.mpr fun x member => by simpa using none x member
      rw [zero]
      refine iff_of_false (Nat.not_lt_zero m) ?_
      rintro ⟨x, found, le⟩
      exact none x (mem_of_getElem? found) le

/-- The nearest rank of a sorted list. -/
theorem isNearestRank_iff_getElem? (sorted : l.Pairwise (· ≤ ·)) {rank : ℕ} (inside : rank < l.length)
    (ceil : ⌈q * l.length⌉₊ = rank + 1) : l.IsNearestRank q a ↔ l[rank]? = some a := by
  have enough : ∀ b, q * l.length ≤ l.countP (· ≤ b) ↔ l[rank] ≤ b := by
    intro b
    rw [← Nat.ceil_le, ceil, Nat.succ_le_iff, lt_countP_le_iff sorted]
    simp [inside]
  rw [IsNearestRank, getElem?_eq_getElem inside, Option.some_inj]
  simp only [enough]
  constructor
  · rintro ⟨-, above, least⟩
    exact le_antisymm above (least _ (getElem_mem inside) le_rfl)
  · rintro rfl
    exact ⟨getElem_mem inside, le_rfl, fun b _ => id⟩

end List

namespace Nat

/-! ### Three ways to nine tenths -/

theorem ceil_nine_tenths (n : ℕ) : ⌈(90 / 100 : ℚ) * n⌉₊ = n - n / 10 := by
  have tenfold : 10 * ((n - n / 10 : ℕ) : ℚ) = 9 * n + (n % 10 : ℕ) := by
    have whole : 10 * (n - n / 10) = 9 * n + n % 10 := by omega
    exact_mod_cast whole
  have digit : ((n % 10 : ℕ) : ℚ) ≤ 9 := by exact_mod_cast Nat.le_of_lt_succ (Nat.mod_lt n (by decide))
  refine le_antisymm (Nat.ceil_le.mpr ?_) ?_
  · have positive : (0 : ℚ) ≤ (n % 10 : ℕ) := Nat.cast_nonneg _
    linarith
  · generalize n - n / 10 = m at tenfold
    cases m with
    | zero => exact Nat.zero_le _
    | succ m =>
      rw [Nat.succ_le_iff, Nat.lt_ceil]
      push_cast at tenfold
      linarith

/-- Rounding nine tenths of the last position is one short of the nearest rank when the last digit is 7, 8 or 9. -/
theorem round_nine_tenths_pred {n : ℕ} (positive : 0 < n) :
    ⌊((n - 1 : ℕ) : ℚ) * (90 / 100) + 1 / 2⌋₊ = if 7 ≤ n % 10 then n - n / 10 - 2 else n - n / 10 - 1 := by
  have whole : ((n - 1 : ℕ) : ℚ) * (90 / 100) + 1 / 2 = ((9 * (n - 1) + 5 : ℕ) : ℚ) / (10 : ℕ) := by
    push_cast
    ring
  rw [whole, Nat.floor_div_eq_div]
  split <;> omega

/-- Rounding nine tenths of the length down is one past the nearest rank when the last digit is 0. -/
theorem floor_nine_tenths (n : ℕ) : ⌊(90 / 100 : ℚ) * n⌋₊ = if n % 10 = 0 then n - n / 10 else n - n / 10 - 1 := by
  have whole : (90 / 100 : ℚ) * n = ((9 * n : ℕ) : ℚ) / (10 : ℕ) := by
    push_cast
    ring
  rw [whole, Nat.floor_div_eq_div]
  split <;> omega

end Nat
