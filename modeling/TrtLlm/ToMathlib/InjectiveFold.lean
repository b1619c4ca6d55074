import Mathlib.Data.BitVec
import Mathlib.Algebra.Group.Units.Basic

/-! # Folds that forget nothing

A fold whose every step is injective in its state is injective in its state. Exclusive or and the product with an
invertible word are such steps, so a hash built from them keeps different states apart.
-/

theorem List.foldl_injective {α β : Type*} {f : β → α → β} (step : ∀ x, Function.Injective (f · x)) (l : List α) :
    Function.Injective (l.foldl f ·) := by
  induction l with
  | nil => exact Function.injective_id
  | cons x l ih => exact ih.comp (step x)

namespace BitVec

variable {w : ℕ} {m n : BitVec w}

theorem mul_left_injective_of_mul_eq_one (inverse : m * n = 1) : Function.Injective (· * m) :=
  (IsUnit.of_mul_eq_one n inverse).mul_left_injective

theorem xor_left_injective (mask : BitVec w) : Function.Injective (· ^^^ mask) := by
  intro x y same
  exact (xor_left_inj mask).mp same

/-- Mix in a mask and multiply by an invertible word. -/
theorem xor_mul_injective (inverse : m * n = 1) (mask : BitVec w) : Function.Injective fun x => (x ^^^ mask) * m :=
  (mul_left_injective_of_mul_eq_one inverse).comp (xor_left_injective mask)

end BitVec
