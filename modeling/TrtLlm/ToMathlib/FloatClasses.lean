import Mathlib
import TrtLlm.ToMathlib.FloatRounding

/-! # Which floats a product and a quotient are

When a product or a quotient of floats is not a number, when a product is zero, and how large it can get. A float is
located by the position of its leading bit: from a position `k ≤ 1023` on, nothing is lost by scaling up to it.
-/

namespace Float

open Float.Model (UnpackedFloat)
open Float.Model.UnpackedFloat

/-- Sign, mantissa and exponent, or the special value. -/
def unpacked (x : Float) : UnpackedFloat := x.toModel.unpack

variable {x y : Float}

theorem isNaN_iff : x.isNaN = true ↔ x.unpacked = .notANumber := by
  change UnpackedFloat.isNaN x.unpacked = true ↔ _
  cases x.unpacked <;> simp [UnpackedFloat.isNaN]

theorem isInf_iff : x.isInf = true ↔ ∃ s, x.unpacked = .infinity s := by
  change UnpackedFloat.isInf x.unpacked = true ↔ _
  cases x.unpacked <;> simp [UnpackedFloat.isInf]

theorem unpacked_zero : (0 : Float).unpacked = .zero .positive := rfl

theorem beq_zero_iff : (x == 0) = true ↔ ∃ s, x.unpacked = .zero s := by
  change UnpackedFloat.beq x.unpacked (0 : Float).unpacked = true ↔ _
  rw [unpacked_zero]
  cases h : x.unpacked with
  | finite s m e pos => cases s <;> simp [UnpackedFloat.beq, UnpackedFloat.compare]
  | infinity s => cases s <;> simp [UnpackedFloat.beq, UnpackedFloat.compare]
  | _ => simp [UnpackedFloat.beq, UnpackedFloat.compare]

theorem unpacked_mul (x y : Float) :
    (x * y).unpacked = unpack .binary64 (pack .binary64 (UnpackedFloat.mul .binary64 x.unpacked y.unpacked)) := rfl

theorem unpacked_div (x y : Float) :
    (x / y).unpacked = unpack .binary64 (pack .binary64 (UnpackedFloat.div .binary64 x.unpacked y.unpacked)) := rfl

theorem le_iff : x ≤ y ↔ UnpackedFloat.le x.unpacked y.unpacked = true := decide_eq_true_iff

theorem lt_iff : x < y ↔ UnpackedFloat.lt x.unpacked y.unpacked = true := decide_eq_true_iff

theorem mul_comm (x y : Float) : x * y = y * x := by
  have signs (s t : Sign) : s * t = t * s := by cases s <;> cases t <;> rfl
  have unpacks (u v : UnpackedFloat) : UnpackedFloat.mul .binary64 u v = UnpackedFloat.mul .binary64 v u := by
    cases u <;> cases v <;> simp only [UnpackedFloat.mul, signs, Nat.mul_comm, Int.add_comm]
  exact congrArg (fun u => Float.ofModel (.pack u)) (unpacks x.unpacked y.unpacked)

/-! ### NaN -/

theorem compare_eq_none {u v : UnpackedFloat} :
    UnpackedFloat.compare u v = none ↔ u = .notANumber ∨ v = .notANumber := by
  cases u with
  | infinity s => cases s <;> cases v <;> simp [UnpackedFloat.compare]
  | notANumber => simp [UnpackedFloat.compare]
  | zero s => cases v with
    | infinity s' | finite s' => cases s' <;> simp [UnpackedFloat.compare]
    | _ => simp [UnpackedFloat.compare]
  | finite s m e pos => cases v with
    | infinity s' | finite s' => cases s <;> cases s' <;> simp [UnpackedFloat.compare]
    | _ => cases s <;> simp [UnpackedFloat.compare]

theorem compare_swap (u v : UnpackedFloat) :
    UnpackedFloat.compare v u = (UnpackedFloat.compare u v).map Ordering.swap := by
  cases u with
  | notANumber => cases v <;> rfl
  | infinity s => cases v with
    | infinity s' => cases s <;> cases s' <;> rfl
    | _ => cases s <;> rfl
  | zero s => cases v with
    | infinity s' | finite s' => cases s' <;> rfl
    | _ => rfl
  | finite s m e pos => cases v with
    | infinity s' => cases s <;> cases s' <;> rfl
    | finite s' m' e' pos' =>
      cases s <;> cases s' <;> simp [UnpackedFloat.compare, Ordering.swap_then, Int.compare_swap, Nat.compare_swap]
    | _ => cases s <;> rfl

/-- Two floats are comparable unless one of them is NaN. -/
theorem comparable_iff : x < y ∨ y < x ∨ x ≤ y ↔ x.isNaN = false ∧ y.isNaN = false := by
  rw [lt_iff, lt_iff, le_iff, Bool.eq_false_iff, Bool.eq_false_iff, ne_eq, ne_eq, isNaN_iff, isNaN_iff, ← not_or,
    ← compare_eq_none]
  unfold UnpackedFloat.lt UnpackedFloat.le
  rw [compare_swap x.unpacked y.unpacked]
  cases UnpackedFloat.compare x.unpacked y.unpacked with
  | none => simp
  | some order => cases order <;> simp

/-- Rounding never makes NaN. -/
theorem roundWithAccuracy_ne (s : Sign) (m : ℕ) (e : ℤ) (accuracy : Accuracy) :
    unpack .binary64 (pack .binary64 (roundWithAccuracy .binary64 s m e accuracy)) ≠ .notANumber := by
  rw [roundWithAccuracy]
  simp only
  split
  · rw [unpack_pack_zero]
    simp
  · exact unpack_pack_finite_ne _ _ _ _

/-- A product is NaN if a factor is, or if it is infinity times zero. -/
theorem isNaN_mul : (x * y).isNaN = true ↔
    x.isNaN = true ∨ y.isNaN = true ∨ (x.isInf = true ∧ (y == 0) = true) ∨ ((x == 0) = true ∧ y.isInf = true) := by
  rw [isNaN_iff, isNaN_iff, isNaN_iff, isInf_iff, isInf_iff, beq_zero_iff, beq_zero_iff, unpacked_mul]
  cases x.unpacked <;> cases y.unpacked <;>
    simp [UnpackedFloat.mul, unpack_pack_zero, unpack_pack_infinity, unpack_pack_notANumber, roundWithAccuracy_ne]

/-- A quotient is NaN if a side is, or if it is zero over zero or infinity over infinity. -/
theorem isNaN_div : (x / y).isNaN = true ↔
    x.isNaN = true ∨ y.isNaN = true ∨ ((x == 0) = true ∧ (y == 0) = true) ∨ (x.isInf = true ∧ y.isInf = true) := by
  rw [isNaN_iff, isNaN_iff, isNaN_iff, isInf_iff, isInf_iff, beq_zero_iff, beq_zero_iff, unpacked_div]
  cases x.unpacked <;> cases y.unpacked <;>
    simp [UnpackedFloat.div, unpack_pack_zero, unpack_pack_infinity, unpack_pack_notANumber, roundWithAccuracy_ne]

/-! ### Magnitude -/

/-- A number from `1` up to, and less than, `2 ^ (k + 1)`, sign aside. -/
def Within (k : ℤ) (x : Float) : Prop :=
  ∃ s m e pos, x.unpacked = .finite s m e pos ∧ 0 ≤ top m e ∧ top m e ≤ k

theorem Within.mono {j k : ℤ} (within : Within j x) (le : j ≤ k) : Within k x := by
  obtain ⟨s, m, e, pos, unpacked, low, high⟩ := within
  exact ⟨s, m, e, pos, unpacked, low, Int.le_trans high le⟩

theorem Within.isNaN_eq_false {k : ℤ} (within : Within k x) : x.isNaN = false := by
  obtain ⟨s, m, e, pos, unpacked, -⟩ := within
  rw [Bool.eq_false_iff, ne_eq, isNaN_iff, unpacked]
  simp

theorem Within.isInf_eq_false {k : ℤ} (within : Within k x) : x.isInf = false := by
  obtain ⟨s, m, e, pos, unpacked, -⟩ := within
  rw [Bool.eq_false_iff, ne_eq, isInf_iff, unpacked]
  simp

theorem Within.beq_zero_eq_false {k : ℤ} (within : Within k x) : (x == 0) = false := by
  obtain ⟨s, m, e, pos, unpacked, -⟩ := within
  rw [Bool.eq_false_iff, ne_eq, beq_zero_iff, unpacked]
  simp

theorem rounded_of_unpacked {s : Sign} {m : ℕ} {e : ℤ} {pos : 0 < m} (unpacked : x.unpacked = .finite s m e pos) :
    Rounded m e ∧ e ≤ 971 :=
  rounded_of_unpack unpacked

theorem top_mul {m₁ m₂ : ℕ} {e₁ e₂ : ℤ} (pos₁ : 0 < m₁) (pos₂ : 0 < m₂) :
    top m₁ e₁ + top m₂ e₂ ≤ top (m₁ * m₂) (e₁ + e₂) ∧ top (m₁ * m₂) (e₁ + e₂) ≤ top m₁ e₁ + top m₂ e₂ + 1 := by
  have pos : m₁ * m₂ ≠ 0 := Nat.ne_of_gt (Nat.mul_pos pos₁ pos₂)
  have low : m₁.log2 + m₂.log2 ≤ (m₁ * m₂).log2 := by
    rw [Nat.le_log2 pos, Nat.pow_add]
    exact Nat.mul_le_mul (Nat.log2_self_le (Nat.ne_of_gt pos₁)) (Nat.log2_self_le (Nat.ne_of_gt pos₂))
  have high : (m₁ * m₂).log2 < m₁.log2 + 1 + (m₂.log2 + 1) := by
    rw [Nat.log2_lt pos, Nat.pow_add]
    exact Nat.mul_lt_mul'' Nat.lt_log2_self Nat.lt_log2_self
  unfold top
  omega

/-- A finite factor times one that is at least `1`. -/
theorem exists_unpacked_mul {s₁ s₂ : Sign} {m₁ m₂ : ℕ} {e₁ e₂ : ℤ} {pos₁ : 0 < m₁} {pos₂ : 0 < m₂}
    (unpacked₁ : x.unpacked = .finite s₁ m₁ e₁ pos₁) (unpacked₂ : y.unpacked = .finite s₂ m₂ e₂ pos₂)
    (low : 0 ≤ top m₂ e₂) :
    ∃ r e pos, (x * y).unpacked = unpack .binary64 (pack .binary64 (.finite (s₁ * s₂) r e pos)) ∧ Rounded r e ∧
      top m₁ e₁ + top m₂ e₂ ≤ top r e ∧ top r e ≤ top m₁ e₁ + top m₂ e₂ + 2 := by
  have rounded₁ := (rounded_of_unpacked unpacked₁).1
  have rounded₂ := (rounded_of_unpacked unpacked₂).1
  have tops := @top_mul m₁ m₂ e₁ e₂ pos₁ pos₂
  have pos := Nat.mul_pos pos₁ pos₂
  have normal : 52 ≤ m₂.log2 := by
    obtain ⟨short, -, normal⟩ := rounded₂
    rcases normal with normal | grid
    · exact (Nat.le_log2 (Nat.ne_of_gt pos₂)).2 normal
    · have := (Nat.log2_lt (Nat.ne_of_gt pos₂)).2 short
      unfold top at low
      omega
  have long : 52 ≤ (m₁ * m₂).log2 := by
    rw [Nat.le_log2 (Nat.ne_of_gt pos)]
    have := (Nat.le_log2 (Nat.ne_of_gt pos₂)).1 normal
    exact Nat.le_trans this (Nat.le_mul_of_pos_left m₂ pos₁)
  have above : -1074 ≤ top (m₁ * m₂) (e₁ + e₂) := by
    have := rounded₁.2.1
    unfold top at tops low ⊢
    omega
  obtain ⟨r, e, positive, rounds, rounded, least, most⟩ :=
    exists_roundWithAccuracy (s₁ * s₂) .exact pos (.inl long) above
  refine ⟨r, e, positive, ?_, rounded, by omega, by omega⟩
  rw [unpacked_mul, unpacked₁, unpacked₂, UnpackedFloat.mul, rounds]

/-- Scaling by a number that is at least `1` makes nothing zero. -/
theorem mul_beq_zero {k : ℤ} (within : Within k y) : (x * y == 0) = true ↔ (x == 0) = true := by
  obtain ⟨s₂, m₂, e₂, pos₂, unpacked₂, low, -⟩ := within
  rw [beq_zero_iff, beq_zero_iff]
  cases h : x.unpacked with
  | finite s₁ m₁ e₁ pos₁ =>
    obtain ⟨r, e, pos, product, rounded, -⟩ := exists_unpacked_mul h unpacked₂ low
    rw [product]
    by_cases small : e ≤ 971
    · simp [unpack_pack_finite rounded small]
    · simp [unpack_pack_of_large (show 971 < e by omega)]
  | _ => simp [unpacked_mul, h, unpacked₂, UnpackedFloat.mul, unpack_pack_zero, unpack_pack_infinity,
      unpack_pack_notANumber]

/-- Short of the largest exponent, a product of two numbers from `1` up is one. -/
theorem Within.mul {j k : ℤ} (x_within : Within j x) (y_within : Within k y) (small : j + k + 2 ≤ 1023) :
    Within (j + k + 2) (x * y) := by
  obtain ⟨s₁, m₁, e₁, pos₁, unpacked₁, low₁, high₁⟩ := x_within
  obtain ⟨s₂, m₂, e₂, pos₂, unpacked₂, low₂, high₂⟩ := y_within
  obtain ⟨r, e, pos, product, rounded, least, most⟩ := exists_unpacked_mul unpacked₁ unpacked₂ low₂
  have fits : e ≤ 971 := by
    obtain ⟨-, -, normal⟩ := rounded
    rcases normal with normal | grid
    · have := (Nat.le_log2 (Nat.ne_of_gt pos)).2 normal
      unfold top at most high₁ high₂
      omega
    · omega
  rw [unpack_pack_finite rounded fits] at product
  exact ⟨_, r, e, pos, product, by omega, by omega⟩

/-- Zero, or a number from `1` up to, and less than, `2 ^ (k + 1)`, sign aside. -/
def ZeroOrWithin (k : ℤ) (x : Float) : Prop := (x == 0) = true ∨ Within k x

theorem ZeroOrWithin.mono {j k : ℤ} (within : ZeroOrWithin j x) (le : j ≤ k) : ZeroOrWithin k x :=
  within.imp_right fun within => within.mono le

theorem ZeroOrWithin.isNaN_eq_false {k : ℤ} (within : ZeroOrWithin k x) : x.isNaN = false := by
  rcases within with zero | within
  · obtain ⟨s, unpacked⟩ := beq_zero_iff.1 zero
    rw [Bool.eq_false_iff, ne_eq, isNaN_iff, unpacked]
    simp
  · exact within.isNaN_eq_false

theorem ZeroOrWithin.isInf_eq_false {k : ℤ} (within : ZeroOrWithin k x) : x.isInf = false := by
  rcases within with zero | within
  · obtain ⟨s, unpacked⟩ := beq_zero_iff.1 zero
    rw [Bool.eq_false_iff, ne_eq, isInf_iff, unpacked]
    simp
  · exact within.isInf_eq_false

theorem mul_zero_beq (number : x.isNaN = false) (finite : x.isInf = false) (zero : (y == 0) = true) :
    (x * y == 0) = true := by
  obtain ⟨s, unpacked⟩ := beq_zero_iff.1 zero
  rw [Bool.eq_false_iff, ne_eq, isNaN_iff] at number
  rw [Bool.eq_false_iff, ne_eq, isInf_iff] at finite
  rw [beq_zero_iff, unpacked_mul, unpacked]
  cases h : x.unpacked with
  | notANumber => exact absurd h number
  | infinity s => exact absurd ⟨s, h⟩ finite
  | zero s => exact ⟨_, unpack_pack_zero _⟩
  | finite s m e pos => exact ⟨_, unpack_pack_zero _⟩

/-- Among numbers of moderate size a product is zero only with a factor. -/
theorem mul_beq_zero_iff {j k : ℤ} (x_within : ZeroOrWithin j x) (y_within : ZeroOrWithin k y) :
    (x * y == 0) = true ↔ (x == 0) = true ∨ (y == 0) = true := by
  rcases y_within with zero | within
  · simp [mul_zero_beq x_within.isNaN_eq_false x_within.isInf_eq_false zero, zero]
  · rw [mul_beq_zero within, within.beq_zero_eq_false]
    simp

theorem ZeroOrWithin.mul {j k : ℤ} (x_within : ZeroOrWithin j x) (y_within : ZeroOrWithin k y)
    (small : j + k + 2 ≤ 1023) : ZeroOrWithin (j + k + 2) (x * y) := by
  by_cases zero : (x * y == 0) = true
  · exact .inl zero
  · rw [mul_beq_zero_iff x_within y_within, not_or] at zero
    exact .inr ((x_within.resolve_left zero.1).mul (y_within.resolve_left zero.2) small)

end Float

/-! ### Whole numbers -/

namespace UInt32

open Float.Model Float.Model.UnpackedFloat

variable {a b : UInt32}

theorem unpacked_toFloat (a : UInt32) :
    a.toFloat.unpacked = unpack .binary64 (pack .binary64 (UnpackedFloat.ofNat .binary64 a.toNat)) := rfl

/-- The mantissa of a whole number: its bits moved up to the 53rd. -/
def mantissa (a : UInt32) : ℕ := a.toNat <<< (52 - a.toNat.log2)

theorem log2_lt (a : UInt32) : a.toNat.log2 < 32 := by
  rcases Nat.eq_zero_or_pos a.toNat with zero | pos
  · simp [zero]
  · exact (Nat.log2_lt (Nat.ne_of_gt pos)).2 a.toNat_lt

theorem mantissa_bounds (pos : 0 < a.toNat) : 2 ^ 52 ≤ a.mantissa ∧ a.mantissa < 2 ^ 53 := by
  have log := log2_lt a
  have low := Nat.log2_self_le (Nat.ne_of_gt pos)
  have high := @Nat.lt_log2_self a.toNat
  rw [mantissa, Nat.shiftLeft_eq]
  constructor
  · calc 2 ^ 52 = 2 ^ a.toNat.log2 * 2 ^ (52 - a.toNat.log2) := by rw [← Nat.pow_add]; congr 1; omega
      _ ≤ a.toNat * 2 ^ (52 - a.toNat.log2) := Nat.mul_le_mul_right _ low
  · calc a.toNat * 2 ^ (52 - a.toNat.log2) < 2 ^ (a.toNat.log2 + 1) * 2 ^ (52 - a.toNat.log2) :=
          Nat.mul_lt_mul_of_pos_right high (Nat.two_pow_pos _)
      _ = 2 ^ 53 := by rw [← Nat.pow_add]; congr 1; omega

/-- A whole number that is not zero is a float exactly. -/
theorem unpacked_toFloat_of_pos (pos : 0 < a.toNat) :
    a.toFloat.unpacked =
      .finite .positive a.mantissa (a.toNat.log2 - 52)
        (Nat.lt_of_lt_of_le (Nat.two_pow_pos 52) (mantissa_bounds pos).1) := by
  have bounds := mantissa_bounds pos
  have log := log2_lt a
  have rounds : UnpackedFloat.ofNat .binary64 a.toNat =
      roundWithAccuracy .binary64 .positive a.mantissa (a.toNat.log2 - 52) .exact := by
    have positive : compare (a.toNat : ℤ) 0 = .gt := Int.compare_eq_gt.2 (by omega)
    have shift : (0 - max (top a.toNat 0 - 52) (-1074)).toNat = 52 - a.toNat.log2 := by
      unfold top
      omega
    rw [UnpackedFloat.ofNat, UnpackedFloat.ofInt, UnpackedFloat.normalize, positive]
    simp only [UnpackedFloat.round, targetExponent_eq, decreaseExponent, Int.toNat_natCast, shift]
    rw [mantissa, show (0 : ℤ) - (52 - a.toNat.log2 : ℕ) = a.toNat.log2 - 52 by omega]
  have still := shiftToTargetExponent_of_lt bounds.2 (show (-1074 : ℤ) ≤ a.toNat.log2 - 52 by omega)
  have kept : ExtendedMantissa.roundedMantissa ⟨a.mantissa, false, false⟩ = a.mantissa := rfl
  rw [unpacked_toFloat, rounds, roundWithAccuracy_of_shift still (by omega) (by rw [kept]; omega) (by rw [kept]; omega),
    if_pos (by rw [kept]; omega)]
  exact unpack_pack_finite ⟨bounds.2, by omega, .inl bounds.1⟩ (by omega)

theorem toFloat_zero : (0 : UInt32).toFloat = 0 := rfl

/-- A whole number from `1` up is within 32 bits. -/
theorem within_toFloat (ne : a ≠ 0) : Float.Within 31 a.toFloat := by
  have pos : 0 < a.toNat := Nat.pos_of_ne_zero fun zero => ne (toNat.inj zero)
  have bounds := mantissa_bounds pos
  have log := log2_lt a
  refine ⟨_, _, _, _, unpacked_toFloat_of_pos pos, ?_⟩
  have bits : a.mantissa.log2 = 52 := (Nat.log2_eq_iff (by omega)).2 bounds
  unfold top
  omega

theorem toFloat_beq_zero : (a.toFloat == 0) = true ↔ a = 0 := by
  by_cases zero : a = 0
  · subst zero
    exact iff_of_true (Float.beq_zero_iff.2 ⟨_, Float.unpacked_zero⟩) rfl
  · simp [(within_toFloat zero).beq_zero_eq_false, zero]

theorem zeroOrWithin_toFloat (a : UInt32) : Float.ZeroOrWithin 31 a.toFloat := by
  by_cases zero : a = 0
  · exact .inl (toFloat_beq_zero.2 zero)
  · exact .inr (within_toFloat zero)

theorem isNaN_toFloat (a : UInt32) : a.toFloat.isNaN = false := a.zeroOrWithin_toFloat.isNaN_eq_false

theorem isInf_toFloat (a : UInt32) : a.toFloat.isInf = false := a.zeroOrWithin_toFloat.isInf_eq_false

/-- Whole numbers compare as floats as they do among themselves. -/
theorem toFloat_le_toFloat : a.toFloat ≤ b.toFloat ↔ a ≤ b := by
  rw [Float.le_iff, le_iff_toNat_le]
  rcases Nat.eq_zero_or_pos a.toNat with zero | pos
  · obtain rfl : a = 0 := toNat.inj zero
    rcases Nat.eq_zero_or_pos b.toNat with zero | pos
    · obtain rfl : b = 0 := toNat.inj zero
      decide
    · rw [unpacked_toFloat_of_pos pos, toFloat_zero, Float.unpacked_zero]
      simp [UnpackedFloat.le, UnpackedFloat.compare]
  rcases Nat.eq_zero_or_pos b.toNat with zero | pos'
  · obtain rfl : b = 0 := toNat.inj zero
    rw [unpacked_toFloat_of_pos pos, toFloat_zero, Float.unpacked_zero]
    simp [UnpackedFloat.le, UnpackedFloat.compare]
    omega
  · rw [unpacked_toFloat_of_pos pos, unpacked_toFloat_of_pos pos']
    simp only [UnpackedFloat.le, UnpackedFloat.compare, Option.any_some]
    rcases Nat.lt_trichotomy a.toNat.log2 b.toNat.log2 with lower | same | higher
    · have less : a.toNat < b.toNat := by
        have := @Nat.lt_log2_self a.toNat
        have := (Nat.le_log2 (Nat.ne_of_gt pos')).1 lower
        omega
      rw [Int.compare_eq_lt.2 (by omega)]
      simp
      omega
    · rw [Int.compare_eq_eq.2 (by omega), mantissa, mantissa, same, Nat.shiftLeft_eq, Nat.shiftLeft_eq]
      simp [Nat.isLE_compare, Nat.mul_le_mul_right_iff (Nat.two_pow_pos _)]
    · have more : b.toNat < a.toNat := by
        have := @Nat.lt_log2_self b.toNat
        have := (Nat.le_log2 (Nat.ne_of_gt pos)).1 higher
        omega
      rw [Int.compare_eq_gt.2 (by omega)]
      simp
      omega

end UInt32
