import Mathlib

/-! # Rounding and packing of binary64

What the logical model of `Float` makes of a mantissa and an exponent. Rounding a number of at least 53 bits, or one on
the grid of the subnormals, keeps the position of its leading bit or carries into the next one; packing a rounded number
that is not too large loses nothing.
-/

namespace Float.Model.UnpackedFloat

/-! ### Rounding -/

namespace ExtendedMantissa

theorem mantissa_shiftRight (em : ExtendedMantissa) (k : ℕ) : (em >>> k).mantissa = em.mantissa / 2 ^ k := by
  induction k with
  | zero => simp [HShiftRight.hShiftRight, Nat.repeat]
  | succ k ih =>
    have step : (em >>> (k + 1)).mantissa = (em >>> k).mantissa / 2 := rfl
    rw [step, ih, Nat.div_div_eq_div_mul, Nat.pow_succ]

theorem le_roundedMantissa (em : ExtendedMantissa) : em.mantissa ≤ em.roundedMantissa := by
  obtain ⟨m, round, sticky⟩ := em
  cases round <;> cases sticky <;> simp [roundedMantissa, accuracy, Accuracy.roundToNearestEven]

theorem roundedMantissa_le (em : ExtendedMantissa) : em.roundedMantissa ≤ em.mantissa + 1 := by
  obtain ⟨m, round, sticky⟩ := em
  cases round <;> cases sticky <;> simp [roundedMantissa, accuracy, Accuracy.roundToNearestEven]
  omega

@[simp]
theorem mantissa_ofMantissaAndAccuracy (m : ℕ) (accuracy : Accuracy) :
    (ofMantissaAndAccuracy m accuracy).mantissa = m := by
  cases accuracy with
  | exact => rfl
  | inexact order => cases order <;> rfl

end ExtendedMantissa

/-- Correctly rounded: at most 53 bits, and fewer only at the least exponent. -/
def Rounded (m : ℕ) (e : ℤ) : Prop := m < 2 ^ 53 ∧ -1074 ≤ e ∧ (2 ^ 52 ≤ m ∨ e = -1074)

/-- The position of the leading bit. -/
def top (m : ℕ) (e : ℤ) : ℤ := m.log2 + e

theorem targetExponent_eq (m : ℕ) (e : ℤ) :
    Format.binary64.targetExponent (totalExponent m e) = max (top m e - 52) (-1074) := by
  have bits : (Format.binary64.mantissaBits : ℤ) = 53 := rfl
  have least : Format.binary64.minExponent = -1074 := rfl
  rw [Format.targetExponent, bits, least, totalExponent, top]
  omega

theorem log2_div_two_pow (m k : ℕ) (le : k ≤ m.log2) : (m / 2 ^ k).log2 = m.log2 - k := by
  have pos : m ≠ 0 ∨ m = 0 := by omega
  rcases pos with pos | rfl
  · have low : 2 ^ (m.log2 - k) * 2 ^ k ≤ m := by
      rw [← Nat.pow_add, Nat.sub_add_cancel le]
      exact Nat.log2_self_le pos
    have high : m < 2 ^ (m.log2 - k + 1) * 2 ^ k := by
      rw [← Nat.pow_add, show m.log2 - k + 1 + k = m.log2 + 1 by omega]
      exact Nat.lt_log2_self
    have quotient : m / 2 ^ k ≠ 0 := by
      have := (Nat.le_div_iff_mul_le (Nat.two_pow_pos k)).2 low
      have := Nat.two_pow_pos (m.log2 - k)
      omega
    exact (Nat.log2_eq_iff quotient).2
      ⟨(Nat.le_div_iff_mul_le (Nat.two_pow_pos k)).2 low, (Nat.div_lt_iff_lt_mul (Nat.two_pow_pos k)).2 high⟩
  · simp

/-- The bits a mantissa loses to the target exponent. -/
def loss (m : ℕ) (e : ℤ) : ℕ := (max (top m e - 52) (-1074) - e).toNat

theorem shiftToTargetExponent_eq (m : ℕ) (e : ℤ) (accuracy : Accuracy) :
    shiftToTargetExponent .binary64 m e accuracy =
      (ExtendedMantissa.ofMantissaAndAccuracy m accuracy >>> loss m e, e + loss m e) := by
  simp only [shiftToTargetExponent, targetExponent_eq, shiftToExponent, loss]

/-- A rounded mantissa passes the second shift as it is, unless the carry gave it a 54th bit. -/
theorem shiftToTargetExponent_of_lt {m : ℕ} {e : ℤ} (short : m < 2 ^ 53) (low : -1074 ≤ e) :
    shiftToTargetExponent .binary64 m e .exact = (⟨m, false, false⟩, e) := by
  have bits : m.log2 ≤ 52 := by
    rcases Nat.eq_zero_or_pos m with rfl | pos
    · simp
    · have := (Nat.log2_lt (Nat.ne_of_gt pos)).2 short
      omega
  have still : loss m e = 0 := by
    unfold loss top
    omega
  rw [shiftToTargetExponent_eq, still]
  simp [HShiftRight.hShiftRight, Nat.repeat, ExtendedMantissa.ofMantissaAndAccuracy]

theorem shiftToTargetExponent_carry {e : ℤ} (low : -1074 ≤ e) :
    shiftToTargetExponent .binary64 (2 ^ 53) e .exact = (⟨2 ^ 52, false, false⟩, e + 1) := by
  have once : loss (2 ^ 53) e = 1 := by
    simp only [loss, top, Nat.log2_two_pow]
    omega
  rw [shiftToTargetExponent_eq, once]
  simp [HShiftRight.hShiftRight, Nat.repeat, ExtendedMantissa.ofMantissaAndAccuracy, ExtendedMantissa.shiftRightOne]

/-- What a first shift that leaves at most 53 bits is rounded to. -/
theorem roundWithAccuracy_of_shift {s : Sign} {m : ℕ} {e e' : ℤ} {accuracy : Accuracy} {em : ExtendedMantissa}
    (first : shiftToTargetExponent .binary64 m e accuracy = (em, e')) (low : -1074 ≤ e')
    (pos : 0 < em.roundedMantissa) (short : em.roundedMantissa ≤ 2 ^ 53) :
    roundWithAccuracy .binary64 s m e accuracy =
      if em.roundedMantissa < 2 ^ 53 then .finite s em.roundedMantissa e' pos
      else .finite s (2 ^ 52) (e' + 1) (Nat.two_pow_pos 52) := by
  rw [roundWithAccuracy, first]
  by_cases carry : em.roundedMantissa < 2 ^ 53
  · simp only [shiftToTargetExponent_of_lt carry low, carry, Nat.ne_of_gt pos, ↓reduceDIte, ↓reduceIte]
  · have full : em.roundedMantissa = 2 ^ 53 := by omega
    simp only [full, shiftToTargetExponent_carry low, Nat.lt_irrefl, ↓reduceIte]
    rfl

/-- Rounding a number that has bits enough and is not below the grid. -/
theorem exists_roundWithAccuracy (s : Sign) {m : ℕ} {e : ℤ} (accuracy : Accuracy) (pos : 0 < m)
    (long : 52 ≤ m.log2 ∨ e ≤ -1074) (above : -1074 ≤ top m e) :
    ∃ r e' positive, roundWithAccuracy .binary64 s m e accuracy = .finite s r e' positive ∧ Rounded r e' ∧
      top m e ≤ top r e' ∧ top r e' ≤ top m e + 1 := by
  obtain ⟨k, shift⟩ : ∃ k, loss m e = k := ⟨_, rfl⟩
  obtain ⟨em, shifted⟩ : ∃ em, ExtendedMantissa.ofMantissaAndAccuracy m accuracy >>> k = em := ⟨_, rfl⟩
  have first := shiftToTargetExponent_eq m e accuracy
  have quotient : em.mantissa = m / 2 ^ k := by
    rw [← shifted, ExtendedMantissa.mantissa_shiftRight, ExtendedMantissa.mantissa_ofMantissaAndAccuracy]
  rw [shift, shifted] at first
  unfold loss at shift
  have within : k ≤ m.log2 := by
    unfold top at shift above
    omega
  have bits := log2_div_two_pow m k within
  have low : 2 ^ (m.log2 - k) ≤ m / 2 ^ k := by
    rw [Nat.le_div_iff_mul_le (Nat.two_pow_pos k), ← Nat.pow_add, Nat.sub_add_cancel within]
    exact Nat.log2_self_le (Nat.ne_of_gt pos)
  have high : m / 2 ^ k < 2 ^ (m.log2 - k + 1) := by
    rw [← bits]
    exact Nat.lt_log2_self
  have least := em.le_roundedMantissa
  have most := em.roundedMantissa_le
  rw [quotient] at least most
  have positive : 0 < em.roundedMantissa := by
    have := Nat.two_pow_pos (m.log2 - k)
    omega
  have room : m.log2 - k ≤ 52 ∧ -1074 ≤ e + k ∧ (m.log2 - k = 52 ∨ e + k = -1074) := by
    unfold top at shift above
    omega
  have cap : 2 ^ (m.log2 - k + 1) ≤ 2 ^ 53 := Nat.pow_le_pow_right Nat.two_pos (by omega)
  rw [roundWithAccuracy_of_shift first room.2.1 positive (by omega)]
  split
  next carry =>
    have log := (Nat.le_log2 (Nat.ne_of_gt positive)).2 (Nat.le_trans low least)
    have log' : em.roundedMantissa.log2 < m.log2 - k + 2 := by
      rw [Nat.log2_lt (Nat.ne_of_gt positive), Nat.pow_succ]
      omega
    refine ⟨_, _, positive, rfl, ⟨carry, room.2.1, ?_⟩, ?_, ?_⟩
    · rcases room.2.2 with full | grid
      · rw [full] at low
        exact .inl (Nat.le_trans low least)
      · exact .inr grid
    · unfold top
      omega
    · unfold top
      omega
  next carry =>
    have full : 53 ≤ m.log2 - k + 1 := (Nat.pow_le_pow_iff_right (by omega : 1 < 2)).1 (by omega)
    refine ⟨_, _, Nat.two_pow_pos 52, rfl, ⟨by omega, by omega, .inl (Nat.le_refl _)⟩, ?_, ?_⟩ <;>
    · rw [top, top, Nat.log2_two_pow]
      omega

/-! ### Packing -/

theorem toNat_one_append (mantissa : BitVec 52) : (1#1 ++ mantissa).toNat = 2 ^ 52 + mantissa.toNat := by
  rw [BitVec.toNat_append, ← Nat.shiftLeft_add_eq_or_of_lt mantissa.isLt]
  rfl

/-- Unpacking the three fields. -/
theorem unpack_packComponents (s : Sign) (exponent : BitVec 11) (mantissa : BitVec 52) :
    unpack .binary64 (packComponents .binary64 s exponent mantissa) =
      if exponent = -1#11 then if mantissa = 0#52 then .infinity s else .notANumber
      else if exponent = 0#11 then
        if pos : mantissa = 0#52 then .zero s
        else .finite s mantissa.toNat (-1074) (by simpa [BitVec.toNat_pos, BitVec.pos_iff_ne_zero])
      else .finite s (1#1 ++ mantissa).toNat (exponent.toNat - 1075) (by rw [toNat_one_append]; omega) := by
  simp only [unpack, unpackMantissa_packComponents, unpackExponent_packComponents, unpackSign_packComponents,
    Sign.ofBitVec_toBitVec]
  split
  · rfl
  split
  next subnormal => simp [subnormal, Format.exponentBias]
  · rfl

/-- Packing a rounded number that is not too large loses nothing. -/
theorem unpack_pack_finite {s : Sign} {m : ℕ} {e : ℤ} {pos : 0 < m} (rounded : Rounded m e) (small : e ≤ 971) :
    unpack .binary64 (pack .binary64 (.finite s m e pos)) = .finite s m e pos := by
  obtain ⟨short, least, normal⟩ := rounded
  have biased : ((e + 1075).toNat : ℤ) = e + 1075 := Int.toNat_of_nonneg (by omega)
  have fits : ¬ 2 ^ 11 ≤ (e + 1075).toNat + 1 := by omega
  have bits : m.log2 + 1 = 53 ↔ 2 ^ 52 ≤ m := by
    rw [← Nat.le_log2 (Nat.ne_of_gt pos)]
    have := (Nat.log2_lt (Nat.ne_of_gt pos)).2 short
    omega
  have packed : pack .binary64 (.finite s m e pos) =
      if 2 ^ 52 ≤ m then packComponents .binary64 s (BitVec.ofNat 11 (e + 1075).toNat) (BitVec.ofNat 52 m)
      else packComponents .binary64 s 0#11 (BitVec.ofNat 52 m) := by
    have bias : e + (Format.binary64.exponentBias : ℤ) + (Format.binary64.mantissaBitsWithoutImplicit : ℤ) = e + 1075 :=
      Int.add_assoc ..
    rw [pack, bias, if_neg fits]
    exact ite_congr (propext bits) (fun _ => rfl) (fun _ => rfl)
  rw [packed]
  split
  next long =>
    have exponent : (BitVec.ofNat 11 (e + 1075).toNat).toNat = (e + 1075).toNat := by
      rw [BitVec.toNat_ofNat, Nat.mod_eq_of_lt (by omega)]
    have inner : (e + 1075).toNat ≠ 0 ∧ (e + 1075).toNat ≠ 2047 := by omega
    have mantissa : (1#1 ++ BitVec.ofNat 52 m).toNat = m := by
      rw [toNat_one_append, BitVec.toNat_ofNat]
      omega
    rw [unpack_packComponents, if_neg, if_neg]
    · simp only [mantissa, exponent, biased]
      congr 1
      omega
    · exact fun zero => inner.1 (by rw [← exponent, zero]; rfl)
    · exact fun ones => inner.2 (by rw [← exponent, ones]; rfl)
  next long =>
    have mantissa : (BitVec.ofNat 52 m).toNat = m := by rw [BitVec.toNat_ofNat, Nat.mod_eq_of_lt (by omega)]
    have nonzero : BitVec.ofNat 52 m ≠ 0#52 := by
      intro zero
      rw [zero] at mantissa
      exact Nat.ne_of_lt pos mantissa
    obtain rfl : e = -1074 := normal.resolve_left long
    rw [unpack_packComponents, if_neg (by decide), if_pos rfl, dif_neg nonzero]
    simp only [mantissa]

/-- A rounded number that is too large becomes an infinity. -/
theorem unpack_pack_of_large {s : Sign} {m : ℕ} {e : ℤ} {pos : 0 < m} (large : 971 < e) :
    unpack .binary64 (pack .binary64 (.finite s m e pos)) = .infinity s := by
  have bias : e + (Format.binary64.exponentBias : ℤ) + (Format.binary64.mantissaBitsWithoutImplicit : ℤ) = e + 1075 :=
    Int.add_assoc ..
  rw [pack, bias, if_pos (by simp only; omega), packedInfinity, unpack_packComponents]
  rfl

theorem unpack_pack_infinity (s : Sign) : unpack .binary64 (pack .binary64 (.infinity s)) = .infinity s := by
  rw [pack, packedInfinity, unpack_packComponents]
  rfl

theorem unpack_pack_zero (s : Sign) : unpack .binary64 (pack .binary64 (.zero s)) = .zero s := by
  rw [pack, unpack_packedZero]

theorem unpack_pack_notANumber : unpack .binary64 (pack .binary64 .notANumber) = .notANumber := by
  rw [pack, unpack_packedNaN]

/-- Only NaN is packed as NaN. -/
theorem unpack_pack_finite_ne (s : Sign) (m : ℕ) (e : ℤ) (pos : 0 < m) :
    unpack .binary64 (pack .binary64 (.finite s m e pos)) ≠ .notANumber := by
  have bias : e + (Format.binary64.exponentBias : ℤ) + (Format.binary64.mantissaBitsWithoutImplicit : ℤ) = e + 1075 :=
    Int.add_assoc ..
  rw [pack, bias]
  simp only
  split
  · rw [packedInfinity, unpack_packComponents]
    simp
  next fits =>
    have inner : BitVec.ofNat 11 (e + 1075).toNat ≠ -1#11 := by
      intro ones
      have value := congrArg BitVec.toNat ones
      rw [BitVec.toNat_ofNat, Nat.mod_eq_of_lt (by omega)] at value
      change _ = 2047 at value
      omega
    split
    · rw [unpack_packComponents, if_neg inner]
      split
      · split <;> nofun
      · nofun
    · rw [unpack_packComponents, if_neg (by decide), if_pos rfl]
      split <;> nofun

/-- Unpacking reads three fields. -/
theorem exists_unpack_eq (bits : BitVec 64) :
    ∃ s exponent mantissa, unpack .binary64 bits = unpack .binary64 (packComponents .binary64 s exponent mantissa) := by
  refine ⟨Sign.ofBitVec (@unpackSign .binary64 bits), @unpackExponent .binary64 bits, @unpackMantissa .binary64 bits, ?_⟩
  rw [@packComponents_unpackSign_unpackExponent_unpackMantissa .binary64 bits]

/-- Whatever is unpacked is rounded and not too large. -/
theorem rounded_of_unpack {bits : BitVec 64} {s : Sign} {m : ℕ} {e : ℤ} {pos : 0 < m}
    (unpacked : unpack .binary64 bits = .finite s m e pos) : Rounded m e ∧ e ≤ 971 := by
  obtain ⟨s', exponent, mantissa, fields⟩ := exists_unpack_eq bits
  rw [fields, unpack_packComponents] at unpacked
  have bound : mantissa.toNat < 2 ^ 52 := mantissa.isLt
  split at unpacked
  · split at unpacked <;> simp at unpacked
  split at unpacked
  · split at unpacked
    · simp at unpacked
    · simp only [finite.injEq] at unpacked
      obtain ⟨-, rfl, rfl⟩ := unpacked
      exact ⟨⟨by omega, by omega, .inr rfl⟩, by omega⟩
  next ones zeros =>
    simp only [finite.injEq, toNat_one_append] at unpacked
    obtain ⟨-, rfl, rfl⟩ := unpacked
    have pos : exponent.toNat ≠ 0 := fun zero => zeros (BitVec.eq_of_toNat_eq zero)
    have small : exponent.toNat ≠ 2047 := fun all => ones (BitVec.eq_of_toNat_eq all)
    have : exponent.toNat < 2 ^ 11 := exponent.isLt
    exact ⟨⟨by omega, by omega, .inl (by omega)⟩, by omega⟩

end Float.Model.UnpackedFloat
