import Mathlib.Tactic.FieldSimp
import Mathlib.Tactic.Linarith
import Mathlib.Tactic.Ring
import TrtLlm.Model.Core.Capacity
import TrtLlm.Model.Raw.Number

/-! # The sized decode concurrency and its budget

On a rising curve the sized concurrency per GPU is where the curve meets the budget, clamped to one sequence from below
and to the ceiling from above. The upper bound keeps the ITL within the budget; the lower one keeps it only where one
sequence for each GPU meets the budget already. On a flat curve the measured concurrency is taken as it is.
-/

namespace TrtLlm.Capacity

theorem clamp_eq_some {value low high result : ℚ} :
    clamp value low high = some result ↔ low ≤ high ∧ result = max low (min value high) := by
  rw [clamp]
  split
  next ordered =>
    rw [Option.some.injEq, eq_comm, and_iff_right ordered]
    refine Eq.congr_right ?_
    split
    next below => rw [min_eq_left (below.le.trans ordered), max_eq_left below.le]
    next above =>
      split
      next beyond => rw [min_eq_right beyond.le, max_eq_right ordered]
      next within => rw [min_eq_left (not_lt.mp within), max_eq_right (not_lt.mp above)]
  next disordered => simp [disordered]

namespace DecodeCalibration

variable {cal : DecodeCalibration} {gpus : UInt32} {slo : Slo} {safety : ℚ}

/-- The most sequences on one GPU that sizing may assume. -/
def ceiling (cal : DecodeCalibration) : ℚ := cal.concurrencyPerGpu * max cal.maxExtrapolation 1

/-- Where the fitted curve meets the budget, on one GPU. -/
def perGpuForSlo (cal : DecodeCalibration) (slo : Slo) (safety : ℚ) : ℚ :=
  cal.concurrencyPerGpu + (slo.itlMs * safety / cal.itlRatio - cal.itlMsAtRef) / cal.itlSlopeMs

/-- The ITL depends on the concurrency of one GPU. -/
theorem itlMs_mul_gpus (some : gpus ≠ 0) (perGpu : ℚ) : cal.itlMs (perGpu * gpus.toNat) gpus =
    (cal.itlMsAtRef + cal.itlSlopeMs * (perGpu - cal.concurrencyPerGpu)) * cal.itlRatio := by
  have positive : 0 < gpus.toNat := Nat.pos_of_ne_zero fun zero => some (UInt32.toNat.inj zero)
  have cast : (gpus.toNat : ℚ) ≠ 0 := Nat.cast_ne_zero.mpr positive.ne'
  rw [itlMs, itlMsBaseline, Raw.max_one some, mul_div_cancel_right₀ _ cast]

/-- On a rising curve the budget bounds the concurrency of one GPU. -/
theorem itl_le_budget_iff (rising : 0 < cal.itlSlopeMs) (ratio : 0 < cal.itlRatio) (perGpu : ℚ) :
    (cal.itlMsAtRef + cal.itlSlopeMs * (perGpu - cal.concurrencyPerGpu)) * cal.itlRatio ≤ slo.itlMs * safety ↔
      perGpu ≤ cal.perGpuForSlo slo safety := by
  rw [← le_div_iff₀ ratio, perGpuForSlo, ← sub_le_iff_le_add', le_div_iff₀' rising, le_sub_iff_add_le']

/-- The sized concurrency is defined and its predicted ITL is within the budget. -/
def MeetsBudget (cal : DecodeCalibration) (gpus : UInt32) (slo : Slo) (safety : ℚ) : Prop :=
  ∃ concurrency, cal.maxConcurrencyForSlo gpus slo safety = some concurrency ∧
    cal.itlMs concurrency gpus ≤ slo.itlMs * safety

theorem maxConcurrencyForSlo_of_rising (rising : 0 < cal.itlSlopeMs) : cal.maxConcurrencyForSlo gpus slo safety =
    (clamp (cal.perGpuForSlo slo safety) 1 cal.ceiling).map fun perGpu => perGpu * (gpus.toNat : ℚ) :=
  if_neg (not_le.mpr rising)

theorem meetsBudget_of_rising_iff (rising : 0 < cal.itlSlopeMs) (ratio : 0 < cal.itlRatio) (some : gpus ≠ 0) :
    cal.MeetsBudget gpus slo safety ↔ 1 ≤ cal.ceiling ∧ 1 ≤ cal.perGpuForSlo slo safety := by
  rw [MeetsBudget, maxConcurrencyForSlo_of_rising rising]
  constructor
  · rintro ⟨_, sized, met⟩
    obtain ⟨perGpu, clamped, rfl⟩ := Option.map_eq_some_iff.mp sized
    obtain ⟨ordered, rfl⟩ := clamp_eq_some.mp clamped
    rw [itlMs_mul_gpus some, itl_le_budget_iff rising ratio] at met
    exact ⟨ordered, (le_max_left _ _).trans met⟩
  · rintro ⟨ordered, room⟩
    refine ⟨_, Option.map_eq_some_iff.mpr ⟨_, clamp_eq_some.mpr ⟨ordered, rfl⟩, rfl⟩, ?_⟩
    rw [itlMs_mul_gpus some, itl_le_budget_iff rising ratio]
    exact max_le room (min_le_left _ _)

theorem meetsBudget_of_flat_iff (flat : cal.itlSlopeMs ≤ 0) (some : gpus ≠ 0) :
    cal.MeetsBudget gpus slo safety ↔ cal.itlMsAtRef * cal.itlRatio ≤ slo.itlMs * safety := by
  have sized : cal.maxConcurrencyForSlo gpus slo safety = Option.some (cal.concurrencyPerGpu * gpus.toNat) :=
    if_pos flat
  have predicted : cal.itlMs (cal.concurrencyPerGpu * gpus.toNat) gpus = cal.itlMsAtRef * cal.itlRatio := by
    rw [itlMs_mul_gpus some, sub_self, mul_zero, add_zero]
  rw [MeetsBudget, sized, ← predicted]
  exact ⟨fun ⟨_, same, met⟩ => Option.some.inj same ▸ met, fun met => ⟨_, rfl, met⟩⟩

/-- The sized concurrency meets its budget exactly when, on a flat curve, the measured ITL does, and on a rising one,
the ceiling is one sequence for each GPU or more and the ITL of one sequence for each GPU meets the budget. -/
theorem meetsBudget_iff (cal : DecodeCalibration) (ratio : 0 < cal.itlRatio) (gpus : UInt32) (some : gpus ≠ 0)
    (slo : Slo) (safety : ℚ) :
    cal.MeetsBudget gpus slo safety ↔
      if cal.itlSlopeMs ≤ 0 then cal.itlMsAtRef * cal.itlRatio ≤ slo.itlMs * safety
      else 1 ≤ cal.concurrencyPerGpu * max cal.maxExtrapolation 1 ∧
        (cal.itlMsAtRef + cal.itlSlopeMs * (1 - cal.concurrencyPerGpu)) * cal.itlRatio ≤ slo.itlMs * safety := by
  split
  next flat => exact meetsBudget_of_flat_iff flat some
  next rising =>
    rw [itl_le_budget_iff (not_le.mp rising) ratio]
    exact meetsBudget_of_rising_iff (not_le.mp rising) ratio some

/-- Where the budget is met, the rate is computed from the predicted ITL. -/
theorem MeetsBudget.reqPerS_eq (met : cal.MeetsBudget gpus slo safety) (headroom : slo.itlMs * safety ≤ slo.itlMs)
    (osl : UInt32) : ∃ concurrency, cal.maxConcurrencyForSlo gpus slo safety = some concurrency ∧
      cal.reqPerS gpus osl slo safety = some (concurrency / (osl.toNat * cal.itlMs concurrency gpus / 1000)) := by
  obtain ⟨concurrency, sized, within⟩ := met
  refine ⟨concurrency, sized, ?_⟩
  rw [reqPerS, sized, Option.map_some, min_eq_left (within.trans headroom)]

/-- The default calibration: 53 sequences on 8 GPUs at 17.23 ms. -/
def measured : DecodeCalibration := ⟨53 / 8, 1723 / 100, 106 / 100, 1, none⟩

theorem meetsBudget_measured : measured.MeetsBudget 8 ⟨3000, 20, 1⟩ 1 :=
  (meetsBudget_iff measured (by norm_num [measured, itlRatio]) 8 (by decide) ⟨3000, 20, 1⟩ 1).mpr (by
    norm_num [measured, itlRatio])

/-- At a budget of 10 ms the lower bound of the clamp is taken, and one sequence for each GPU is too slow. -/
theorem not_meetsBudget_tight : ¬∀ (cal : DecodeCalibration) (gpus : UInt32) (slo : Slo) (safety : ℚ),
    0 < cal.concurrencyPerGpu → 0 < cal.itlRatio → gpus ≠ 0 → 0 < safety → safety ≤ 1 →
      cal.MeetsBudget gpus slo safety := by
  intro meets
  have met := meets measured 8 ⟨3000, 10, 1⟩ 1 (by norm_num [measured]) (by norm_num [measured, itlRatio]) (by decide)
    one_pos le_rfl
  rw [meetsBudget_of_rising_iff (by norm_num [measured]) (by norm_num [measured, itlRatio]) (by decide)] at met
  revert met
  norm_num [measured, ceiling, perGpuForSlo, itlRatio]

end DecodeCalibration

end TrtLlm.Capacity
