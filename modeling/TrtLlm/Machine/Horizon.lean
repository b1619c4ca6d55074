import Mathlib.Algebra.Order.Field.Rat
import Mathlib.Algebra.Order.Floor.Semiring
import Mathlib.Data.Rat.Floor

/-! # Ticks before a horizon

How many steps of a fixed length still start before a horizon. The count never grows as time passes, and each step
uses at least one tick up, so it bounds what a process with a minimum delay can still do.
-/

namespace Machine

variable {K : Type*} [Field K] [LinearOrder K] [FloorSemiring K]

/-- The steps of length `tick` that start at `time` or later, one after another, and not past `horizon`. -/
def ticksLeft (tick horizon time : K) : ℕ := if time ≤ horizon then ⌊(horizon - time) / tick⌋₊ + 1 else 0

variable {tick horizon : K}

theorem ticksLeft_pos {time : K} (inside : time ≤ horizon) : 0 < ticksLeft tick horizon time := by
  rw [ticksLeft, if_pos inside]
  exact Nat.succ_pos _

variable [IsStrictOrderedRing K]

theorem ticksLeft_anti (positive : 0 < tick) {early late : K} (order : early ≤ late) :
    ticksLeft tick horizon late ≤ ticksLeft tick horizon early := by
  unfold ticksLeft
  by_cases inside : late ≤ horizon
  · rw [if_pos inside, if_pos (order.trans inside)]
    refine Nat.succ_le_succ (Nat.floor_mono ?_)
    gcongr
  · rw [if_neg inside]
    exact Nat.zero_le _

/-- A step inside the horizon uses up a tick. -/
theorem ticksLeft_step (positive : 0 < tick) {early late : K} (inside : early ≤ horizon) (apart : early + tick ≤ late) :
    ticksLeft tick horizon late + 1 ≤ ticksLeft tick horizon early := by
  unfold ticksLeft
  rw [if_pos inside]
  refine Nat.succ_le_succ ?_
  split
  next reached =>
    have fits : (horizon - late) / tick + 1 ≤ (horizon - early) / tick := by
      rw [div_add_one positive.ne', div_le_div_iff_of_pos_right positive]
      linarith
    have nonneg : 0 ≤ (horizon - late) / tick := div_nonneg (sub_nonneg.mpr reached) positive.le
    rw [← Nat.floor_add_one nonneg]
    exact Nat.floor_mono fits
  next => exact Nat.zero_le _

end Machine
