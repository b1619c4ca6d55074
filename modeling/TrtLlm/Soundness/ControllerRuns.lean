import TrtLlm.Soundness.AdmissionRoom

/-! # How the concurrency cap moves

One observation leaves the controller by one of eight ways out. Each is listed with the tests that lead to it and with
the controller it leaves, so what holds of every run is a case analysis.
-/

namespace TrtLlm.Sched

namespace ItlController

variable {c : ItlController} {itlMs : Millis} {concurrency : ℕ}

/-! ### One observation -/

/-- The cap that a decrease sets. -/
def lowered (c : ItlController) (concurrency : ℕ) : ℚ :=
  max ((if 0 < concurrency then min c.cap concurrency else c.cap) * decreaseFactor) c.minCap

/-- The smoothed latency is above the high water mark once the sample is in. -/
def High (c : ItlController) (itlMs : Millis) : Prop := c.targetMs * highWater < (c.smooth itlMs).ewmaMs

/-- The smoothed latency is below the low water mark once the sample is in. -/
def Low (c : ItlController) (itlMs : Millis) : Prop := (c.smooth itlMs).ewmaMs < c.targetMs * lowWater

instance (c : ItlController) (itlMs : Millis) : Decidable (c.High itlMs) := inferInstanceAs (Decidable (_ < _))

/-- The probe, with this sample counted, does not end the steering, and the back-off it allows reaches the floor. -/
def BacksOffToFloor (c : ItlController) (itlMs : Millis) (concurrency : ℕ) : Prop :=
  (c.smooth itlMs).openProbe.probeFailed = false ∧ c.lowered concurrency ≤ c.minCap * (101 / 100)

/-- The ways out of one observation. -/
inductive Exit (c : ItlController) (itlMs : Millis) (concurrency : ℕ) : ItlController → Prop
  | warmUp (few : c.samples + 1 < 8) : Exit c itlMs concurrency (c.smooth itlMs)
  | held (high : c.High itlMs) (set : c.concurrencyNotBinding = true) : Exit c itlMs concurrency (c.smooth itlMs)
  | futile (high : c.High itlMs) (unset : c.concurrencyNotBinding = false)
      (window : probeWindow ≤ c.observationsSinceDecrease + 1) : Exit c itlMs concurrency (c.smooth itlMs).giveUp
  | floored (high : c.High itlMs) (unset : c.concurrencyNotBinding = false)
      (floor : c.BacksOffToFloor itlMs concurrency) : Exit c itlMs concurrency (c.smooth itlMs).giveUp
  | stepDown (high : c.High itlMs) (unset : c.concurrencyNotBinding = false) (ewmaAtDecrease : Option Millis)
      (count : ℕ) (counted : count ≤ c.observationsSinceDecrease + 1) :
      Exit c itlMs concurrency
        { c.smooth itlMs with
          cap := c.lowered concurrency, ewmaAtDecrease, observationsSinceDecrease := count }
  | stepUp (low : c.Low itlMs) (used : c.cap * utilisationGate ≤ concurrency) :
      Exit c itlMs concurrency
        { c.smooth itlMs with
          concurrencyNotBinding := false, cap := min (c.cap + increaseStep) c.maxCap, ewmaAtDecrease := none,
          observationsSinceDecrease := 0 }
  | cleared (low : c.Low itlMs) (set : c.concurrencyNotBinding = true) :
      Exit c itlMs concurrency
        { c.smooth itlMs with
          concurrencyNotBinding := false, ewmaAtDecrease := none, observationsSinceDecrease := 0 }
  | kept (calm : ¬c.High itlMs) : Exit c itlMs concurrency (c.smooth itlMs)

theorem resume_cases (c : ItlController) :
    c.resume = c ∧ (c.concurrencyNotBinding = true → ¬c.ewmaMs < c.targetMs * lowWater) ∨
      c.resume = { c with
        concurrencyNotBinding := false, ewmaAtDecrease := none, observationsSinceDecrease := 0 } ∧
        c.concurrencyNotBinding = true ∧ c.ewmaMs < c.targetMs * lowWater := by
  unfold resume
  split
  next both => exact .inr ⟨rfl, both⟩
  next stays => exact .inl ⟨rfl, not_and.mp stays⟩

/-- Opening a probe counts the observation. -/
theorem openProbe_cases (c : ItlController) :
    ∃ ewmaAtDecrease count, c.openProbe = { c with ewmaAtDecrease, observationsSinceDecrease := count } ∧
      count ≤ c.observationsSinceDecrease + 1 := by
  unfold openProbe
  split
  next => exact ⟨_, _, rfl, Nat.le_add_left 1 _⟩
  next => exact ⟨_, _, rfl, le_rfl⟩

theorem renewProbe_cases (c : ItlController) :
    ∃ ewmaAtDecrease count, c.renewProbe = { c with ewmaAtDecrease, observationsSinceDecrease := count } ∧
      count ≤ c.observationsSinceDecrease := by
  unfold renewProbe
  split
  next => exact ⟨_, _, rfl, Nat.zero_le _⟩
  next => exact ⟨_, _, rfl, le_rfl⟩

theorem window_of_probeFailed (failed : c.probeFailed = true) : probeWindow ≤ c.observationsSinceDecrease := by
  unfold probeFailed at failed
  split at failed
  next => cases failed
  next => exact (of_decide_eq_true failed).1

theorem decrease_eq (c : ItlController) (concurrency : ℕ) :
    c.decrease concurrency =
      if c.lowered concurrency ≤ c.minCap * (101 / 100) then c.giveUp
      else { c with cap := c.lowered concurrency } := rfl

theorem not_low_of_high (positive : 0 < c.targetMs) (high : c.High itlMs) : ¬c.Low itlMs := by
  unfold High highWater at high
  unfold Low lowWater
  linarith

/-- Above the high water mark with the flag unset: the probe decides, then the floor. -/
theorem exit_of_high (high : c.High itlMs) (unset : c.concurrencyNotBinding = false) :
    c.Exit itlMs concurrency
      (if (c.smooth itlMs).openProbe.probeFailed then (c.smooth itlMs).openProbe.giveUp
        else (c.smooth itlMs).openProbe.renewProbe.decrease concurrency) := by
  obtain ⟨before, count, opened, counted⟩ := (c.smooth itlMs).openProbe_cases
  split
  next failed =>
    have window := window_of_probeFailed failed
    rw [opened] at window ⊢
    exact .futile high unset (window.trans counted)
  next going =>
    rw [Bool.not_eq_true] at going
    obtain ⟨renewedBefore, renewedCount, renewed, fewer⟩ := (c.smooth itlMs).openProbe.renewProbe_cases
    rw [renewed, decrease_eq, opened]
    rw [opened] at fewer
    split
    next floor => exact .floored high unset ⟨going, floor⟩
    next above => exact .stepDown high unset _ _ (fewer.trans counted)

theorem observe_exit (positive : 0 < c.targetMs) (itlMs : Millis) (concurrency : ℕ) :
    c.Exit itlMs concurrency (c.observe itlMs concurrency) := by
  unfold observe
  simp only
  split
  next few => exact .warmUp few
  next =>
    rcases (c.smooth itlMs).resume_cases with ⟨resumed, unready⟩ | ⟨resumed, set, low⟩
    · rw [resumed]
      unfold steer
      split
      next high =>
        split
        next set => exact .held high set
        next unset => exact exit_of_high high (Bool.eq_false_iff.mpr unset)
      next calm =>
        split
        next low =>
          have unset : c.concurrencyNotBinding = false := Bool.eq_false_iff.mpr fun set => unready set low.1
          have up := @Exit.stepUp c itlMs concurrency low.1 low.2
          rw [← unset] at up
          exact up
        next => exact .kept calm
    · have calm : ¬c.High itlMs := fun high => not_low_of_high positive high low
      rw [resumed]
      unfold steer
      split
      next high => exact absurd high calm
      next =>
        split
        next up => exact .stepUp low up.2
        next => exact .cleared low set

/-! ### Calls and runs -/

/-- What is done to a controller. -/
inductive ControllerOp where
  | observe (itlMs : Millis) (concurrency : ℕ)
  | backOff
deriving DecidableEq, Repr

def apply (c : ItlController) : ControllerOp → ItlController
  | .observe itlMs concurrency => c.observe itlMs concurrency
  | .backOff => c.backOff

/-- How many of the calls are observations. -/
def observations (ops : List ControllerOp) : ℕ := ops.countP fun op => op ≠ .backOff

/-- The cap is inside its limits, and the controller steers on the target it was made for. -/
structure Tuned (targetMs low high : ℚ) (c : ItlController) : Prop extends c.Ranged low high where
  ceiling : c.cap ≤ high
  target : c.targetMs = targetMs

variable {targetMs low high : ℚ}

theorem tuned_new (targetMs initialCap : ℚ) (order : low ≤ high) :
    (new targetMs initialCap low high).Tuned targetMs low high :=
  ⟨ranged_new _ _ _ _, max_le order (min_le_right _ _), rfl⟩

theorem Tuned.steers (tuned : c.Tuned targetMs low high) (positive : 0 < targetMs) : 0 < c.targetMs := by
  rw [tuned.target]
  exact positive

theorem lowered_le (tuned : c.Tuned targetMs low high) (floor : 0 < low) : c.lowered concurrency ≤ c.cap := by
  have above := tuned.floor
  have part : (if 0 < concurrency then min c.cap concurrency else c.cap) ≤ c.cap := by
    split
    · exact min_le_left _ _
    · exact le_rfl
  unfold lowered decreaseFactor
  rw [tuned.minCap]
  refine max_le ?_ above
  linarith

theorem Tuned.exit (tuned : c.Tuned targetMs low high) (floor : 0 < low) (order : low ≤ high) {after : ItlController}
    (exit : c.Exit itlMs concurrency after) : after.Tuned targetMs low high := by
  have less : c.lowered concurrency ≤ c.cap := lowered_le tuned floor
  obtain ⟨⟨minCap, maxCap, above⟩, ceiling, target⟩ := tuned
  have down : low ≤ c.lowered concurrency := minCap ▸ le_max_right _ _
  have up : low ≤ min (c.cap + increaseStep) c.maxCap := by
    rw [maxCap, increaseStep]
    exact le_min (by linarith) order
  cases exit with
  | warmUp => exact ⟨⟨minCap, maxCap, above⟩, ceiling, target⟩
  | held => exact ⟨⟨minCap, maxCap, above⟩, ceiling, target⟩
  | futile => exact ⟨⟨minCap, maxCap, order.trans maxCap.ge⟩, maxCap.le, target⟩
  | floored => exact ⟨⟨minCap, maxCap, order.trans maxCap.ge⟩, maxCap.le, target⟩
  | stepDown => exact ⟨⟨minCap, maxCap, down⟩, less.trans ceiling, target⟩
  | stepUp => exact ⟨⟨minCap, maxCap, up⟩, (min_le_right _ _).trans maxCap.le, target⟩
  | cleared => exact ⟨⟨minCap, maxCap, above⟩, ceiling, target⟩
  | kept => exact ⟨⟨minCap, maxCap, above⟩, ceiling, target⟩

theorem Tuned.backOff (tuned : c.Tuned targetMs low high) (floor : 0 < low) : c.backOff.Tuned targetMs low high := by
  refine ⟨tuned.toRanged.backOff, ?_, tuned.target⟩
  have above := tuned.floor
  have ceiling := tuned.ceiling
  rw [ItlController.backOff, decreaseFactor, tuned.minCap]
  refine max_le ?_ (above.trans ceiling)
  linarith

theorem Tuned.apply (tuned : c.Tuned targetMs low high) (positive : 0 < targetMs) (floor : 0 < low)
    (order : low ≤ high) (op : ControllerOp) : (c.apply op).Tuned targetMs low high := by
  cases op with
  | observe itlMs concurrency => exact tuned.exit floor order (observe_exit (tuned.steers positive) _ _)
  | backOff => exact tuned.backOff floor

theorem tuned_of_run (positive : 0 < targetMs) (initialCap : ℚ) (floor : 0 < low) (order : low ≤ high)
    (ops : List ControllerOp) : (ops.foldl apply (new targetMs initialCap low high)).Tuned targetMs low high := by
  induction ops using List.reverseRecOn with
  | nil => exact tuned_new _ _ order
  | append_singleton ops op ih =>
    rw [List.foldl_concat]
    exact ih.apply positive floor order op

theorem Exit.samples {after : ItlController} (exit : c.Exit itlMs concurrency after) :
    after.samples = c.samples + 1 := by
  cases exit <;> rfl

theorem samples_of_run (positive : 0 < targetMs) (initialCap : ℚ) (floor : 0 < low) (order : low ≤ high)
    (ops : List ControllerOp) :
    (ops.foldl apply (new targetMs initialCap low high)).samples = observations ops := by
  induction ops using List.reverseRecOn with
  | nil => rfl
  | append_singleton ops op ih =>
    have steers := (tuned_of_run positive initialCap floor order ops).steers positive
    rw [List.foldl_concat, observations, List.countP_append, ← observations, ← ih]
    cases op with
    | observe itlMs concurrency => exact (observe_exit steers itlMs concurrency).samples
    | backOff => rfl

/-! ### When the cap grows -/

/-- A raised cap is one step up, in use and below the low water mark, or the full cap at giving up. -/
theorem Exit.raise (tuned : c.Tuned targetMs low high) (floor : 0 < low) {after : ItlController}
    (exit : c.Exit itlMs concurrency after) (raised : c.cap < after.cap) :
    after.cap ≤ c.cap + 1 ∧ after.ewmaMs < 9 / 10 * targetMs ∧ 9 / 10 * c.cap ≤ concurrency ∨
      after.cap = high ∧ c.concurrencyNotBinding = false ∧ after.concurrencyNotBinding = true := by
  cases exit with
  | warmUp => exact absurd raised (lt_irrefl _)
  | held => exact absurd raised (lt_irrefl _)
  | futile _ unset => exact .inr ⟨tuned.maxCap, unset, rfl⟩
  | floored _ unset => exact .inr ⟨tuned.maxCap, unset, rfl⟩
  | stepDown => exact absurd raised (lowered_le tuned floor).not_gt
  | stepUp low used =>
    rw [Low, tuned.target, mul_comm] at low
    rw [mul_comm] at used
    exact .inl ⟨min_le_left _ _, low, used⟩
  | cleared => exact absurd raised (lt_irrefl _)
  | kept => exact absurd raised (lt_irrefl _)

theorem lowered_of_running (tuned : c.Tuned targetMs low high) (running : 1 ≤ concurrency) :
    c.lowered concurrency = max low (9 / 10 * min c.cap concurrency) := by
  rw [lowered, if_pos (Nat.lt_of_succ_le running), tuned.minCap, max_comm, mul_comm]
  rfl

/-- Past the warm-up and above the high water mark, an observation that steers on backs off. -/
theorem Exit.backsOff {after : ItlController} (exit : c.Exit itlMs concurrency after) (warm : 8 ≤ c.samples + 1)
    (high : c.High itlMs) (unset : c.concurrencyNotBinding = false) (steering : after.concurrencyNotBinding = false)
    (positive : 0 < c.targetMs) : after.cap = c.lowered concurrency := by
  cases exit with
  | warmUp few => exact absurd warm few.not_ge
  | held _ set => exact absurd (unset.symm.trans set) Bool.false_ne_true
  | futile => cases steering
  | floored => cases steering
  | stepDown => rfl
  | stepUp low => exact absurd low (not_low_of_high positive high)
  | cleared low => exact absurd low (not_low_of_high positive high)
  | kept calm => exact absurd high calm

theorem Exit.ewmaMs {after : ItlController} (exit : c.Exit itlMs concurrency after) :
    after.ewmaMs = (c.smooth itlMs).ewmaMs := by
  cases exit <;> rfl

end ItlController

end TrtLlm.Sched

namespace TrtLlm.PyExt.RustScheduler

open Sched

variable {sched : RustScheduler}

/-- A scheduler with a positive budget steers between one sequence and its batch size. -/
theorem tuned_of_calls (maxBatchSize maxNumTokens : ℕ) {itlBudgetMs : Millis} (positive : 0 < itlBudgetMs)
    (kvTotalBlocks : ℕ) (orderSetting : Option String) (calls : List SchedulerOp) :
    (calls.foldl apply (new maxBatchSize maxNumTokens itlBudgetMs kvTotalBlocks orderSetting)).controller.Tuned
      itlBudgetMs 1 (max maxBatchSize 1 : ℕ) := by
  have order : (1 : ℚ) ≤ (max maxBatchSize 1 : ℕ) := by exact_mod_cast le_max_right _ _
  induction calls using List.reverseRecOn with
  | nil => exact ItlController.tuned_new _ _ order
  | append_singleton calls call ih =>
    rw [List.foldl_concat]
    cases call with
    | decide args =>
      rw [apply, (decide_frame _ args).2.2.1]
      exact ih
    | observe stepMs concurrency =>
      exact ih.exit one_pos order (ItlController.observe_exit (ih.steers positive) _ _)

theorem generationCap_bounds {targetMs : Millis} {high : ℕ} (tuned : sched.controller.Tuned targetMs 1 high) :
    1 ≤ sched.generationCap ∧ sched.generationCap ≤ high := by
  have some : (0 : ℚ) ≤ sched.controller.cap := zero_le_one.trans tuned.floor
  rw [generationCap, max_eq_left some]
  refine ⟨Nat.le_floor ?_, Nat.floor_le_of_le tuned.ceiling⟩
  exact_mod_cast tuned.floor

end TrtLlm.PyExt.RustScheduler

namespace TrtLlm.Sched.ItlController

open PyExt (RustScheduler)

/-- In every run the cap stays inside its limits. It grows by a step at most, in use and under the low water mark,
or to its ceiling in the observation that gives up; past the warm-up and above the high water mark, an
observation that neither finds the flag set nor sets it backs off. So the live path, with its target as the budget,
always decides with a cap between one and its batch size. -/
theorem cap_grows_in_use {targetMs low high : ℚ} (positive : 0 < targetMs) (floor : 0 < low) (order : low ≤ high)
    (initialCap : ℚ) (ops : List ControllerOp) :
    let c := ops.foldl apply (new targetMs initialCap low high)
    (low ≤ c.cap ∧ c.cap ≤ high) ∧
      (∀ itlMs concurrency, let after := c.observe itlMs concurrency
        (c.cap < after.cap →
          after.cap ≤ c.cap + 1 ∧ after.ewmaMs < 9 / 10 * targetMs ∧ 9 / 10 * c.cap ≤ concurrency ∨
            after.cap = high ∧ c.concurrencyNotBinding = false ∧ after.concurrencyNotBinding = true) ∧
        (8 ≤ observations (ops ++ [.observe itlMs concurrency]) → 98 / 100 * targetMs < after.ewmaMs →
          c.concurrencyNotBinding = false → after.concurrencyNotBinding = false → 1 ≤ concurrency →
          after.cap ≤ max low (9 / 10 * min c.cap concurrency))) ∧
      ∀ maxBatchSize maxNumTokens kvTotalBlocks orderSetting (calls : List RustScheduler.SchedulerOp) args,
        let start := RustScheduler.new maxBatchSize maxNumTokens targetMs kvTotalBlocks orderSetting
        let sched := calls.foldl RustScheduler.apply start
        1 ≤ (sched.decideInput args).generationCap ∧ (sched.decideInput args).generationCap ≤ max 1 maxBatchSize := by
  intro c
  have tuned : c.Tuned targetMs low high := tuned_of_run positive initialCap floor order ops
  refine ⟨⟨tuned.floor, tuned.ceiling⟩, fun itlMs concurrency => ?_, ?_⟩
  · intro after
    have exit : c.Exit itlMs concurrency after := observe_exit (tuned.steers positive) itlMs concurrency
    refine ⟨exit.raise tuned floor, fun warm above unset steering running => ?_⟩
    have counted : observations (ops ++ [.observe itlMs concurrency]) = c.samples + 1 := by
      rw [observations, List.countP_append, ← observations, ← samples_of_run positive initialCap floor order ops]
      rfl
    have high : c.High itlMs := by
      rw [exit.ewmaMs, mul_comm] at above
      rw [High, tuned.target]
      exact above
    rw [exit.backsOff (counted ▸ warm) high unset steering (tuned.steers positive), lowered_of_running tuned running]
  · intro maxBatchSize maxNumTokens kvTotalBlocks orderSetting calls args
    rw [max_comm]
    exact RustScheduler.generationCap_bounds
      (RustScheduler.tuned_of_calls maxBatchSize maxNumTokens positive kvTotalBlocks orderSetting calls)

/-- Seven fast steps of four sequences, under a cap of two. -/
def risingRun : List ControllerOp := .replicate 7 (.observe 10 4)

theorem risingRun_grows :
    let c := risingRun.foldl apply (new 20 2 1 8)
    c.cap < (c.observe 10 4).cap ∧ (c.observe 10 4).cap ≤ c.cap + 1 := by
  intro c
  have raised : c.cap < (c.observe 10 4).cap := by decide +kernel
  have grows := (@cap_grows_in_use 20 1 8 (by decide) (by decide) (by decide) 2 risingRun).2.1 10 4
  exact ⟨raised, ((grows.1 raised).resolve_right (by decide +kernel)).1⟩

end TrtLlm.Sched.ItlController
