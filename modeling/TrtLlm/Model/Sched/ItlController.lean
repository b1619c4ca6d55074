import Mathlib.Algebra.Order.Field.Rat
import TrtLlm.Model.Core.Types

/-! # The adaptive concurrency cap

`ItlController` of `crates/sched/src/decode.rs`. The tuning constants are fields there, written once
by `new`; they are definitions here. `ewma_at_decrease` is infinite while no probe is open, which
is `none` here.
-/

namespace TrtLlm.Sched

/-- The state of the AIMD controller over the decode concurrency cap. -/
structure ItlController where
  targetMs : Millis
  ewmaMs : Millis
  cap : ℚ
  minCap : ℚ
  maxCap : ℚ
  samples : ℕ
  concurrencyNotBinding : Bool
  ewmaAtDecrease : Option Millis
  observationsSinceDecrease : ℕ
deriving DecidableEq, Repr

namespace ItlController

def alpha : ℚ := 1 / 10

def increaseStep : ℚ := 1

def decreaseFactor : ℚ := 9 / 10

def lowWater : ℚ := 9 / 10

def highWater : ℚ := 98 / 100

/-- Fraction of the cap the batch must reach before the cap is allowed to grow. -/
def utilisationGate : ℚ := 9 / 10

/-- Observations to wait after a decrease before judging whether it helped. -/
def probeWindow : ℕ := 15

def improvementThreshold : ℚ := 2 / 100

/-- `f64::clamp` panics when `min_cap` exceeds `max_cap`; that case is outside the model. -/
def new (targetMs : Millis) (initialCap minCap maxCap : ℚ) : ItlController where
  targetMs
  ewmaMs := 0
  cap := max minCap (min initialCap maxCap)
  minCap
  maxCap
  samples := 0
  concurrencyNotBinding := false
  ewmaAtDecrease := none
  observationsSinceDecrease := 0

def observedItlMs (c : ItlController) : Millis := c.ewmaMs

/-- Count the sample and fold it into the moving average. -/
def smooth (c : ItlController) (itlMs : Millis) : ItlController :=
  { c with
    samples := c.samples + 1
    ewmaMs := if c.samples + 1 = 1 then itlMs else (1 - alpha) * c.ewmaMs + alpha * itlMs }

/-- Resume steering once the budget is reachable again. -/
def resume (c : ItlController) : ItlController :=
  if c.concurrencyNotBinding ∧ c.ewmaMs < c.targetMs * lowWater then
    { c with concurrencyNotBinding := false, ewmaAtDecrease := none, observationsSinceDecrease := 0 }
  else c

/-- Stop steering, and undo the throttling that bought nothing. -/
def giveUp (c : ItlController) : ItlController :=
  { c with
    concurrencyNotBinding := true
    cap := c.maxCap
    ewmaAtDecrease := none
    observationsSinceDecrease := 0 }

/-- Start a probe window if none is open, and count this observation in it. -/
def openProbe (c : ItlController) : ItlController :=
  match c.ewmaAtDecrease with
  | none => { c with ewmaAtDecrease := some c.ewmaMs, observationsSinceDecrease := 1 }
  | some _ => { c with observationsSinceDecrease := c.observationsSinceDecrease + 1 }

/-- A whole window of decreases bought less than the threshold. -/
def probeFailed (c : ItlController) : Bool :=
  match c.ewmaAtDecrease with
  | none => false
  | some before =>
    probeWindow ≤ c.observationsSinceDecrease ∧ ¬ c.ewmaMs ≤ before * (1 - improvementThreshold)

/-- A window that did improve starts over from the current average. -/
def renewProbe (c : ItlController) : ItlController :=
  if probeWindow ≤ c.observationsSinceDecrease then
    { c with ewmaAtDecrease := some c.ewmaMs, observationsSinceDecrease := 0 }
  else c

/-- Back off from what is actually running, and give up at the floor. -/
def decrease (c : ItlController) (concurrency : ℕ) : ItlController :=
  let binding := if 0 < concurrency then min c.cap concurrency else c.cap
  let lowered := { c with cap := max (binding * decreaseFactor) c.minCap }
  if lowered.cap ≤ lowered.minCap * (101 / 100) then lowered.giveUp else lowered

def increase (c : ItlController) : ItlController :=
  { c with
    cap := min (c.cap + increaseStep) c.maxCap
    ewmaAtDecrease := none
    observationsSinceDecrease := 0 }

/-- What a sample does once the warm-up is over. -/
def steer (c : ItlController) (concurrency : ℕ) : ItlController :=
  if c.targetMs * highWater < c.ewmaMs then
    if c.concurrencyNotBinding then c
    else
      let probed := c.openProbe
      if probed.probeFailed then probed.giveUp else probed.renewProbe.decrease concurrency
  else if c.ewmaMs < c.targetMs * lowWater ∧ c.cap * utilisationGate ≤ concurrency then c.increase
  else c

/-- Feed one measured latency, with how many sequences were running. -/
def observe (c : ItlController) (itlMs : Millis) (concurrency : ℕ) : ItlController :=
  let sampled := c.smooth itlMs
  if sampled.samples < 8 then sampled else sampled.resume.steer concurrency

/-- Force the cap down. -/
def backOff (c : ItlController) : ItlController :=
  { c with cap := max (c.cap * decreaseFactor) c.minCap }

end ItlController

end TrtLlm.Sched
