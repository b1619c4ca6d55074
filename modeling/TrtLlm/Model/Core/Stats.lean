import Mathlib.Algebra.BigOperators.Group.List.Basic
import Mathlib.Algebra.Order.Field.Rat
import Mathlib.Data.List.Sort
import Mathlib.Data.Rat.Floor
import TrtLlm.Model.Core.Request

/-! # Latency summaries and the scored window

`LatencyStats` and `GoodputReport` of `crates/core/src/stats.rs`. Samples are exact rationals, so a sum does not
depend on the order of its terms.
-/

namespace TrtLlm

/-- Percentile summary of a latency sample; an empty sample has zeros everywhere. -/
structure LatencyStats where
  count : ℕ := 0
  mean : ℚ := 0
  p50 : ℚ := 0
  p90 : ℚ := 0
  p95 : ℚ := 0
  p99 : ℚ := 0
  max : ℚ := 0
deriving DecidableEq, Repr

/-- Nearest-rank percentile of an already sorted list. -/
def percentile (sorted : List ℚ) (q : ℚ) : ℚ :=
  if sorted.isEmpty then 0
  else
    let rank := ⌈q * sorted.length⌉₊
    sorted.getD (min (Max.max rank 1) sorted.length - 1) 0

def LatencyStats.fromSamples (samples : List ℚ) : LatencyStats :=
  if samples.isEmpty then {}
  else
    let sorted := samples.insertionSort (· ≤ ·)
    { count := sorted.length
      mean := sorted.sum / sorted.length
      p50 := percentile sorted (50 / 100)
      p90 := percentile sorted (90 / 100)
      p95 := percentile sorted (95 / 100)
      p99 := percentile sorted (99 / 100)
      max := sorted.getLastD 0 }

/-- The scored result of a benchmark window. -/
structure GoodputReport where
  windowS : ℚ
  totalRequests : ℕ
  goodRequests : ℕ
  goodFrac : ℚ
  reqPerS : ℚ
  goodputReqS : ℚ
  goodOutputTokS : ℚ
  lateFirstToken : ℕ
  slowTokens : ℕ
  lateAndSlow : ℕ
  incomplete : ℕ
  ttft : LatencyStats
  itl : LatencyStats
  passed : Bool
deriving DecidableEq, Repr

/-- How the loop over the outcomes counts them: one counter per verdict, and the tokens of the good ones. -/
structure VerdictTally where
  good : ℕ := 0
  lateFirstToken : ℕ := 0
  slowTokens : ℕ := 0
  lateAndSlow : ℕ := 0
  incomplete : ℕ := 0
  goodTokens : ℕ := 0
deriving DecidableEq, Repr

def VerdictTally.count (slo : Slo) (tally : VerdictTally) (outcome : RequestOutcome) : VerdictTally :=
  match outcome.verdict slo with
  | .good => { tally with good := tally.good + 1, goodTokens := tally.goodTokens + outcome.outputTokens }
  | .lateFirstToken => { tally with lateFirstToken := tally.lateFirstToken + 1 }
  | .slowTokens => { tally with slowTokens := tally.slowTokens + 1 }
  | .lateAndSlow => { tally with lateAndSlow := tally.lateAndSlow + 1 }
  | .incomplete => { tally with incomplete := tally.incomplete + 1 }

def GoodputReport.fromOutcomes (outcomes : List RequestOutcome) (windowS : ℚ) (slo : Slo) : GoodputReport :=
  let tally := outcomes.foldl (VerdictTally.count slo) {}
  let goodFrac : ℚ := if 0 < outcomes.length then tally.good / outcomes.length else 0
  { windowS
    totalRequests := outcomes.length
    goodRequests := tally.good
    goodFrac
    reqPerS := if 0 < windowS then outcomes.length / windowS else 0
    goodputReqS := if 0 < windowS then tally.good / windowS else 0
    goodOutputTokS := if 0 < windowS then tally.goodTokens / windowS else 0
    lateFirstToken := tally.lateFirstToken
    slowTokens := tally.slowTokens
    lateAndSlow := tally.lateAndSlow
    incomplete := tally.incomplete
    ttft := .fromSamples (outcomes.map (·.ttftMs))
    itl := .fromSamples (outcomes.map (·.meanItlMs))
    passed := slo.goodFracTarget ≤ goodFrac }

end TrtLlm
