import TrtLlm.Model.Sim.Simulator

/-! # What a simulation reports

`Simulator::finish` and `Simulator::run` of `crates/sim/src/sim.rs` with the records of `crates/sim/src/report.rs`. The loop of
`run` has no bound in the source; here it takes a number of turns and says when they were not enough.
-/

namespace TrtLlm.Sim

/-- Everything the simulation observed that is not the score itself. -/
structure Diagnostics where
  simulatedS : ℚ
  requestsIssued : ℕ
  requestsCompleted : ℕ
  meanPrefillBatchSeqs : ℚ
  meanPrefillBatchTokens : ℚ
  deadlineLimitedFrac : ℚ
  demotedFrac : ℚ
  prefillBusyFrac : ℚ
  meanDecodeConcurrency : ℚ
  peakDecodeConcurrency : ℕ
  finalDecodeCap : ℚ
  observedStepMs : Millis
  decodeRefusals : ℕ
  prefillQueueDepth : LatencyStats
  calibratedConcurrency : ℚ
  extrapolatedBeyondCalibration : Bool
deriving DecidableEq, Repr

structure SimReport where
  goodput : GoodputReport
  diagnostics : Diagnostics
deriving DecidableEq, Repr

def mean (samples : List ℚ) : ℚ := if samples.isEmpty then 0 else samples.sum / samples.length

namespace Simulator

variable {cfg : Config}

def decodeWorkers (s : Simulator cfg) : List DecodeWorkerSim :=
  (List.finRange cfg.topology.decodeWorkers).map s.decode

def diagnostics (s : Simulator cfg) : Diagnostics :=
  let simMs := windowEnd cfg + cfg.workload.graceS * 1000
  let prefillBusy := ((List.finRange cfg.topology.prefillWorkers).map fun w => (s.prefill w).busyMs).sum
  let prefillCapacity := simMs * cfg.topology.prefillWorkers
  let batches : ℚ := (max s.batches 1 : ℕ)
  { simulatedS := simMs / 1000
    requestsIssued := s.issued
    requestsCompleted := s.outcomes.length
    meanPrefillBatchSeqs := s.batchSeqs / batches
    meanPrefillBatchTokens := s.batchTokens / batches
    deadlineLimitedFrac := s.deadlineLimited / batches
    demotedFrac := mean s.demotedSamples
    prefillBusyFrac := if 0 < prefillCapacity then prefillBusy / prefillCapacity else 0
    meanDecodeConcurrency := mean s.concurrencySamples
    peakDecodeConcurrency := s.peakConcurrency
    finalDecodeCap := (s.decodeWorkers.head?.map fun d => d.sched.controller.cap).getD 0
    observedStepMs := (s.decodeWorkers.head?.map fun d => d.sched.controller.observedItlMs).getD 0
    decodeRefusals := (s.decodeWorkers.map fun d => d.sched.refused).sum
    prefillQueueDepth := .fromSamples s.queueDepthSamples
    calibratedConcurrency := initialCap cfg
    extrapolatedBeyondCalibration := initialCap cfg * (105 / 100) < s.peakConcurrency }

/-- Score the requests that arrived inside the window. -/
def finish (s : Simulator cfg) : SimReport :=
  let scored := s.outcomes.filter fun o => windowStart cfg ≤ o.arrivalMs ∧ o.arrivalMs < windowEnd cfg
  let windowS := (windowEnd cfg - windowStart cfg) / 1000
  ⟨.fromOutcomes scored windowS cfg.slo, s.diagnostics⟩

/-- How a bounded run of the event loop ends. -/
inductive RunResult where
  | outOfTurns
  | panicked
  | report (report : SimReport)
deriving DecidableEq, Repr

/-- At most `turns` turns of the event loop; `orders n` are the iteration orders of turn `n`. -/
def loop (orders : ℕ → EventOrders) : ℕ → ℕ → Simulator cfg → RunResult
  | 0, _, _ => .outOfTurns
  | turns + 1, n, s =>
    match s.turn (orders n) with
    | .stopped final => .report final.finish
    | .panicked => .panicked
    | .handled _ next => loop orders turns (n + 1) next

def run (cfg : Config) (orders : ℕ → EventOrders) (turns : ℕ) : RunResult := loop orders turns 0 (start cfg)

end Simulator

end TrtLlm.Sim
