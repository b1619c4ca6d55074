import Mathlib.Algebra.Order.Field.Rat
import TrtLlm.Model.Core.Request
import TrtLlm.Model.Sched.Policy

/-! # Configuration and calibration

`Config` of `crates/core/src/config.rs` and the two calibrations of `crates/core/src/capacity.rs`, with the fields the
simulator reads. Counts that are `u32` or `usize` in the source are natural numbers.
-/

namespace TrtLlm

/-- Measured prefill behaviour of one worker configuration. -/
structure PrefillCalibration where
  tokSPerGpu : ℚ
  tpRef : ℕ
  tpAllreduceFrac : ℚ
  dutyCycle : ℚ
deriving DecidableEq, Repr

/-- Per-GPU ring all-reduce traffic factor `(t-1)/t`. -/
def ringFactor (tp : ℕ) : ℚ := if tp ≤ 1 then 0 else (tp - 1 : ℕ) / tp

/-- Per-GPU prefill throughput at tensor parallel degree `tp`. -/
def PrefillCalibration.tokSPerGpuAtTp (cal : PrefillCalibration) (tp : ℕ) : ℚ :=
  let refRatio := ringFactor cal.tpRef
  if refRatio ≤ 0 then cal.tokSPerGpu
  else
    let compute := 1 - cal.tpAllreduceFrac
    let unit := cal.tpAllreduceFrac / refRatio
    cal.tokSPerGpu / (compute + unit * ringFactor tp)

/-- Measured decode behaviour. -/
structure DecodeCalibration where
  concurrencyPerGpu : ℚ
  itlMsAtRef : Millis
deriving DecidableEq, Repr

structure CalibrationConfig where
  prefill : PrefillCalibration
  decode : DecodeCalibration
  kvXferGibS : ℚ
deriving DecidableEq, Repr

structure ModelConfig where
  numLayers : ℕ
  numKvHeads : ℕ
  headDim : ℕ
deriving DecidableEq, Repr

structure WorkloadConfig where
  isl : ℕ
  osl : ℕ
  concurrency : ℕ
  warmupS : ℚ
  benchmarkS : ℚ
  graceS : ℚ
  cacheBust : Bool
deriving DecidableEq, Repr

structure TopologyConfig where
  prefillWorkers : ℕ
  prefillTp : ℕ
  decodeWorkers : ℕ
  decodeTp : ℕ
deriving DecidableEq, Repr

structure SchedulerConfig where
  chunkedPrefillTokens : ℕ
  maxPrefillSeqs : ℕ
  maxDecodeSeqs : ℕ
  itlSafety : ℚ
  prefillPolicy : Sched.PrefillPolicy
  demoteHopeless : Bool
deriving DecidableEq, Repr

structure KvConfig where
  blockSize : ℕ
  numBlocks : ℕ
  admissionWatermark : ℚ
  xferConcurrency : ℕ
deriving DecidableEq, Repr

/-- `SpeculationConfig` of `crates/core/src/engine_config.rs`. -/
structure SpeculationConfig where
  enabled : Bool
  draftTokens : ℕ
deriving DecidableEq, Repr

structure Config where
  model : ModelConfig
  workload : WorkloadConfig
  topology : TopologyConfig
  scheduler : SchedulerConfig
  kv : KvConfig
  calibration : CalibrationConfig
  speculation : SpeculationConfig
  slo : Slo
deriving DecidableEq, Repr

end TrtLlm
