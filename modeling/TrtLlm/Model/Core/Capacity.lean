import Mathlib.Algebra.Order.Field.Rat
import TrtLlm.Model.Core.Request

/-! # Sizing in exact numbers

The decode calibration and the memory check of `crates/core/src/capacity.rs`, and what `Config::capacity_model` of
`crates/core/src/config.rs` gives the check. `f64` is a rational number; `u32` arithmetic wraps.
-/

namespace TrtLlm.Capacity

/-- `f64::clamp`, which panics unless `min <= max`. -/
def clamp (value low high : ℚ) : Option ℚ :=
  if low ≤ high then some (if value < low then low else if high < value then high else value) else none

/-! ### Decode concurrency -/

/-- Speculative decoding, when it is on. -/
structure Speculation where
  draftTokens : UInt32
  /-- Measured ITL, speculative over baseline. -/
  itlRatio : ℚ
deriving DecidableEq, Repr

/-- Measured decode behaviour. -/
structure DecodeCalibration where
  concurrencyPerGpu : ℚ
  itlMsAtRef : Millis
  itlSlopeMs : ℚ
  maxExtrapolation : ℚ
  speculation : Option Speculation
deriving DecidableEq, Repr

namespace DecodeCalibration

def itlRatio (cal : DecodeCalibration) : ℚ := cal.speculation.elim 1 Speculation.itlRatio

/-- Mean ITL before speculation, from the fitted curve. -/
def itlMsBaseline (cal : DecodeCalibration) (concurrency : ℚ) (gpus : UInt32) : Millis :=
  let perGpu := concurrency / (max gpus 1).toNat
  cal.itlMsAtRef + cal.itlSlopeMs * (perGpu - cal.concurrencyPerGpu)

/-- Mean ITL at this concurrency, after speculation. -/
def itlMs (cal : DecodeCalibration) (concurrency : ℚ) (gpus : UInt32) : Millis :=
  cal.itlMsBaseline concurrency gpus * cal.itlRatio

/-- Largest concurrency whose predicted mean ITL still fits the SLO with some headroom; the clamp may panic. -/
def maxConcurrencyForSlo (cal : DecodeCalibration) (gpus : UInt32) (slo : Slo) (safety : ℚ) : Option ℚ :=
  let budget := slo.itlMs * safety
  if cal.itlSlopeMs ≤ 0 then some (cal.concurrencyPerGpu * gpus.toNat)
  else
    let ceiling := cal.concurrencyPerGpu * max cal.maxExtrapolation 1
    let budget := budget / cal.itlRatio
    let perGpu := cal.concurrencyPerGpu + (budget - cal.itlMsAtRef) / cal.itlSlopeMs
    (clamp perGpu 1 ceiling).map (· * gpus.toNat)

/-- Request rate a decode pool of `gpus` GPUs can sustain. -/
def reqPerS (cal : DecodeCalibration) (gpus osl : UInt32) (slo : Slo) (safety : ℚ) : Option ℚ :=
  (cal.maxConcurrencyForSlo gpus slo safety).map fun c =>
    let itl := min (cal.itlMs c gpus) slo.itlMs
    c / (osl.toNat * itl / 1000)

end DecodeCalibration

/-! ### Memory of a rank -/

/-- Which side of the deployment a worker serves. -/
inductive Role where
  | prefill
  | decode
deriving DecidableEq, Repr

/-- The model's fields that the memory check reads. -/
structure CapacityModel where
  kvBytesPerToken : ℚ
  weightsGib : ℚ
  gpuGib : ℚ
  kvDtypeBytes : ℚ
  kvHeads : UInt32
  maxNumTokens : UInt32
  activationGib : ℚ
  /-- Tokens a decode worker keeps resident. -/
  decodeResidentTokens : UInt32
deriving DecidableEq, Repr

namespace CapacityModel

/-- KV bytes one rank holds per token; the heads cap the split. -/
def kvBytesPerTokenPerRank (model : CapacityModel) (tp : UInt32) : ℚ :=
  let shards := min (max tp 1) (max model.kvHeads 1)
  model.kvBytesPerToken * model.kvDtypeBytes / shards.toNat

/-- Memory a rank needs beyond its weight shard. -/
def neededGibPerRank (model : CapacityModel) (tp : UInt32) (role : Role) : ℚ :=
  let perToken := model.kvBytesPerTokenPerRank tp
  let tokens : UInt32 := match role with
    | .prefill => model.maxNumTokens
    | .decode => model.decodeResidentTokens
  model.activationGib + perToken * tokens.toNat / 2 ^ 30

/-- Memory left on a rank after its share of the weights. -/
def freeGibPerRank (model : CapacityModel) (tp : UInt32) : ℚ := model.gpuGib - model.weightsGib / (max tp 1).toNat

/-- Whether a rank has room for its role. -/
def fits (model : CapacityModel) (tp : UInt32) (role : Role) : Prop :=
  model.neededGibPerRank tp role ≤ model.freeGibPerRank tp

instance (model : CapacityModel) (tp : UInt32) (role : Role) : Decidable (model.fits tp role) :=
  inferInstanceAs (Decidable (_ ≤ _))

end CapacityModel

/-! ### Configuration -/

structure ModelConfig where
  numLayers : UInt32
  numKvHeads : UInt32
  headDim : UInt32
  weightsGib : ℚ
deriving DecidableEq, Repr

structure WorkloadConfig where
  concurrency : UInt32
  maxNumTokens : UInt32
  maxSeqLen : UInt32
deriving DecidableEq, Repr

structure TopologyConfig where
  decodeWorkers : UInt32
  decodeTp : UInt32
  gpuGib : ℚ
  kvDtypeBytes : ℚ
  activationGib : ℚ
deriving DecidableEq, Repr

/-- The configuration's fields that the memory check depends on. -/
structure Config where
  model : ModelConfig
  workload : WorkloadConfig
  topology : TopologyConfig
deriving DecidableEq, Repr

def Config.capacityModel (cfg : Config) : CapacityModel where
  kvBytesPerToken := 2 * cfg.model.numLayers.toNat * cfg.model.numKvHeads.toNat * cfg.model.headDim.toNat
  weightsGib := cfg.model.weightsGib
  gpuGib := cfg.topology.gpuGib
  kvDtypeBytes := cfg.topology.kvDtypeBytes
  kvHeads := cfg.model.numKvHeads
  maxNumTokens := cfg.workload.maxNumTokens
  activationGib := cfg.topology.activationGib
  decodeResidentTokens := cfg.workload.concurrency / max cfg.topology.decodeWorkers 1 * cfg.workload.maxSeqLen

end TrtLlm.Capacity
