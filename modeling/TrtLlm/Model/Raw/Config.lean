import TrtLlm.Model.Core.Types
import TrtLlm.Model.Raw.Number
import TrtLlm.Model.Sched.Policy

/-! # The configuration in machine numbers

`Config` of `crates/core/src/config.rs` and `EngineConfig` of `crates/core/src/engine_config.rs` with their `validate`,
and the calibrations of `crates/core/src/capacity.rs`. Fields that only name things for the launcher are left out.
-/

namespace TrtLlm.Raw

/-! ### Calibrations -/

/-- Measured prefill behaviour of one worker configuration. -/
structure PrefillCalibration where
  tokSPerGpu : Float := 7796
  tpRef : UInt32 := 4
  tpAllreduceFrac : Float := 0.25
  dutyCycle : Float := 0.91
deriving DecidableEq

/-- Speculative decoding, when it is on. -/
structure Speculation where
  draftTokens : UInt32
  /-- Measured ITL, speculative over baseline. -/
  itlRatio : Float
deriving DecidableEq

/-- EAGLE3 at topk=1. -/
def Speculation.eagle3Topk1 : Speculation := ⟨1, 11.08 / 19.18⟩

/-- Measured decode behaviour. -/
structure DecodeCalibration where
  concurrencyPerGpu : Float := 53 / 8
  itlMsAtRef : Float := 17.23
  itlSlopeMs : Float := 1.06
  maxExtrapolation : Float := 1
  speculation : Option Speculation := none
deriving DecidableEq

structure CalibrationConfig where
  prefill : PrefillCalibration := {}
  decode : DecodeCalibration := {}
  assumedGoodFrac : Float := 0.93
  kvXferGibS : Float := 2.1
deriving DecidableEq

/-! ### The sections of the file -/

structure ModelConfig where
  numLayers : UInt32 := 94
  numKvHeads : UInt32 := 4
  headDim : UInt32 := 128
  weightsGib : Float := 220.2
deriving DecidableEq

structure WorkloadConfig where
  isl : UInt32 := 4000
  osl : UInt32 := 200
  concurrency : UInt32 := 80
  maxNumTokens : UInt32 := 16384
  maxSeqLen : UInt32 := 4608
deriving DecidableEq

structure TopologyConfig where
  totalGpus : UInt32 := 16
  prefillWorkers : UInt32 := 4
  prefillTp : UInt32 := 2
  decodeWorkers : UInt32 := 2
  decodeTp : UInt32 := 4
  gpuGib : Float := 131
  kvDtypeBytes : Float := 1
  activationGib : Float := 12
deriving DecidableEq

structure SchedulerConfig where
  chunkedPrefillTokens : UInt32 := 16384
  maxPrefillSeqs : UInt32 := 8
  maxDecodeSeqs : UInt32 := 4096
  itlSafety : Float := 1
  prefillPolicy : Sched.PrefillPolicy := .mooreHodgson
  demoteHopeless : Bool := true
deriving DecidableEq

structure KvConfig where
  numBlocks : UInt32 := 8192
  admissionWatermark : Float := 0.05
  xferConcurrency : UInt32 := 16
deriving DecidableEq

structure Slo where
  ttftMs : Float := 3000
  itlMs : Float := 20
deriving DecidableEq

structure SpeculationConfig where
  enabled : Bool := false
  draftTokens : UInt32 := 1
deriving DecidableEq, Repr

structure EngineConfig where
  attnBackend : String := "TRTLLM"
  moeBackend : String := "AUTO"
  allreduceStrategy : String := "AUTO"
  prefillAttentionDp : Bool := false
  cudaGraphMaxBatch : UInt32 := 96
  torchCompile : String := "0"
  speculation : SpeculationConfig := {}
  contextParallel : UInt32 := 1
deriving DecidableEq, Repr

structure Config where
  model : ModelConfig := {}
  workload : WorkloadConfig := {}
  topology : TopologyConfig := {}
  scheduler : SchedulerConfig := {}
  kv : KvConfig := {}
  engine : EngineConfig := {}
  calibration : CalibrationConfig := {}
  slo : Slo := {}
deriving DecidableEq

/-! ### Validation -/

namespace EngineConfig

def attnBackends : List String := ["TRTLLM", "FLASHINFER", "TORCH", "VANILLA"]

def moeBackends : List String :=
  ["AUTO", "CUTLASS", "CUTEDSL", "WIDEEP", "TRTLLM", "DEEPGEMM", "DENSEGEMM", "VANILLA", "TRITON", "MARLIN",
    "MEGAMOE_DEEPGEMM"]

def allreduceStrategies : List String :=
  ["AUTO", "NCCL", "ONESHOT", "TWOSHOT", "LOWPRECISION", "MNNVL", "UB", "NCCL_SYMMETRIC", "AUTO_LOWPRECISION"]

def torchCompiles : List String := ["0", "1", "inductor"]

def oneOf (name value : String) (allowed : List String) : Except String Unit :=
  if value ∈ allowed then .ok ()
  else .error (name ++ " = \"" ++ value ++ "\" is not one of " ++ ", ".intercalate allowed)

/-- The indentation that the source has inside one of its messages. -/
def gap : String := "                         "

/-- Reject values that a worker would only reject inside a GPU allocation. -/
def validate (engine : EngineConfig) : Except String Unit := do
  oneOf "attn_backend" engine.attnBackend attnBackends
  oneOf "moe_backend" engine.moeBackend moeBackends
  oneOf "allreduce_strategy" engine.allreduceStrategy allreduceStrategies
  oneOf "torch_compile" engine.torchCompile torchCompiles
  if engine.cudaGraphMaxBatch = 0 then
    .error ("cuda_graph_max_batch = 0 captures nothing, which is indistinguishable from having no graph at all. " ++
      "Set it at or above the decode residency, or say so by leaving it at the default.")
  else if engine.prefillAttentionDp then
    .error (gap.intercalate ["prefill_attention_dp = true disables the Qwen3-MoE",
      "eager fusion (modeling_qwen3_moe.py:205), which folds",
      "the attention all-reduce into the pre-MoE step. That",
      "all-reduce is 25% of prefill kernel time here. Set it",
      "only deliberately."])
  else if 1 < engine.contextParallel ∧ engine.speculation.enabled then
    .error "context_parallel and speculation have not been run together on this stack. Enable one."
  else .ok ()

end EngineConfig

namespace TopologyConfig

/-- The GPUs of all workers. -/
def usedGpus (profile : Profile) (topology : TopologyConfig) : Option UInt32 := do
  let prefill ← profile.mul topology.prefillWorkers topology.prefillTp
  let decode ← profile.mul topology.decodeWorkers topology.decodeTp
  profile.add prefill decode

end TopologyConfig

/-- Check a configuration; the count of GPUs may overflow. -/
def Config.validate (profile : Profile) (cfg : Config) : Option (Except Error Unit) :=
  match cfg.engine.validate with
  | .error message => some (.error (.config ("[engine] " ++ message)))
  | .ok () =>
    if cfg.topology.prefillWorkers = 0 ∨ cfg.topology.decodeWorkers = 0 then
      some (.error (.config "need at least one prefill and one decode worker"))
    else
      (cfg.topology.usedGpus profile).map fun used =>
        if cfg.topology.totalGpus < used then
          .error (.config ("topology needs " ++ toString used.toNat ++ " GPUs but only " ++
            toString cfg.topology.totalGpus.toNat ++ " are available"))
        else if cfg.slo.itlMs ≤ 0 ∨ cfg.slo.ttftMs ≤ 0 then .error (.config "SLO budgets must be positive")
        else .ok ()

end TrtLlm.Raw
