import TrtLlm.Model.Raw.Capacity
import TrtLlm.Model.Router.Registry

/-! # Building the workers

`Simulator::new` of `crates/sim/src/sim.rs` and the constructors it calls, in machine numbers. Queues, counters and
samples that start empty are left out. The decode scheduler of `Deployment::start` is built from the same values.
-/

namespace TrtLlm.Raw

/-- Cost of a prefill batch. -/
structure PrefillCurve where
  tokensPerMs : Float
  overheadMs : Float
  multiseqGain : Float
  multiseqSaturation : Float
deriving DecidableEq

/-- The curve of one worker of `gpus` GPUs at tensor parallel degree `tp`. -/
def PrefillCurve.forWorker (cal : PrefillCalibration) (gpus tp : UInt32) : PrefillCurve :=
  let tokS := cal.tokSPerGpuAtTp tp * gpus.toFloat
  let tokensPerMs := tokS / 1000
  let nominalBatchMs := 16384 / tokensPerMs
  { tokensPerMs
    overheadMs := nominalBatchMs * (1 / cal.dutyCycle - 1)
    multiseqGain := 0.116
    multiseqSaturation := 5 }

/-- Cost of a decode step. -/
structure DecodeCurve where
  baseMs : Float
  slopeMs : Float
  knee : Float
  kneePenalty : Float
deriving DecidableEq

namespace DecodeCurve

/-- The line through one measured point, given an assumed intercept. -/
def fromPoint (concurrency itlMs assumedBaseMs : Float) : DecodeCurve where
  baseMs := assumedBaseMs
  slopeMs := fmax (if 0 < concurrency then (itlMs - assumedBaseMs) / concurrency else 0) 0
  knee := infinity
  kneePenalty := 3

def fromCalibration (cal : DecodeCalibration) (gpus : UInt32) : DecodeCurve :=
  fromPoint (cal.concurrencyPerGpu * (max gpus 1).toFloat) cal.itlMsAtRef 12

end DecodeCurve

/-- The adaptive concurrency cap. -/
structure ItlController where
  targetMs : Float
  ewmaMs : Float := 0
  alpha : Float := 0.1
  cap : Float
  minCap : Float
  maxCap : Float
  increaseStep : Float := 1
  decreaseFactor : Float := 0.9
  lowWater : Float := 0.9
  highWater : Float := 0.98
  utilisationGate : Float := 0.9
  ewmaAtDecrease : Float := infinity
  probeWindow : ℕ := 15
  improvementThreshold : Float := 0.02
deriving DecidableEq

/-- The initial cap is clamped, which panics unless `min_cap <= max_cap`. -/
def ItlController.new (targetMs initialCap minCap maxCap : Float) : Option ItlController :=
  (clamp initialCap minCap maxCap).map fun cap => { targetMs, cap, minCap, maxCap }

structure DecodeScheduler where
  controller : ItlController
  itlBudgetMs : Float
  riskMargin : Float := 1.05
  tokensPerStep : UInt32 := 1
deriving DecidableEq

/-- Tell the scheduler how many tokens one engine step emits. -/
def DecodeScheduler.setTokensPerStep (sched : DecodeScheduler) (tokens : UInt32) : DecodeScheduler :=
  { sched with tokensPerStep := max tokens 1 }

structure PrefillTuning where
  chunkTokens : ℕ
  maxSeqs : ℕ
  policy : Sched.PrefillPolicy
  demoteHopeless : Bool
  tokensPerMs : Float
  rateAlpha : Float
deriving DecidableEq

structure PrefillWorkerSim where
  tuning : PrefillTuning
  curve : PrefillCurve
deriving DecidableEq

structure DecodeWorkerSim where
  sched : DecodeScheduler
  curve : DecodeCurve
  freeBlocks : ℕ
  totalBlocks : ℕ
  watermarkBlocks : UInt64
deriving DecidableEq

/-- What a worker is registered with. -/
structure WorkerState where
  id : UInt32
  role : Routing.WorkerRole
  endpoint : String
  tensorParallel : UInt32
  healthy : Bool
  tokensPerMs : Float := 0
  decodeCap : Float := 0
deriving DecidableEq

structure RouterTuning where
  kvTransferMs : Float
  defaultTokensPerMs : Float
  minPrefixTokens : ℕ
deriving DecidableEq

structure Simulator where
  cfg : Config
  prefill : List PrefillWorkerSim
  decode : List DecodeWorkerSim
  registered : List WorkerState
  staleAfterMs : Float
  tuning : RouterTuning
  calibratedConcurrency : Float
deriving DecidableEq

def decodeIdBase : UInt32 := 1000

namespace Config

/-- The cap a decode worker starts from. -/
def initialCap (cfg : Config) : Float :=
  cfg.calibration.decode.concurrencyPerGpu * cfg.topology.decodeTp.toFloat

/-- `ItlController::new` as both `Simulator::new` and `Deployment::start` call it. -/
def newController (cfg : Config) : Option ItlController :=
  ItlController.new (cfg.slo.itlMs * cfg.scheduler.itlSafety) cfg.initialCap 8 cfg.scheduler.maxDecodeSeqs.toFloat

/-- The scheduler of one decode worker; the count of tokens a step emits may overflow. -/
def newDecodeScheduler (profile : Profile) (cfg : Config) : Option DecodeScheduler := do
  let controller ← cfg.newController
  let sched : DecodeScheduler := { controller, itlBudgetMs := cfg.slo.itlMs }
  if cfg.engine.speculation.enabled then
    let tokens ← profile.add 1 cfg.engine.speculation.draftTokens
    some (sched.setTokensPerStep tokens)
  else some sched

/-- The residual cost of a KV handoff. -/
def kvTransferMs (cfg : Config) : Float :=
  let bytesPerToken := 2 * cfg.model.numLayers.toFloat * cfg.model.numKvHeads.toFloat * cfg.model.headDim.toFloat
  let bytes := bytesPerToken * cfg.workload.isl.toFloat
  0.5 + bytes / (cfg.calibration.kvXferGibS * 1024 * 1024 * 1024) * 1000

end Config

namespace Simulator

def newPrefillWorker (cfg : Config) (curve : PrefillCurve) : PrefillWorkerSim where
  tuning := {
    chunkTokens := cfg.scheduler.chunkedPrefillTokens.toNat
    maxSeqs := cfg.scheduler.maxPrefillSeqs.toNat
    policy := cfg.scheduler.prefillPolicy
    demoteHopeless := cfg.scheduler.demoteHopeless
    tokensPerMs := curve.tokensPerMs
    rateAlpha := 0.2 }
  curve

def newDecodeWorker (profile : Profile) (cfg : Config) : Option DecodeWorkerSim := do
  let sched ← cfg.newDecodeScheduler profile
  some {
    sched
    curve := .fromCalibration cfg.calibration.decode cfg.topology.decodeTp
    freeBlocks := cfg.kv.numBlocks.toNat
    totalBlocks := cfg.kv.numBlocks.toNat
    watermarkBlocks := (cfg.kv.numBlocks.toFloat * cfg.kv.admissionWatermark).ceil.toUInt64 }

def prefillState (cfg : Config) (curve : PrefillCurve) (i : ℕ) : WorkerState where
  id := .ofNat i
  role := .prefill
  endpoint := "sim://prefill/" ++ toString i
  tensorParallel := cfg.topology.prefillTp
  healthy := true
  tokensPerMs := curve.tokensPerMs

/-- The id of a decode worker may overflow. -/
def decodeState (profile : Profile) (cfg : Config) (j : ℕ) : Option WorkerState := do
  let id ← profile.add decodeIdBase (.ofNat j)
  some {
    id
    role := .decode
    endpoint := "sim://decode/" ++ toString j
    tensorParallel := cfg.topology.decodeTp
    healthy := true
    decodeCap := cfg.initialCap }

/-- Build the simulator of a configuration. -/
def new (profile : Profile) (cfg : Config) : Option Simulator := do
  let prefillCurve := PrefillCurve.forWorker cfg.calibration.prefill cfg.topology.prefillTp cfg.topology.prefillTp
  let poolRate := prefillCurve.tokensPerMs * cfg.topology.prefillWorkers.toFloat
  let decode ← (List.range cfg.topology.decodeWorkers.toNat).mapM fun _ => newDecodeWorker profile cfg
  let decodeStates ← (List.range cfg.topology.decodeWorkers.toNat).mapM (decodeState profile cfg)
  some {
    cfg
    prefill := List.replicate cfg.topology.prefillWorkers.toNat (newPrefillWorker cfg prefillCurve)
    decode
    registered := (List.range cfg.topology.prefillWorkers.toNat).map (prefillState cfg prefillCurve) ++ decodeStates
    staleAfterMs := 60000
    tuning := {
      kvTransferMs := cfg.kvTransferMs
      defaultTokensPerMs := poolRate / (max cfg.topology.prefillWorkers 1).toFloat
      minPrefixTokens := 256 }
    calibratedConcurrency := cfg.initialCap }

end Simulator

end TrtLlm.Raw
