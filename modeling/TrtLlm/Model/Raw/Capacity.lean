import TrtLlm.Model.Raw.Config

/-! # The capacity model

`CapacityModel` of `crates/core/src/capacity.rs`: request rates of the two pools and of the transfer between them, and
which of the three binds. Sizing the decode concurrency clamps, and ranking the rates compares floats; both can panic,
which is `none`.
-/

namespace TrtLlm.Raw

/-- Per-GPU ring all-reduce traffic factor `(t-1)/t`. -/
def ringFactor (tp : UInt32) : Float := if tp ≤ 1 then 0 else (tp - 1).toFloat / tp.toFloat

namespace PrefillCalibration

/-- Per-GPU prefill throughput at tensor parallel degree `tp`. -/
def tokSPerGpuAtTp (cal : PrefillCalibration) (tp : UInt32) : Float :=
  let refRatio := ringFactor cal.tpRef
  if refRatio ≤ 0 then cal.tokSPerGpu
  else
    let compute := 1 - cal.tpAllreduceFrac
    let unit := cal.tpAllreduceFrac / refRatio
    let t := compute + unit * ringFactor tp
    cal.tokSPerGpu / t

/-- Request rate of a prefill pool of `gpus` GPUs for prompts of `isl` tokens. -/
def reqPerS (cal : PrefillCalibration) (gpus tp isl : UInt32) : Float :=
  gpus.toFloat * cal.tokSPerGpuAtTp tp / isl.toFloat

end PrefillCalibration

namespace DecodeCalibration

/-- Measured ITL, speculative over baseline. -/
def itlRatio (cal : DecodeCalibration) : Float :=
  match cal.speculation with
  | none => 1
  | some speculation => speculation.itlRatio

/-- Mean ITL before speculation, from the fitted curve. -/
def itlMsBaseline (cal : DecodeCalibration) (concurrency : Float) (gpus : UInt32) : Float :=
  let perGpu := concurrency / (max gpus 1).toFloat
  cal.itlMsAtRef + cal.itlSlopeMs * (perGpu - cal.concurrencyPerGpu)

def itlMs (cal : DecodeCalibration) (concurrency : Float) (gpus : UInt32) : Float :=
  cal.itlMsBaseline concurrency gpus * cal.itlRatio

/-- The most sequences on one GPU that planning may assume. -/
def ceiling (cal : DecodeCalibration) : Float := cal.concurrencyPerGpu * fmax cal.maxExtrapolation 1

/-- Where the fitted curve meets the budget, on one GPU. -/
def perGpuForSlo (cal : DecodeCalibration) (slo : Slo) (safety : Float) : Float :=
  let budget := slo.itlMs * safety / cal.itlRatio
  cal.concurrencyPerGpu + (budget - cal.itlMsAtRef) / cal.itlSlopeMs

/-- Largest concurrency whose predicted mean ITL still fits the budget. -/
def maxConcurrencyForSlo (cal : DecodeCalibration) (gpus : UInt32) (slo : Slo) (safety : Float) : Option Float :=
  if cal.itlSlopeMs ≤ 0 then some (cal.concurrencyPerGpu * gpus.toFloat)
  else (clamp (cal.perGpuForSlo slo safety) 1 cal.ceiling).map (· * gpus.toFloat)

/-- Seconds one request holds its slot at a concurrency. -/
def slotSeconds (cal : DecodeCalibration) (concurrency : Float) (gpus osl : UInt32) (slo : Slo) : Float :=
  let itl := fmin (cal.itlMs concurrency gpus) slo.itlMs
  osl.toFloat * itl / 1000

/-- Request rate a decode pool of `gpus` GPUs can sustain. -/
def reqPerS (cal : DecodeCalibration) (gpus osl : UInt32) (slo : Slo) (safety : Float) : Option Float :=
  (cal.maxConcurrencyForSlo gpus slo safety).map fun c => c / cal.slotSeconds c gpus osl slo

end DecodeCalibration

/-- Which resource sets the sustainable rate. -/
inductive Bottleneck where
  | prefill
  | decode
  | kvTransfer
deriving DecidableEq, Repr

/-- One prefill/decode topology and the goodput it can reach. -/
structure PdSplit where
  prefillGpus : UInt32
  decodeGpus : UInt32
  prefillTp : UInt32
  decodeTp : UInt32
  prefillWorkers : UInt32
  prefillReqS : Float
  decodeReqS : Float
  transferReqS : Float
  /-- The smallest of the three rates. -/
  sustainableReqS : Float
  goodputReqS : Float
  bottleneck : Bottleneck
  /-- How many times faster the binding resource would have to be before the next one binds. -/
  headroomRatio : Float
deriving DecidableEq

/-- The workload shape and both calibrations. -/
structure CapacityModel where
  isl : UInt32
  osl : UInt32
  slo : Slo
  prefill : PrefillCalibration
  decode : DecodeCalibration
  goodFrac : Float
  itlSafety : Float
  kvBytesPerToken : Float
  kvXferGibS : Float
  xferConcurrency : UInt32
  weightsGib : Float
  gpuGib : Float
  kvDtypeBytes : Float
  kvHeads : UInt32
  maxNumTokens : UInt32
  activationGib : Float
  /-- Tokens a decode worker keeps resident. -/
  decodeResidentTokens : UInt32
deriving DecidableEq

namespace CapacityModel

/-- Milliseconds to move one request's KV. -/
def transferMs (model : CapacityModel) : Float :=
  let bytes := model.kvBytesPerToken * model.isl.toFloat
  bytes / (model.kvXferGibS * 1024 * 1024 * 1024) * 1000

/-- Requests per second the handoff can retire. -/
def transferReqS (model : CapacityModel) (decodeWorkers : UInt32) : Float :=
  let ms := model.transferMs
  if ms ≤ 0 ∨ decodeWorkers = 0 then infinity
  else decodeWorkers.toFloat * (max model.xferConcurrency 1).toFloat * 1000 / ms

/-- The three rates from the lowest up; the comparison expects numbers. -/
def rank (prefillReqS decodeReqS transferReqS : Float) : Option (List (Bottleneck × Float)) :=
  sortBy (fun a b => partialCmp a.2 b.2)
    [(.prefill, prefillReqS), (.decode, decodeReqS), (.kvTransfer, transferReqS)]

/-- What the model says about a topology. -/
def evaluate (profile : Profile) (model : CapacityModel) (prefillGpus decodeGpus prefillTp decodeTp : UInt32) :
    Option PdSplit := do
  let prefillWorkers := checkedDiv prefillGpus prefillTp
  let usedGpus ← profile.mul prefillWorkers prefillTp
  let prefillReqS := model.prefill.reqPerS usedGpus prefillTp model.isl
  let decodeReqS ← model.decode.reqPerS decodeGpus model.osl model.slo model.itlSafety
  let transferReqS := model.transferReqS (checkedDiv decodeGpus decodeTp)
  match ← rank prefillReqS decodeReqS transferReqS with
  | (bottleneck, sustainable) :: (_, next) :: _ =>
    some {
      prefillGpus, decodeGpus, prefillTp, decodeTp, prefillWorkers, prefillReqS, decodeReqS, transferReqS
      sustainableReqS := sustainable
      goodputReqS := sustainable * model.goodFrac
      bottleneck
      headroomRatio := if 0 < sustainable then next / sustainable else infinity }
  | _ => none

end CapacityModel

/-- The capacity model of a configuration; the count of resident tokens may overflow. -/
def Config.capacityModel (profile : Profile) (cfg : Config) : Option CapacityModel :=
  (profile.mul (cfg.workload.concurrency / max cfg.topology.decodeWorkers 1) cfg.workload.maxSeqLen).map
    fun decodeResidentTokens => {
      isl := cfg.workload.isl
      osl := cfg.workload.osl
      slo := cfg.slo
      prefill := cfg.calibration.prefill
      decode := { cfg.calibration.decode with
        speculation :=
          if cfg.engine.speculation.enabled then
            some { Speculation.eagle3Topk1 with draftTokens := cfg.engine.speculation.draftTokens }
          else none }
      goodFrac := cfg.calibration.assumedGoodFrac
      itlSafety := cfg.scheduler.itlSafety
      kvBytesPerToken := 2 * cfg.model.numLayers.toFloat * cfg.model.numKvHeads.toFloat * cfg.model.headDim.toFloat
      kvXferGibS := cfg.calibration.kvXferGibS
      xferConcurrency := cfg.kv.xferConcurrency
      weightsGib := cfg.model.weightsGib
      gpuGib := cfg.topology.gpuGib
      kvDtypeBytes := cfg.topology.kvDtypeBytes
      kvHeads := cfg.model.numKvHeads
      maxNumTokens := cfg.workload.maxNumTokens
      activationGib := cfg.topology.activationGib
      decodeResidentTokens }

/-- The model on the configured topology, as `CrossCheck::build` asks it. -/
def Config.evaluateTopology (profile : Profile) (cfg : Config) (model : CapacityModel) : Option PdSplit := do
  let prefillGpus ← profile.mul cfg.topology.prefillWorkers cfg.topology.prefillTp
  let decodeGpus ← profile.mul cfg.topology.decodeWorkers cfg.topology.decodeTp
  model.evaluate profile prefillGpus decodeGpus cfg.topology.prefillTp cfg.topology.decodeTp

end TrtLlm.Raw
