import TrtLlm.Model.Core.Config

/-! # The analytic cost model

`PrefillCurve` and `DecodeCurve` of `crates/engine/src/cost.rs`. A knee at `f64::INFINITY` is `⊤` here.
-/

namespace TrtLlm.Engine

/-- Cost of a prefill batch. -/
structure PrefillCurve where
  tokensPerMs : ℚ
  overheadMs : Millis
  multiseqGain : ℚ
  multiseqSaturation : ℚ
deriving DecidableEq, Repr

namespace PrefillCurve

/-- The curve of one worker of `gpus` GPUs at tensor parallel degree `tp`. -/
def forWorker (cal : PrefillCalibration) (gpus tp : ℕ) : PrefillCurve :=
  let tokensPerMs := cal.tokSPerGpuAtTp tp * gpus / 1000
  let nominalBatchMs := 16384 / tokensPerMs
  { tokensPerMs
    overheadMs := nominalBatchMs * (1 / cal.dutyCycle - 1)
    multiseqGain := 116 / 1000
    multiseqSaturation := 5 }

/-- Effective token rate when `numSeqs` sequences share the batch. -/
def rateAt (curve : PrefillCurve) (numSeqs : ℕ) : ℚ :=
  let n : ℚ := min (max numSeqs 1 : ℕ) curve.multiseqSaturation
  let frac := (n - 1) / max (curve.multiseqSaturation - 1) 1
  curve.tokensPerMs * (1 + curve.multiseqGain * frac)

def batchMs (curve : PrefillCurve) (tokens numSeqs : ℕ) : Millis :=
  if tokens = 0 then 0 else curve.overheadMs + tokens / curve.rateAt numSeqs

end PrefillCurve

/-- Cost of a decode step. -/
structure DecodeCurve where
  baseMs : Millis
  slopeMs : Millis
  knee : WithTop ℚ
  kneePenalty : ℚ
deriving DecidableEq

namespace DecodeCurve

/-- The line through one measured point, given an assumed intercept. -/
def fromPoint (concurrency : ℚ) (itlMs assumedBaseMs : Millis) : DecodeCurve where
  baseMs := assumedBaseMs
  slopeMs := max (if 0 < concurrency then (itlMs - assumedBaseMs) / concurrency else 0) 0
  knee := ⊤
  kneePenalty := 3

def fromCalibration (cal : DecodeCalibration) (gpus : ℕ) : DecodeCurve :=
  fromPoint (cal.concurrencyPerGpu * (max gpus 1 : ℕ)) cal.itlMsAtRef 12

def stepMs (curve : DecodeCurve) (concurrency : ℕ) : Millis :=
  let linear := curve.baseMs + curve.slopeMs * concurrency
  match curve.knee with
  | ⊤ => linear
  | (knee : ℚ) =>
    if (concurrency : ℚ) ≤ knee then linear
    else linear + (concurrency - knee) * curve.slopeMs * curve.kneePenalty

end DecodeCurve

end TrtLlm.Engine
