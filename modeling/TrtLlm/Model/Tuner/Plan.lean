import Mathlib.Data.List.Sort
import TrtLlm.Model.Raw.Capacity
import TrtLlm.Model.Tuner.Aic

/-! # Tuning plans

`CrossCheck`, `TuningRow` and `TuningPlan` of `crates/tuner/src/plan.rs`. The evaluator that scores a configuration is a
parameter, and may panic. Of its report only the scored metric is read.
-/

namespace TrtLlm.Tuner

open Raw (Profile)

/-! ### Printing -/

/-- The `Display` text of an error. -/
def display : Error → Text
  | .kvExhausted needed free =>
    ("kv cache exhausted: needed " ++ toString needed ++ " blocks, " ++ toString free ++ " free").toList
  | .rejected id reason => ("request req-" ++ toString (id : ℕ) ++ " rejected: " ++ reason).toList
  | .engine message => ("engine backend error: " ++ message).toList
  | .transfer message => ("kv transfer failed: " ++ message).toList
  | .config message => ("configuration error: " ++ message).toList

/-- A quotient rounded to a whole number, ties to even. -/
def roundDiv (numerator denominator : ℕ) : ℕ :=
  let whole := numerator / denominator
  let rest := 2 * (numerator % denominator)
  if denominator < rest ∨ (rest = denominator ∧ whole % 2 = 1) then whole + 1 else whole

/-- A number of hundredths with two decimals. -/
def hundredths (n : ℕ) : Text :=
  Nat.toDigits 10 (n / 100) ++ '.' :: Nat.toDigits 10 (n / 10 % 10) ++ Nat.toDigits 10 (n % 10)

open Float.Model.UnpackedFloat in
/-- `{:.2}` of an `f64`. -/
def fixed2 (value : Float) : Text :=
  let minus : Sign → Text := fun sign => match sign with
    | .negative => ['-']
    | .positive => []
  match value.toModel.unpack with
  | .notANumber => "NaN".toList
  | .infinity sign => minus sign ++ "inf".toList
  | .zero sign => minus sign ++ "0.00".toList
  | .finite sign mantissa exponent _ =>
    minus sign ++ hundredths (roundDiv (mantissa * 100 * 2 ^ exponent.toNat) (2 ^ (-exponent).toNat))

/-! ### Cross checks -/

/-- AIConfigurator's prediction next to ours. -/
structure CrossCheck where
  aicOutputTokSPerGpu : Option Float
  ourOutputTokSPerGpu : Float
  ratio : Option Float
  verdict : Text
  note : Text
deriving DecidableEq

/-- `f64::MIN_POSITIVE`. -/
def minPositive : Float := .ofBits 0x0010000000000000

namespace CrossCheck

def judge (ratio : Option Float) : Text × Text :=
  match ratio with
  | none => ("no-aic-number".toList, "AIConfigurator did not report tokens/s/gpu".toList)
  | some r =>
    if 0.75 ≤ r ∧ r ≤ 1.333 then ("agree".toList, "within 33 %: ".toList ++ fixed2 r ++ "x".toList)
    else if 1.333 < r then
      ("aic-optimistic".toList, "AIConfigurator predicts ".toList ++ fixed2 r ++
        ("x our measured capacity; either its database covers a kernel path this cluster does not run, " ++
          "or our calibration is stale").toList)
    else
      ("aic-pessimistic".toList, "AIConfigurator predicts ".toList ++ fixed2 r ++
        ("x our measured capacity; check that the model/system/backend combination is inside its support " ++
          "matrix").toList)

/-- Compare the candidate's numbers with the capacity model's. -/
def build (profile : Profile) (candidate : AicCandidate) (cfg : Raw.Config) : Option CrossCheck := do
  let model ← cfg.capacityModel profile
  let split ← cfg.evaluateTopology profile model
  let gpus := (max cfg.topology.totalGpus 1).toFloat
  let ours := split.sustainableReqS * cfg.workload.osl.toFloat / gpus
  let theirs := candidate.predictedSeqS.map (fun s => s * cfg.workload.osl.toFloat / gpus) <|>
    candidate.predictedTokensSPerGpu
  let ratio := theirs.map fun x => x / Raw.fmax ours minPositive
  some {
    aicOutputTokSPerGpu := theirs
    ourOutputTokSPerGpu := ours
    ratio
    verdict := (judge ratio).1
    note := (judge ratio).2 }

end CrossCheck

/-! ### Plans -/

/-- What an evaluator reports. -/
structure GoodputReport where
  goodOutputTokS : Float
deriving DecidableEq

structure TuningRow where
  label : Text
  config : Raw.Config
  crossCheck : CrossCheck
  score : GoodputReport
deriving DecidableEq

structure TuningPlan where
  rows : List TuningRow := []
  skipped : List Text := []
deriving DecidableEq

namespace TuningPlan

def skip (plan : TuningPlan) (text : Text) : TuningPlan := { plan with skipped := plan.skipped ++ [text] }

/-- Why a candidate without a configuration is skipped. -/
def unreadable (candidate : AicCandidate) : Text :=
  match candidate.mode with
  | .agg =>
    candidate.label ++ ": aggregated layout, ".toList ++ digits candidate.prefillGpusPerWorker ++
      " GPUs/worker - not a P/D split, listed for comparison only".toList
  | .disagg => candidate.label ++ ": unreadable topology in ".toList ++ candidate.source

variable (profile : Profile) (evaluate : Raw.Config → Option GoodputReport) (base : Raw.Config)

/-- The row of a candidate with a valid configuration. -/
def row (candidate : AicCandidate) (cfg : Raw.Config) : Option TuningRow := do
  let crossCheck ← CrossCheck.build profile candidate cfg
  let score ← evaluate cfg
  some { label := candidate.label, config := cfg, crossCheck, score }

/-- Score one candidate, or say why not. -/
def visit (plan : TuningPlan) (candidate : AicCandidate) : Option TuningPlan :=
  match candidate.applyTo base with
  | none => some (plan.skip (unreadable candidate))
  | some cfg => do
    match ← cfg.validate profile with
    | .error e => some (plan.skip (candidate.label ++ ": ".toList ++ display e))
    | .ok () =>
      let scored ← row profile evaluate candidate cfg
      some { plan with rows := plan.rows ++ [scored] }

/-- Score every candidate; the best row comes first. -/
def evaluateWith (candidates : List AicCandidate) : Option TuningPlan := do
  let plan ← candidates.foldlM (visit profile evaluate base) {}
  some { plan with
    rows := plan.rows.insertionSort fun a b =>
      Raw.totalKey b.score.goodOutputTokS ≤ Raw.totalKey a.score.goodOutputTokS }

end TuningPlan

end TrtLlm.Tuner
