import Mathlib.Algebra.BigOperators.Group.List.Basic
import TrtLlm.Model.Raw.Config
import TrtLlm.Model.Tuner.Csv

/-! # Candidates

`ParallelSpec`, `AicCandidate` and `candidates_from_table` of `crates/tuner/src/aic.rs`. Slicing a string off a character
boundary panics, which is an outer `none`.
-/

namespace TrtLlm.Tuner

open Raw (Profile)

inductive DeploymentMode where
  | agg
  | disagg
deriving DecidableEq, Repr

def DeploymentMode.asStr : DeploymentMode → Text
  | .agg => "agg".toList
  | .disagg => "disagg".toList

/-- The decimal digits of a number. -/
def digits (n : UInt32) : Text := Nat.toDigits 10 n.toNat

/-! ### Slices -/

/-- The bytes of a string. -/
def bytesOf (text : Text) : List UInt8 := text.flatMap String.utf8EncodeChar

/-- Split a string at a byte; off a character boundary this panics. -/
def splitAtByte : ℕ → Text → Option (Text × Text)
  | 0, text => some ([], text)
  | _, [] => none
  | n, c :: text =>
    if c.utf8Size ≤ n then (splitAtByte (n - c.utf8Size) text).map fun halves => (c :: halves.1, halves.2) else none

/-- `&s[i..j]`. -/
def slice (text : Text) (i j : ℕ) : Option Text :=
  if i ≤ j then (splitAtByte j text).bind fun upto => (splitAtByte i upto.1).map Prod.snd else none

/-- `str::parse::<u32>` on ASCII digits. -/
def parseU32 (text : Text) : Option UInt32 :=
  let value := Raw.digitsValue text
  if text ≠ [] ∧ value < 2 ^ 32 then some (.ofNat value) else none

/-! ### Layouts -/

/-- A parallelism layout. -/
structure ParallelSpec where
  tp : UInt32
  pp : UInt32
  ep : UInt32
  dp : UInt32
deriving DecidableEq, Repr

namespace ParallelSpec

/-- GPUs one worker of this layout occupies. -/
def gpus (profile : Profile) (layout : ParallelSpec) : Option UInt32 := do
  let tensor ← profile.mul (max layout.tp 1) (max layout.pp 1)
  profile.mul tensor (max layout.dp 1)

/-- Compact spelling, without the dimensions of degree 1. -/
def spell (layout : ParallelSpec) : Text :=
  let out := [("tp".toList, layout.tp), ("pp".toList, layout.pp), ("dp".toList, layout.dp), ("ep".toList, layout.ep)]
    |>.flatMap fun (key, degree) => if 1 < degree then key ++ digits degree else []
  if out.isEmpty then "tp1".toList else out

def setDimension (layout : ParallelSpec) (key : Text) (value : UInt32) : ParallelSpec :=
  if key = "tp".toList then { layout with tp := value }
  else if key = "pp".toList then { layout with pp := value }
  else if key = "ep".toList then { layout with ep := value }
  else if key = "dp".toList then { layout with dp := value }
  else layout

/-- The end of the digits from byte `j` on. -/
def digitsEnd (bytes : List UInt8) (j : ℕ) : ℕ :=
  j + ((bytes.drop j).takeWhile fun byte => 48 ≤ byte && byte ≤ 57).length

theorem le_digitsEnd (bytes : List UInt8) (j : ℕ) : j ≤ digitsEnd bytes j := Nat.le_add_right ..

/-- The scan from byte `i` on, group by group. -/
def scan (text : Text) (layout : ParallelSpec) (sawAny : Bool) (i : ℕ) : Option (Option ParallelSpec) :=
  if i + 1 < (bytesOf text).length then
    match slice text i (i + 2) with
    | none => none
    | some key =>
      let j := digitsEnd (bytesOf text) (i + 2)
      if j = i + 2 then some (if sawAny then some layout else none)
      else
        match slice text (i + 2) j with
        | none => none
        | some value =>
          match parseU32 value with
          | none => some none
          | some value => scan text (layout.setDimension key value) true j
  else some (if sawAny then some layout else none)
termination_by (bytesOf text).length - i
decreasing_by
  have := le_digitsEnd (bytesOf text) (i + 2)
  omega

/-- Parse a label such as `tp4pp1`. -/
def parse (label : Text) : Option (Option ParallelSpec) :=
  let text := toAsciiLowercase (trim label)
  if text = [] then some none else scan text ⟨1, 1, 1, 1⟩ false 0

end ParallelSpec

/-! ### Candidates -/

/-- One row of an AIConfigurator result table. -/
structure AicCandidate where
  source : Text
  mode : DeploymentMode
  prefill : Option ParallelSpec
  decode : Option ParallelSpec
  prefillWorkers : UInt32
  decodeWorkers : UInt32
  prefillGpusPerWorker : UInt32
  decodeGpusPerWorker : UInt32
  totalGpus : UInt32
  predictedSeqS : Option Float
  predictedTokensSPerGpu : Option Float
  predictedTtftMs : Option Float
  predictedTpotMs : Option Float
  predictedConcurrency : Option Float
  raw : List (Text × Text)
deriving DecidableEq

namespace AicCandidate

/-- The topology of the candidate over a configuration; none for an aggregated or unreadable one. -/
def applyTo (candidate : AicCandidate) (base : Raw.Config) : Option Raw.Config :=
  if candidate.mode = .agg then none
  else if candidate.prefillGpusPerWorker = 0 ∨ candidate.decodeGpusPerWorker = 0 ∨ candidate.prefillWorkers = 0 ∨
      candidate.decodeWorkers = 0 then none
  else
    some { base with
      topology := { base.topology with
        prefillTp := candidate.prefillGpusPerWorker
        decodeTp := candidate.decodeGpusPerWorker
        prefillWorkers := candidate.prefillWorkers
        decodeWorkers := candidate.decodeWorkers
        totalGpus := if 0 < candidate.totalGpus then candidate.totalGpus else base.topology.totalGpus } }

/-- One side of a label. -/
def spellSide (workers gpus : UInt32) (layout : Option ParallelSpec) : Text :=
  let counts := digits workers ++ "x".toList ++ digits gpus ++ "gpu".toList
  match layout with
  | some layout => counts ++ ":".toList ++ layout.spell
  | none => counts

def label (candidate : AicCandidate) : Text :=
  candidate.mode.asStr ++ " P[".toList ++
    spellSide candidate.prefillWorkers candidate.prefillGpusPerWorker candidate.prefill ++ "] D[".toList ++
    spellSide candidate.decodeWorkers candidate.decodeGpusPerWorker candidate.decode ++ "]".toList

end AicCandidate

/-! ### Reading a table -/

section Row

variable (table : Table) (row : List Text)

/-- A degree from its numeric column, at least 1. -/
def degree (side key : Text) : Option UInt32 := (table.number row [side, key]).map fun value => max value.toUInt32 1

/-- A layout from its label. -/
def parsedLabel (needles : List Text) : Option (Option ParallelSpec) :=
  match table.cell row needles with
  | some label => ParallelSpec.parse label
  | none => some none

/-- The layout of one side: the numeric columns, else the label. -/
def spec (side : Text) : Option (Option ParallelSpec) :=
  match degree table row side "tp".toList, degree table row side "pp".toList with
  | some tp, some pp =>
    some (some {
      tp, pp
      dp := (degree table row side "dp".toList).getD 1
      ep := (degree table row side "moe_ep".toList).getD 1 })
  | _, _ => parsedLabel table row [side, "parallel".toList]

/-- GPUs of a layout; an unreadable one has none. -/
def layoutGpus (profile : Profile) (layout : Option ParallelSpec) : Option UInt32 :=
  match layout with
  | some layout => layout.gpus profile
  | none => some 0

/-- Replicas of an aggregated layout: a column of its own, else the GPUs in total over those of a worker. -/
def replicas (gpus : UInt32) : Option Float :=
  table.number row ["replicas".toList] <|> table.number row ["workers".toList] <|>
    (if 0 < gpus then
      (table.number row ["num_total_gpus".toList]).map fun total => (total / gpus.toFloat).floor
    else none)

/-- Layouts and worker counts of both sides. -/
def sides (profile : Profile) (mode : DeploymentMode) :
    Option (Option ParallelSpec × Option ParallelSpec × Option Float × Option Float) :=
  match mode with
  | .disagg => do
    let prefill ← spec table row "(p)".toList
    let decode ← spec table row "(d)".toList
    some (prefill, decode, table.number row ["(p)".toList, "workers".toList],
      table.number row ["(d)".toList, "workers".toList])
  | .agg => do
    let one ← parsedLabel table row ["parallel".toList]
    let gpus ← layoutGpus profile one
    let n := replicas table row gpus
    some (one, one, n, n)

/-- One candidate; a label or a product may panic. -/
def candidateOf (profile : Profile) (mode : DeploymentMode) (source : Text) : Option AicCandidate := do
  let (prefill, decode, prefillWorkers, decodeWorkers) ← sides table row profile mode
  let prefillGpusPerWorker ← layoutGpus profile prefill
  let decodeGpusPerWorker ← layoutGpus profile decode
  some {
    source, mode, prefill, decode
    prefillWorkers := (prefillWorkers.getD 0).toUInt32
    decodeWorkers := (decodeWorkers.getD 0).toUInt32
    prefillGpusPerWorker, decodeGpusPerWorker
    totalGpus := ((table.number row ["num_total_gpus".toList] <|>
      table.number row ["total".toList, "gpus".toList]).getD 0).toUInt32
    predictedSeqS := table.number row ["seq/s".toList]
    predictedTokensSPerGpu := table.number row ["tokens/s/gpu".toList]
    predictedTtftMs := table.number row ["ttft".toList]
    predictedTpotMs := table.number row ["tpot".toList]
    predictedConcurrency := table.number row ["concurrency".toList]
    raw := table.rowMap row }

end Row

def candidatesFromTable (profile : Profile) (table : Table) (mode : DeploymentMode) (source : Text) :
    Option (List AicCandidate) :=
  table.rows.mapM fun row => candidateOf table row profile mode source

end TrtLlm.Tuner
