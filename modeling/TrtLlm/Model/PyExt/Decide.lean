import Mathlib.Data.List.Sort
import Mathlib.Data.Prod.Lex
import Mathlib.Algebra.Order.Field.Rat
import TrtLlm.Model.Core.Types

/-! # The admission decision

`decide_indices` of `crates/pyext/src/decide.rs`. Request ids are `i64` there and integers here.
The stable `sort_by` of the source is `List.insertionSort`, which is stable too, on the
lexicographic comparison of the two keys. Token sums are `u64`: they cannot overflow before `2 ^ 32`
requests of `2 ^ 32` tokens are handed over, so sums are exact here.
-/

namespace TrtLlm.PyExt

/-- Which running request gives up its step when the concurrency cap binds. -/
inductive DecodeOrder where
  | arrival
  | slack
deriving DecidableEq, Repr

/-- The per-token latency a sequence can still sustain and finish inside the budget. -/
def tolerableItlMs (nowMs arrivalMs : Millis) (tokensGenerated maxNewTokens : ℕ) (budgetMs : Millis) :
    WithTop ℚ :=
  let gapsTotal : ℚ := (maxNewTokens - 1 : ℕ)
  let gapsDone : ℚ := (tokensGenerated - 1 : ℕ)
  let remaining := gapsTotal - gapsDone
  if remaining ≤ 0 then ⊤
  else
    let elapsed := max (nowMs - arrivalMs) 0
    ((budgetMs * gapsTotal - elapsed) / remaining : ℚ)

/-- One step's worth of scheduler input. -/
structure DecideInput where
  ids : List ℤ
  isContext : List Bool
  promptLens : List ℕ
  contextDoneTokens : List ℕ
  arrivalMs : List Millis
  inflight : List ℤ
  maxBatchSize : ℕ
  maxNumTokens : ℕ
  tokensGenerated : List ℕ
  maxNewTokens : List ℕ
  nowMs : Millis
  itlBudgetMs : Millis
  decodeOrder : DecodeOrder
  kvFreeBlocks : ℕ
  kvWatermarkBlocks : ℕ
  generationCap : ℕ
deriving DecidableEq, Repr

/-- Every array is as long as `ids`; the answer is the common length or the first offender's error. -/
def validateLengths (idsLen : ℕ) : List (String × ℕ) → Except String ℕ
  | [] => .ok idsLen
  | (name, len) :: lens =>
    if len ≠ idsLen then
      .error s!"decide: `{name}` has length {len}, expected {idsLen} (== `ids`.len())"
    else validateLengths idsLen lens

/-- The state of the two budget loops. -/
structure Admission where
  fitting : List ℕ := []
  paused : List ℕ := []
  batchUsed : ℕ := 0
  tokenUsed : ℕ := 0
  genAdmitted : ℕ := 0
deriving DecidableEq, Repr

namespace Admission

def pause (state : Admission) (idx : ℕ) : Admission :=
  { state with paused := state.paused ++ [idx] }

end Admission

namespace DecideInput

def idAt (input : DecideInput) (i : ℕ) : ℤ := input.ids.getD i 0

def isContextAt (input : DecideInput) (i : ℕ) : Bool := input.isContext.getD i false

def arrivalAt (input : DecideInput) (i : ℕ) : Millis := input.arrivalMs.getD i 0

def doneAt (input : DecideInput) (i : ℕ) : ℕ := input.contextDoneTokens.getD i 0

/-- The prefill work still owed by a context request. -/
def remainingAt (input : DecideInput) (i : ℕ) : ℕ := input.promptLens.getD i 0 - input.doneAt i

def toleranceAt (input : DecideInput) (i : ℕ) : WithTop ℚ :=
  tolerableItlMs input.nowMs (input.arrivalAt i) (input.tokensGenerated.getD i 0)
    (input.maxNewTokens.getD i 0) input.itlBudgetMs

/-- The sort key of `by_arrival_then_id`. -/
def arrivalKey (input : DecideInput) (i : ℕ) : Millis ×ₗ ℤ := toLex (input.arrivalAt i, input.idAt i)

/-- The sort key of the slack order. -/
def slackKey (input : DecideInput) (i : ℕ) : WithTop ℚ ×ₗ ℤ :=
  toLex (input.toleranceAt i, input.idAt i)

/-- The order in which generation requests are tried. -/
def generationLe (input : DecideInput) (i j : ℕ) : Prop :=
  match input.decodeOrder with
  | .arrival => input.arrivalKey i ≤ input.arrivalKey j
  | .slack => input.slackKey i ≤ input.slackKey j

instance (input : DecideInput) : DecidableRel input.generationLe := fun i j =>
  match order : input.decodeOrder with
  | .arrival => decidable_of_iff (input.arrivalKey i ≤ input.arrivalKey j) (by simp [generationLe, order])
  | .slack => decidable_of_iff (input.slackKey i ≤ input.slackKey j) (by simp [generationLe, order])

/-- The candidates of one phase in listing order: inflight requests are scheduled by nobody. -/
def candidates (input : DecideInput) (context : Bool) : List ℕ :=
  (List.range input.ids.length).filter fun i => input.idAt i ∉ input.inflight ∧ input.isContextAt i = context

def contextCandidates (input : DecideInput) : List ℕ :=
  (input.candidates true).insertionSort fun i j => input.arrivalKey i ≤ input.arrivalKey j

def generationCandidates (input : DecideInput) : List ℕ :=
  (input.candidates false).insertionSort input.generationLe

/-- The body of the generation loop. -/
def admitGeneration (input : DecideInput) (state : Admission) (idx : ℕ) : Admission :=
  if state.genAdmitted < input.generationCap ∧ state.batchUsed < input.maxBatchSize ∧
      state.tokenUsed + 1 ≤ input.maxNumTokens then
    { state with
      fitting := state.fitting ++ [idx]
      genAdmitted := state.genAdmitted + 1
      batchUsed := state.batchUsed + 1
      tokenUsed := state.tokenUsed + 1 }
  else state.pause idx

/-- The watermark holds back requests that have not started. -/
def heldBack (input : DecideInput) (idx : ℕ) : Prop :=
  input.doneAt idx = 0 ∧ input.kvFreeBlocks < input.kvWatermarkBlocks

instance (input : DecideInput) (idx : ℕ) : Decidable (input.heldBack idx) :=
  inferInstanceAs (Decidable (_ ∧ _))

/-- The body of the context loop. -/
def admitContext (input : DecideInput) (stalledARunningSequence : Bool) (state : Admission) (idx : ℕ) :
    Admission :=
  if stalledARunningSequence then state.pause idx
  else if input.heldBack idx then state.pause idx
  else if state.batchUsed < input.maxBatchSize ∧
      state.tokenUsed + input.remainingAt idx ≤ input.maxNumTokens then
    { state with
      fitting := state.fitting ++ [idx]
      batchUsed := state.batchUsed + 1
      tokenUsed := state.tokenUsed + input.remainingAt idx }
  else state.pause idx

def generationPass (input : DecideInput) : Admission :=
  input.generationCandidates.foldl input.admitGeneration {}

def contextPass (input : DecideInput) (generation : Admission) : Admission :=
  input.contextCandidates.foldl (input.admitContext (!generation.paused.isEmpty)) generation

end DecideInput

/-- Partitions and admits requests: the fitting indices and the paused ones. -/
def decideIndices (input : DecideInput) : List ℕ × List ℕ :=
  let admission := input.contextPass input.generationPass
  (admission.fitting, admission.paused)

end TrtLlm.PyExt
