import Mathlib.Data.Finset.Basic
import TrtLlm.Model.Sched.Policy
import TrtLlm.ToMathlib.AListSum

/-! # Prefill queueing and batch assembly

`PrefillScheduler` of `crates/sched/src/prefill.rs`. Token counts are exact natural numbers; the
batch's binding deadline is infinite until a member sets it.
-/

namespace TrtLlm.Sched

/-- A request waiting for, or partway through, prefill. -/
structure PendingPrefill where
  id : RequestId
  arrivalMs : Millis
  deadlineMs : Millis
  computeTokens : ℕ
  doneTokens : ℕ
deriving DecidableEq, Repr

namespace PendingPrefill

def remaining (p : PendingPrefill) : ℕ := p.computeTokens - p.doneTokens

def isComplete (p : PendingPrefill) : Bool := p.remaining = 0

/-- Book computed tokens. -/
def credit (p : PendingPrefill) (tokens : ℕ) : PendingPrefill :=
  { p with doneTokens := min (p.doneTokens + tokens) p.computeTokens }

end PendingPrefill

/-- One sequence's slice of a prefill batch. -/
structure PrefillChunk where
  id : RequestId
  start : ℕ
  tokens : ℕ
  completes : Bool
deriving DecidableEq, Repr

/-- A batch ready to hand to the engine. -/
structure PrefillBatch where
  chunks : List PrefillChunk := []
  totalTokens : ℕ := 0
  estServiceMs : Millis := 0
  deadlineLimited : Bool := false
deriving DecidableEq, Repr

structure PrefillTuning where
  chunkTokens : ℕ
  maxSeqs : ℕ
  policy : PrefillPolicy
  demoteHopeless : Bool
  tokensPerMs : ℚ
  rateAlpha : ℚ
deriving DecidableEq, Repr

structure PrefillScheduler where
  tuning : PrefillTuning
  queue : HashMap RequestId PendingPrefill
  order : List RequestId
  demoted : Finset RequestId
deriving DecidableEq

/-- `f64::MIN_POSITIVE`. -/
def minPositive : ℚ := 1 / 2 ^ 1022

namespace PrefillScheduler

def new (tuning : PrefillTuning) : PrefillScheduler where
  tuning
  queue := ∅
  order := []
  demoted := ∅

def queueDepth (sched : PrefillScheduler) : ℕ := sched.queue.entries.length

def queuedTokens (sched : PrefillScheduler) : ℕ := sched.queue.sum fun _ p => p.remaining

def enqueue (sched : PrefillScheduler) (p : PendingPrefill) : PrefillScheduler :=
  { sched with
    queue := sched.queue.insert p.id p
    order := if p.id ∈ sched.queue then sched.order else sched.order ++ [p.id] }

def remove (sched : PrefillScheduler) (id : RequestId) : PrefillScheduler :=
  { sched with
    order := sched.order.filter (· ≠ id)
    demoted := sched.demoted.erase id
    queue := sched.queue.erase id }

/-- Fold a measured batch into the rate estimate. -/
def observeRate (sched : PrefillScheduler) (batch : PrefillBatch) (elapsedMs : Millis) : PrefillScheduler :=
  if 0 < elapsedMs ∧ 0 < batch.totalTokens then
    let observed := batch.totalTokens / elapsedMs
    let a := max 0 (min sched.tuning.rateAlpha 1)
    { sched with tuning := { sched.tuning with tokensPerMs := (1 - a) * sched.tuning.tokensPerMs + a * observed } }
  else sched

/-- Book one chunk; the answer says whether it finished its sequence. -/
def creditChunk (sched : PrefillScheduler) (chunk : PrefillChunk) : Bool × PrefillScheduler :=
  match sched.queue.lookup chunk.id with
  | some p =>
    let credited := p.credit chunk.tokens
    (credited.isComplete, { sched with queue := sched.queue.insert chunk.id credited })
  | none => (false, sched)

/-- The first loop of `complete`: book every chunk and collect the finished ids. -/
def creditLoop : List PrefillChunk → PrefillScheduler → List RequestId × PrefillScheduler
  | [], sched => ([], sched)
  | chunk :: chunks, sched =>
    let (done, credited) := sched.creditChunk chunk
    let (finished, next) := creditLoop chunks credited
    (if done then chunk.id :: finished else finished, next)

/-- Fold a completed batch back in; finished sequences are removed and returned. -/
def complete (sched : PrefillScheduler) (batch : PrefillBatch) (elapsedMs : Millis) :
    List RequestId × PrefillScheduler :=
  let (finished, credited) := creditLoop batch.chunks (sched.observeRate batch elapsedMs)
  (finished, finished.foldl remove credited)

def rate (sched : PrefillScheduler) : ℚ := max sched.tuning.tokensPerMs minPositive

/-- The queue as the ordering policy sees it. -/
def jobs (sched : PrefillScheduler) : List Job :=
  (sched.order.filterMap fun id => sched.queue.lookup id).map fun p =>
    ⟨p.id, p.arrivalMs, p.deadlineMs, p.remaining / sched.rate⟩

/-- A batch under construction with its binding deadline. -/
structure Assembly where
  batch : PrefillBatch := {}
  bindingDeadline : WithTop ℚ := ⊤
deriving DecidableEq

/-- One pass over ordered ids. The pass over demoted ids (`late`) does not tighten the binding
deadline and stops at the first id that would miss it. -/
def fill (sched : PrefillScheduler) (now : Millis) (late : Bool) : List RequestId → Assembly → Assembly
  | [], assembly => assembly
  | id :: ids, assembly =>
    if sched.tuning.maxSeqs ≤ assembly.batch.chunks.length then assembly
    else
      let budgetLeft := sched.tuning.chunkTokens - assembly.batch.totalTokens
      if budgetLeft = 0 then assembly
      else
        match sched.queue.lookup id with
        | none => sched.fill now late ids assembly
        | some p =>
          let want := min p.remaining budgetLeft
          if want = 0 then sched.fill now late ids assembly
          else
            let candDeadline := if late then assembly.bindingDeadline else min assembly.bindingDeadline p.deadlineMs
            let candTokens := assembly.batch.totalTokens + want
            let finish : ℚ := now + candTokens / sched.rate
            if assembly.batch.chunks ≠ [] ∧ candDeadline < finish then
              let limited := { assembly with batch := { assembly.batch with deadlineLimited := true } }
              if late then limited else sched.fill now late ids limited
            else
              sched.fill now late ids
                { batch := { assembly.batch with
                    chunks := assembly.batch.chunks ++ [⟨id, p.doneTokens, want, decide (want = p.remaining)⟩]
                    totalTokens := candTokens }
                  bindingDeadline := candDeadline }

/-- Assemble the next batch. -/
def plan (sched : PrefillScheduler) (now : Millis) : PrefillBatch × PrefillScheduler :=
  if sched.queue.entries = [] then ({}, sched)
  else
    let ordering := orderJobs sched.jobs now sched.tuning.policy
    let demoted := if sched.tuning.demoteHopeless then ordering.demoted else []
    let planned := { sched with demoted := demoted.toFinset }
    let assembly := planned.fill now true demoted (planned.fill now false ordering.onTime {})
    ({ assembly.batch with estServiceMs := assembly.batch.totalTokens / sched.rate }, planned)

end PrefillScheduler

end TrtLlm.Sched
