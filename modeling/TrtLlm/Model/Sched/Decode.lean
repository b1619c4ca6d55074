import Mathlib.Data.List.Sort
import Mathlib.Data.Rat.Floor
import Mathlib.Data.Finset.Basic
import TrtLlm.Model.Sched.ItlController

/-! # Decode admission and bookkeeping

`RunningSeq` and `DecodeScheduler` of `crates/sched/src/decode.rs`. The running map is never read in
an order that shows: ages are sorted before one is picked, tolerances are folded with `min`, and
the disagreement count runs over distinct ids.
-/

namespace TrtLlm.Sched

/-- A sequence currently decoding. -/
structure RunningSeq where
  id : RequestId
  admittedMs : Millis
  firstTokenMs : Millis
  lastTokenMs : Millis
  tokensEmitted : ℕ
  requestedTokens : ℕ
deriving DecidableEq, Repr

namespace RunningSeq

def new (id : RequestId) (firstTokenMs : Millis) (requestedTokens : ℕ) : RunningSeq where
  id
  admittedMs := firstTokenMs
  firstTokenMs
  lastTokenMs := firstTokenMs
  tokensEmitted := 1
  requestedTokens

def remainingTokens (seq : RunningSeq) : ℕ := seq.requestedTokens - seq.tokensEmitted

def isDone (seq : RunningSeq) : Bool := seq.requestedTokens ≤ seq.tokensEmitted

def elapsedMs (seq : RunningSeq) : Millis := seq.lastTokenMs - seq.firstTokenMs

/-- The largest per-token latency the sequence can sustain for its remaining tokens and still
finish with a mean inside the budget. -/
def tolerableItlMs (seq : RunningSeq) (budgetMs : Millis) : WithTop ℚ :=
  if seq.remainingTokens = 0 then ⊤
  else ((budgetMs * (seq.requestedTokens - 1 : ℕ) - seq.elapsedMs) / seq.remainingTokens : ℚ)

/-- How long the sequence has waited for its next token, not counting time before admission. -/
def ageMs (seq : RunningSeq) (now : Millis) : Millis := now - max seq.lastTokenMs seq.admittedMs

/-- Book `perStep` tokens at `now`, up to the requested count. -/
def advance (seq : RunningSeq) (perStep : ℕ) (now : Millis) : RunningSeq :=
  { seq with
    tokensEmitted := min (seq.tokensEmitted + perStep) seq.requestedTokens
    lastTokenMs := now }

end RunningSeq

/-- Why the scheduler did or did not take a new sequence; `admitSeq` is the source's `Admit`. -/
inductive AdmitDecision where
  | admitSeq
  | atCap
  | wouldSpoilRunning
  | noKvHeadroom
deriving DecidableEq, Repr

structure DecodeScheduler where
  running : HashMap RequestId RunningSeq
  controller : ItlController
  itlBudgetMs : Millis
  riskMargin : ℚ
  tokensPerStep : ℕ
  admitted : ℕ
  refused : ℕ
  finishDisagreements : ℕ
  flagged : Finset RequestId
  unknownFinishReports : ℕ
deriving DecidableEq

namespace DecodeScheduler

def new (itlBudgetMs : Millis) (controller : ItlController) : DecodeScheduler where
  running := ∅
  controller
  itlBudgetMs
  riskMargin := 105 / 100
  tokensPerStep := 1
  admitted := 0
  refused := 0
  finishDisagreements := 0
  flagged := ∅
  unknownFinishReports := 0

def runningSeqs (sched : DecodeScheduler) : List RunningSeq := sched.running.entries.map Sigma.snd

def concurrency (sched : DecodeScheduler) : ℕ := sched.running.entries.length

/-- The tightest ITL tolerance among the sequences in flight. -/
def tightestToleranceMs (sched : DecodeScheduler) : WithTop ℚ :=
  (sched.runningSeqs.map fun seq => seq.tolerableItlMs sched.itlBudgetMs).foldl min ⊤

/-- Admitting now would push an in-flight request past its own average. -/
def wouldSpoil (sched : DecodeScheduler) : Prop :=
  8 ≤ sched.controller.samples ∧ sched.tightestToleranceMs ≠ ⊤ ∧
    sched.tightestToleranceMs < (sched.controller.observedItlMs * sched.riskMargin : ℚ)

instance (sched : DecodeScheduler) : Decidable sched.wouldSpoil := inferInstanceAs (Decidable (_ ∧ _ ∧ _))

/-- Can one more sequence start decoding right now? -/
def canAdmit (sched : DecodeScheduler) (kvHeadroom : Bool) : AdmitDecision :=
  if !kvHeadroom then .noKvHeadroom
  else if sched.controller.cap ≤ sched.concurrency then .atCap
  else if sched.wouldSpoil then .wouldSpoilRunning
  else .admitSeq

def note (sched : DecodeScheduler) : AdmitDecision → DecodeScheduler
  | .admitSeq => { sched with admitted := sched.admitted + 1 }
  | .wouldSpoilRunning =>
    { sched with refused := sched.refused + 1, controller := sched.controller.backOff }
  | .atCap => { sched with refused := sched.refused + 1 }
  | .noKvHeadroom => { sched with refused := sched.refused + 1 }

/-- The source's `admit`. -/
def admitSeq (sched : DecodeScheduler) (seq : RunningSeq) : DecodeScheduler :=
  { sched with running := sched.running.insert seq.id seq }

/-- Take responsibility for a sequence as of `now`. -/
def admitAt (sched : DecodeScheduler) (seq : RunningSeq) (now : Millis) : DecodeScheduler :=
  sched.admitSeq { seq with admittedMs := now, lastTokenMs := max seq.lastTokenMs now }

def setTokensPerStep (sched : DecodeScheduler) (tokens : ℕ) : DecodeScheduler :=
  { sched with tokensPerStep := max tokens 1 }

/-- The p90 of how long each running request has been waiting for its next token. `f64::round`
rounds halves up on non-negative numbers. -/
def steeringItlMs (sched : DecodeScheduler) (now : Millis) : Option Millis :=
  let samples := sched.runningSeqs.map (·.ageMs now)
  if samples.isEmpty then none
  else (samples.insertionSort (· ≤ ·))[⌊((samples.length - 1 : ℕ) : ℚ) * (90 / 100) + 1 / 2⌋₊]?

/-- Book one step's token for one advanced id. -/
def advance (now : Millis) (sched : DecodeScheduler) (id : RequestId) : DecodeScheduler :=
  match sched.running.lookup id with
  | some seq => { sched with running := sched.running.insert id (seq.advance (max sched.tokensPerStep 1) now) }
  | none => sched

/-- Retire the ids the engine reports as finished. -/
def retire : List RequestId → DecodeScheduler → List RunningSeq × DecodeScheduler
  | [], sched => ([], sched)
  | id :: finished, sched =>
    match sched.running.lookup id with
    | some seq =>
      let (done, next) := retire finished
        { sched with running := sched.running.erase id, flagged := sched.flagged.erase id }
      (seq :: done, next)
    | none => retire finished { sched with unknownFinishReports := sched.unknownFinishReports + 1 }

/-- Count a running sequence whose whole budget is booked, once. -/
def flagDone (sched : DecodeScheduler) (seq : RunningSeq) : DecodeScheduler :=
  if seq.isDone ∧ seq.id ∉ sched.flagged then
    { sched with
      flagged := insert seq.id sched.flagged
      finishDisagreements := sched.finishDisagreements + 1 }
  else sched

/-- Apply the engine's report of what happened during one decode step. -/
def onStep (sched : DecodeScheduler) (now : Millis) (stepMs : Millis) (advanced finished : List RequestId) :
    List RunningSeq × DecodeScheduler :=
  let steer := (sched.steeringItlMs now).getD stepMs
  let observed := { sched with controller := sched.controller.observe steer sched.concurrency }
  let booked := advanced.foldl (advance now) observed
  let (done, retired) := retire finished booked
  (done, retired.runningSeqs.foldl flagDone retired)

/-- The simulator's step: every running sequence advances, and those whose next token reaches
their budget finish. -/
def onStepSynthetic (sched : DecodeScheduler) (now : Millis) (stepMs : Millis) :
    List RunningSeq × DecodeScheduler :=
  let finished := (sched.runningSeqs.filter fun seq => seq.requestedTokens ≤ seq.tokensEmitted + 1).map (·.id)
  sched.onStep now stepMs sched.running.keys finished

def remove (sched : DecodeScheduler) (id : RequestId) : Option RunningSeq × DecodeScheduler :=
  (sched.running.lookup id,
    { sched with running := sched.running.erase id, flagged := sched.flagged.erase id })

end DecodeScheduler

end TrtLlm.Sched
