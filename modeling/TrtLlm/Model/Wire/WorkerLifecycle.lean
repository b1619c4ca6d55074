import TrtLlm.Machine.Path
import TrtLlm.Model.Wire.HttpWorker

/-! # One request of the Python worker, from its start to its cleanup

The generator `events` of `scripts/trtllm_dynamo_http_worker.py` with its `finally`, the task `_abort_on_disconnect` beside
it and `_abort_if_unfinished`, as steps between two awaits or yields. The server pulls frames and may cancel the generator
at any await or close it at any yield; the engine delivers results and finishes the request when it likes.
-/

namespace TrtLlm.Wire

open Machine

/-- The frames of what one step of the engine's stream yields to a client that is there, and whether the loop goes on. -/
def turn (repr : PyValue → String) : Except String EngineResult → List Payload × Bool
  | .error exception => ([.error exception], false)
  | .ok result =>
    match result.output with
    | .error message => ([.error message], false)
    | .ok (output, text) =>
      let (frames, failed) := tokenFrames text output.tokenIdsDiff
      match failed with
      | some message => (frames ++ [.error message], false)
      | none =>
        match output.finishReason with
        | .none => (frames, true)
        | .str reason => (frames ++ [if reason ∈ finishReasons then .finish reason else unsupported repr (.str reason)], false)
        | reason => (frames ++ [unsupported repr reason], false)

/-- The task that watches for a disconnect. -/
inductive Watcher where
  | absent
  | running
  | ended
  /-- `is_disconnected` raised. -/
  | failed
deriving DecidableEq, Repr

/-- Where the generator stands. -/
inductive Phase where
  /-- The response has not been started. -/
  | fresh
  /-- Awaiting the engine. -/
  | reading
  /-- At a yield, with the frames still to be sent and whether the loop goes on after them. -/
  | sending (frames : List Payload) (again : Bool)
  /-- In the `finally`, awaiting the task it has cancelled. -/
  | closing
  | ended
  /-- Dropped before it was started. -/
  | abandoned
deriving DecidableEq, Repr

structure Generation where
  /-- `request_output.finished`. -/
  finished : Bool
  /-- How often `request_output.abort` was called. -/
  aborts : ℕ
  watcher : Watcher
  phase : Phase
  /-- What the engine's stream has yielded to the loop. -/
  taken : List (Except String EngineResult)
  sent : List Payload
  /-- Whether the generator was cancelled or closed from outside. -/
  cut : Bool

inductive GenerationEvent where
  | start
  | abandon
  | deliver (item : Except String EngineResult)
  | exhaust
  | pull
  | cancel
  | settle
  /-- The watcher has its answer. -/
  | watch (disconnected : Bool)
  | watchFails
  | finish

namespace Generation

def new (finished : Bool) : Generation := ⟨finished, 0, .absent, .fresh, [], [], false⟩

/-- `_abort_if_unfinished`. -/
def abortIfUnfinished (g : Generation) : Generation := if g.finished then g else { g with aborts := g.aborts + 1 }

/-- Run on to the next yield, or to the end of this turn. -/
def advance (frames : List Payload) (again : Bool) (g : Generation) : Generation :=
  match frames with
  | frame :: frames => { g with sent := g.sent ++ [frame], phase := .sending frames again }
  | [] => { g with phase := if again then .reading else .closing }

/-- A step of the loop. -/
def deliver (repr : PyValue → String) (item : Except String EngineResult) (g : Generation) : Generation :=
  let g := { g with taken := g.taken ++ [item] }
  match item with
  | .ok result =>
    if result.disconnected then { g.abortIfUnfinished with phase := .closing }
    else g.advance (turn repr item).1 (turn repr item).2
  | .error _ => g.advance (turn repr item).1 (turn repr item).2

/-- The rest of the `finally`. What the watcher raised is raised again before the last abort. -/
def settle (g : Generation) : Generation :=
  match g.watcher with
  | .failed => { g with phase := .ended }
  | _ => { g.abortIfUnfinished with watcher := .ended, phase := .ended }

/-- A cancellation at an await, or the closing of the generator at a yield. -/
def cancel (g : Generation) : Generation :=
  match g.phase with
  | .reading => { g.abortIfUnfinished with phase := .closing, cut := true }
  | .sending _ _ => { g with phase := .closing, cut := true }
  | .closing => g.settle
  | _ => g

def watch (disconnected : Bool) (g : Generation) : Generation :=
  if disconnected then { g.abortIfUnfinished with watcher := .ended }
  else if g.finished then { g with watcher := .ended }
  else g

def step (repr : PyValue → String) (g : Generation) : GenerationEvent → Generation
  | .start => { g with watcher := .running, phase := .reading }
  | .abandon => { g with phase := .abandoned }
  | .deliver item => g.deliver repr item
  | .exhaust => g.advance [.error "TensorRT-LLM stream ended without a finish_reason"] false
  | .pull =>
    match g.phase with
    | .sending frames again => g.advance frames again
    | _ => g
  | .cancel => g.cancel
  | .settle => g.settle
  | .watch disconnected => g.watch disconnected
  | .watchFails => { g with watcher := .failed }
  | .finish => { g with finished := true }

/-- The task runs beside the loop until the `finally` cancels it. -/
def Watching (g : Generation) : Prop :=
  g.watcher = .running ∧ (g.phase = .reading ∨ ∃ frames again, g.phase = .sending frames again)

def Enabled (g : Generation) : GenerationEvent → Prop
  | .start => g.phase = .fresh
  | .abandon => g.phase = .fresh
  | .deliver _ => g.phase = .reading
  | .exhaust => g.phase = .reading
  | .pull => ∃ frames again, g.phase = .sending frames again
  | .cancel => g.phase = .reading ∨ (∃ frames again, g.phase = .sending frames again) ∨ g.phase = .closing
  | .settle => g.phase = .closing
  | .watch _ => g.Watching
  | .watchFails => g.Watching
  | .finish => True

def system (repr : PyValue → String) : System Generation GenerationEvent :=
  .ofFun (fun g => ∃ finished, g = new finished) Enabled (step repr)

end Generation

end TrtLlm.Wire
