import Mathlib.Data.List.Induction
import TrtLlm.Model.Wire.RequestStream

/-! # A request stream ends and cleans up once

The transport is wrapped so that it logs the calls made on it. A live stream has not called `cancel` and has no
outcome; one lemma lists what a call can do to it. Every path that ends a stream either saw its terminal event
or has called `cancel`, and an ended stream answers nothing and touches nothing.
-/

namespace TrtLlm.Wire

/-- A call on a transport. -/
inductive TransportCall where
  | nextEvent
  | cancel
deriving DecidableEq, Repr

/-- Any transport, with a log of the calls made on it. -/
def Transport.logged {τ : Type*} (io : Transport τ) : Transport (τ × List TransportCall) where
  nextEvent s := ((io.nextEvent s.1).1, (io.nextEvent s.1).2, .nextEvent :: s.2)
  cancel id s := ((io.cancel id s.1).1, (io.cancel id s.1).2, .cancel :: s.2)

/-- A call on a stream. -/
inductive StreamOp where
  | nextAt (atMs : Millis)
  | cancelAt (atMs : Millis)
deriving DecidableEq, Repr

namespace StreamOp

def atMs : StreamOp → Millis
  | .nextAt atMs => atMs
  | .cancelAt atMs => atMs

def isNext : StreamOp → Bool
  | .nextAt _ => true
  | .cancelAt _ => false

end StreamOp

/-- The result is a terminal output. -/
def isTerminal : StreamResult → Bool
  | .ok (some (.terminal _)) => true
  | _ => false

/-- The result ends the stream: a terminal output or an error. -/
def isEnding : StreamResult → Bool
  | .error _ => true
  | result => isTerminal result

def isToken : StreamResult → Bool
  | .ok (some (.token _ _)) => true
  | _ => false

/-- The times passed with the calls that returned a token. -/
def tokenTimes (trace : List (StreamOp × StreamResult)) : List Millis :=
  (trace.filter fun call => isToken call.2).map fun call => call.1.atMs

/-- The stream ended by a decoded terminal event. -/
def endedNaturally (trace : List (StreamOp × StreamResult)) : Bool :=
  trace.any fun call => call.1.isNext && isTerminal call.2

namespace RequestStream

variable {τ : Type*} {io : Transport τ} {fromStr : String → Except String Json}

def apply (io : Transport τ) (fromStr : String → Except String Json) (s : RequestStream τ) :
    StreamOp → StreamResult × RequestStream τ
  | .nextAt atMs => s.nextAt io fromStr atMs
  | .cancelAt atMs => s.cancelAt io atMs

/-- The stream after a list of calls. -/
def after (io : Transport τ) (fromStr : String → Except String Json) (s : RequestStream τ) (ops : List StreamOp) :
    RequestStream τ := ops.foldl (fun s op => (s.apply io fromStr op).2) s

/-- The calls with what they returned. -/
def trace (io : Transport τ) (fromStr : String → Except String Json) (s : RequestStream τ) :
    List StreamOp → List (StreamOp × StreamResult)
  | [] => []
  | op :: ops => (op, (s.apply io fromStr op).1) :: trace io fromStr (s.apply io fromStr op).2 ops

theorem after_append (s : RequestStream τ) (front back : List StreamOp) :
    s.after io fromStr (front ++ back) = (s.after io fromStr front).after io fromStr back := List.foldl_append

theorem trace_append (s : RequestStream τ) (front back : List StreamOp) :
    s.trace io fromStr (front ++ back) =
      s.trace io fromStr front ++ (s.after io fromStr front).trace io fromStr back := by
  induction front generalizing s with
  | nil => rfl
  | cons op front ih => exact congrArg (List.cons _) (ih _)

/-- An ended stream answers nothing and stays as it is. -/
theorem apply_ended {s : RequestStream τ} (ended : s.terminal = true) (op : StreamOp) :
    s.apply io fromStr op = (.ok none, s) := by
  cases op with
  | nextAt atMs => simp [apply, nextAt, ended]
  | cancelAt atMs => simp [apply, cancelAt, ended]

theorem after_ended (io : Transport τ) (fromStr : String → Except String Json) {s : RequestStream τ}
    (ended : s.terminal = true) (ops : List StreamOp) :
    s.trace io fromStr ops = ops.map (fun op => (op, .ok none)) ∧ s.after io fromStr ops = s := by
  induction ops with
  | nil => exact ⟨rfl, rfl⟩
  | cons op ops ih =>
    rw [trace, after, List.foldl_cons, apply_ended ended, ih.1]
    exact ⟨rfl, ih.2⟩

/-- Calls of `cancel` so far. -/
def cancels (s : RequestStream (τ × List TransportCall)) : ℕ := s.transport.2.count .cancel

variable {s : RequestStream (τ × List TransportCall)}

/-- What a call does to a stream that has not ended. -/
inductive Called (s : RequestStream (τ × List TransportCall)) : StreamOp → StreamResult →
    RequestStream (τ × List TransportCall) → Prop
  | token (atMs : Millis) (token : TokenId) (text : String) (transport : τ × List TransportCall) :
      transport.2.count .cancel = s.cancels → Called s (.nextAt atMs) (.ok (some (.token token text)))
        { s with transport, telemetry := s.telemetry.observeToken atMs }
  | finished (atMs : Millis) (reason : String) (transport : τ × List TransportCall) :
      transport.2.count .cancel = s.cancels → Called s (.nextAt atMs) (.ok (some (.terminal reason)))
        { s with transport, terminal := true, cleanedUp := true, outcome := some (s.telemetry.finish atMs) }
  | failed (atMs : Millis) (error : TransportError) (transport : τ × List TransportCall) :
      transport.2.count .cancel = s.cancels + 1 → Called s (.nextAt atMs) (.error error)
        { s with transport, terminal := true, cleanedUp := true }
  | cancelled (atMs : Millis) (result : StreamResult) (transport : τ × List TransportCall) :
      transport.2.count .cancel = s.cancels + 1 → isEnding result = true → Called s (.cancelAt atMs) result
        { s with transport, terminal := true, cleanedUp := true, outcome := some (s.telemetry.finish atMs) }

theorem cleanup_logged (io : Transport τ) (s : RequestStream (τ × List TransportCall)) (dirty : s.cleanedUp = false) :
    ∃ transport : τ × List TransportCall,
    transport.2.count .cancel = s.cancels + 1 ∧ (s.cleanup io.logged).2 = { s with transport, cleanedUp := true } := by
  refine ⟨(io.logged.cancel s.requestId s.transport).2, ?_, ?_⟩
  · exact List.count_cons_self
  · simp [cleanup, dirty]

theorem Called.fail {atMs : Millis} (dirty : s.cleanedUp = false) (error : TransportError)
    {transport : τ × List TransportCall} (quiet : transport.2.count .cancel = s.cancels) :
    Called s (.nextAt atMs) (fail io.logged { s with transport } error).1
      (fail io.logged { s with transport } error).2 := by
  obtain ⟨cleaned, counted, same⟩ := cleanup_logged io { s with transport } dirty
  change cleaned.2.count .cancel = transport.2.count .cancel + 1 at counted
  rw [RequestStream.fail, same]
  exact .failed atMs error cleaned (counted.trans (by rw [quiet]))

theorem apply_called (live : s.terminal = false) (dirty : s.cleanedUp = false) (op : StreamOp) :
    Called s op (s.apply io.logged fromStr op).1 (s.apply io.logged fromStr op).2 := by
  cases op with
  | nextAt atMs =>
    have quiet : (io.logged.nextEvent s.transport).2.2.count .cancel = s.cancels :=
      List.count_cons_of_ne (by simp)
    rw [apply, nextAt, if_neg (by simp [live])]
    generalize io.logged.nextEvent s.transport = answer at quiet
    obtain ⟨result, transport⟩ := answer
    match result with
    | .error error => exact .fail dirty error quiet
    | .ok none => exact .fail dirty _ quiet
    | .ok (some event) =>
      simp only [receive]
      split
      next error _ => exact .fail dirty error quiet
      next token text _ => exact .token atMs token text transport quiet
      next reason _ => exact .finished atMs reason transport quiet
  | cancelAt atMs =>
    obtain ⟨transport, counted, same⟩ := cleanup_logged io s dirty
    rw [apply, cancelAt, if_neg (by simp [live])]
    simp only
    split
    next error _ =>
      rw [same]
      exact .cancelled atMs _ transport counted rfl
    next =>
      rw [same]
      exact .cancelled atMs _ transport counted rfl

/-- What the telemetry knows of the calls so far. -/
structure Observed (trace : List (StreamOp × StreamResult)) (telemetry : RequestTelemetry) : Prop where
  count : telemetry.outputTokens = (tokenTimes trace).length % 2 ^ 32
  first : telemetry.firstTokenMs = (tokenTimes trace).head?
  last : telemetry.lastTokenMs = (tokenTimes trace).getLast?

theorem Observed.token {trace : List (StreamOp × StreamResult)} {telemetry : RequestTelemetry}
    (observed : Observed trace telemetry) (atMs : Millis) (token : TokenId) (text : String) :
    Observed (trace ++ [(.nextAt atMs, .ok (some (.token token text)))]) (telemetry.observeToken atMs) := by
  have times : tokenTimes (trace ++ [(.nextAt atMs, .ok (some (.token token text)))]) = tokenTimes trace ++ [atMs] := by
    simp [tokenTimes, isToken, StreamOp.atMs]
  constructor
  · rw [times, List.length_append, List.length_singleton]
    simp only [RequestTelemetry.observeToken, observed.count]
    omega
  · rw [times]
    simp only [RequestTelemetry.observeToken, observed.first]
    cases tokenTimes trace <;> rfl
  · rw [times, List.getLast?_append_of_ne_nil _ (List.cons_ne_nil _ _)]
    rfl

theorem Observed.other {trace : List (StreamOp × StreamResult)} {telemetry : RequestTelemetry}
    (observed : Observed trace telemetry) {op : StreamOp} {result : StreamResult} (none : isToken result = false) :
    Observed (trace ++ [(op, result)]) telemetry := by
  have times : tokenTimes (trace ++ [(op, result)]) = tokenTimes trace := by simp [tokenTimes, none]
  exact ⟨times ▸ observed.count, times ▸ observed.first, times ▸ observed.last⟩

/-- The state of a stream against the calls made so far. -/
structure Tracked (trace : List (StreamOp × StreamResult)) (s : RequestStream (τ × List TransportCall)) : Prop where
  observed : Observed trace s.telemetry
  status : s.terminal = false ∧ s.cleanedUp = false ∧ s.outcome = none ∧ s.cancels = 0 ∧
      (∀ call ∈ trace, isEnding call.2 = false) ∨
    s.terminal = true ∧ s.cleanedUp = true ∧
      (∀ outcome, s.outcome = some outcome → ∃ atMs, outcome = s.telemetry.finish atMs) ∧
      s.cancels = (if endedNaturally trace then 0 else 1) ∧ (trace.filter fun call => isEnding call.2).length = 1

theorem tracked_new (transport : τ) (request : Request) : Tracked [] (new (transport, []) request) :=
  ⟨⟨rfl, rfl, rfl⟩, .inl ⟨rfl, rfl, rfl, rfl, fun _ member => nomatch member⟩⟩

/-- The natural end is the only one that needs no `cancel`. -/
theorem endedNaturally_snoc {trace : List (StreamOp × StreamResult)} (live : ∀ call ∈ trace, isEnding call.2 = false)
    (op : StreamOp) (result : StreamResult) :
    endedNaturally (trace ++ [(op, result)]) = (op.isNext && isTerminal result) := by
  have before : trace.any (fun call => call.1.isNext && isTerminal call.2) = false := by
    refine List.any_eq_false.mpr fun call member => ?_
    have calm := live call member
    match call with
    | (op, .error error) => cases calm
    | (op, .ok none) => simp [isTerminal]
    | (op, .ok (some (.token token text))) => simp [isTerminal]
    | (op, .ok (some (.terminal reason))) => cases calm
  simp [endedNaturally, before]

theorem filter_ending_snoc {trace : List (StreamOp × StreamResult)} (live : ∀ call ∈ trace, isEnding call.2 = false)
    {op : StreamOp} {result : StreamResult} (ends : isEnding result = true) :
    ((trace ++ [(op, result)]).filter fun call => isEnding call.2).length = 1 := by
  rw [List.filter_append, List.filter_eq_nil_iff.mpr (by simpa using fun op result member => live (op, result) member)]
  simp [ends]

theorem isToken_of_isEnding {result : StreamResult} (ends : isEnding result = true) : isToken result = false := by
  match result with
  | .error error => rfl
  | .ok none => rfl
  | .ok (some (.token token text)) => cases ends
  | .ok (some (.terminal reason)) => rfl

theorem Tracked.apply {trace : List (StreamOp × StreamResult)} (tracked : Tracked trace s) (op : StreamOp) :
    Tracked (trace ++ [(op, (s.apply io.logged fromStr op).1)]) (s.apply io.logged fromStr op).2 := by
  rcases tracked.status with ⟨live, dirty, outcome, cancels, calm⟩ | ⟨ended, cleaned, outcome, cancels, once⟩
  · -- A stream that lives on, ends by its terminal event, or ends with a `cancel`.
    have called : Called s op (s.apply io.logged fromStr op).1 (s.apply io.logged fromStr op).2 :=
      apply_called live dirty op
    generalize s.apply io.logged fromStr op = out at called ⊢
    obtain ⟨result, next⟩ := out
    cases called with
    | token atMs token text transport quiet =>
      refine ⟨tracked.observed.token atMs token text, .inl ⟨live, dirty, outcome, quiet.trans cancels, ?_⟩⟩
      intro call member
      rcases List.mem_append.mp member with before | last
      · exact calm call before
      · rw [List.mem_singleton.mp last]
        rfl
    | finished atMs reason transport quiet =>
      refine ⟨tracked.observed.other rfl, .inr ⟨rfl, rfl, ?_, ?_, filter_ending_snoc calm rfl⟩⟩
      · rintro _ ⟨rfl⟩
        exact ⟨atMs, rfl⟩
      · rw [endedNaturally_snoc calm]
        exact quiet.trans cancels
    | failed atMs error transport counted =>
      refine ⟨tracked.observed.other rfl, .inr ⟨rfl, rfl, ?_, ?_, filter_ending_snoc calm rfl⟩⟩
      · intro some found
        rw [show s.outcome = some from found] at outcome
        cases outcome
      · rw [endedNaturally_snoc calm]
        exact counted.trans (by rw [cancels]; rfl)
    | cancelled atMs result transport counted ends =>
      refine ⟨tracked.observed.other (isToken_of_isEnding ends), .inr ⟨rfl, rfl, ?_, ?_, filter_ending_snoc calm ends⟩⟩
      · rintro _ ⟨rfl⟩
        exact ⟨atMs, rfl⟩
      · rw [endedNaturally_snoc calm]
        exact counted.trans (by rw [cancels]; rfl)
  · rw [apply_ended ended]
    refine ⟨tracked.observed.other rfl, .inr ⟨ended, cleaned, outcome, ?_, ?_⟩⟩
    · have same : endedNaturally (trace ++ [(op, .ok none)]) = endedNaturally trace := by
        rw [endedNaturally, List.any_append, List.any_cons, List.any_nil]
        simp only [isTerminal, Bool.and_false, Bool.or_false]
        rfl
      rw [cancels, same]
    · rw [List.filter_append, List.length_append, once]
      rfl

theorem tracked_after (io : Transport τ) (fromStr : String → Except String Json) (transport : τ) (request : Request)
    (ops : List StreamOp) :
    Tracked ((new (transport, []) request).trace io.logged fromStr ops)
      ((new (transport, []) request).after io.logged fromStr ops) := by
  induction ops using List.reverseRecOn with
  | nil => exact tracked_new transport request
  | append_singleton ops op ih =>
    rw [trace_append, after_append]
    exact ih.apply op

theorem Tracked.of_live {trace : List (StreamOp × StreamResult)} (tracked : Tracked trace s)
    (live : s.terminal = false) : s.cleanedUp = false ∧ ∀ call ∈ trace, isEnding call.2 = false := by
  rcases tracked.status with ⟨_, dirty, _, _, calm⟩ | ⟨ended, _⟩
  · exact ⟨dirty, calm⟩
  · rw [live] at ended
    cases ended

/-- A call that returns a terminal output or an error leaves the stream ended. -/
theorem Tracked.ended {trace : List (StreamOp × StreamResult)} (tracked : Tracked trace s) {op : StreamOp}
    (ends : isEnding (s.apply io.logged fromStr op).1 = true) : (s.apply io.logged fromStr op).2.terminal = true := by
  cases live : s.terminal with
  | true =>
    rw [apply_ended live] at ends
    cases ends
  | false =>
    have called : Called s op (s.apply io.logged fromStr op).1 (s.apply io.logged fromStr op).2 :=
      apply_called live (tracked.of_live live).1 op
    generalize s.apply io.logged fromStr op = out at called ends ⊢
    obtain ⟨result, next⟩ := out
    cases called with
    | token => cases ends
    | finished => rfl
    | failed => rfl
    | cancelled => rfl

theorem Tracked.drop {trace : List (StreamOp × StreamResult)} (tracked : Tracked trace s) :
    (s.drop io.logged).cancels = if endedNaturally trace then 0 else 1 := by
  rcases tracked.status with ⟨_, dirty, _, cancels, calm⟩ | ⟨_, cleaned, _, cancels, _⟩
  · obtain ⟨transport, counted, same⟩ := cleanup_logged io _ dirty
    have unnatural : endedNaturally trace = false := by
      refine List.any_eq_false.mpr fun call member => ?_
      have ends := calm call member
      match call with
      | (op, .error error) => cases ends
      | (op, .ok none) => simp [isTerminal]
      | (op, .ok (some (.token token text))) => simp [isTerminal]
      | (op, .ok (some (.terminal reason))) => cases ends
    rw [RequestStream.drop, same, unnatural]
    exact counted.trans (by rw [cancels]; rfl)
  · rw [RequestStream.drop, cleanup, cleaned]
    exact cancels

theorem length_terminal_le (trace : List (StreamOp × StreamResult)) :
    (trace.filter fun call => isTerminal call.2).length ≤ (trace.filter fun call => isEnding call.2).length := by
  refine (List.monotone_filter_right trace fun call terminal => ?_).length_le
  match call with
  | (op, .error error) => rfl
  | (op, .ok none) => cases terminal
  | (op, .ok (some (.token token text))) => cases terminal
  | (op, .ok (some (.terminal reason))) => rfl

/-- What is owed after a list of calls and a final drop. -/
structure EndsOnce (io : Transport τ) (fromStr : String → Except String Json) (transport : τ) (request : Request)
    (ops : List StreamOp) : Prop where
  one_terminal : (((new (transport, []) request).trace io.logged fromStr ops).filter fun call =>
    isTerminal call.2).length ≤ 1
  /-- After a terminal output or an error every call returns nothing and leaves the stream and its transport. -/
  silent : ∀ front op back, ops = front ++ op :: back →
    isEnding (((new (transport, []) request).after io.logged fromStr front).apply io.logged fromStr op).1 = true →
      ((new (transport, []) request).after io.logged fromStr (front ++ [op])).trace io.logged fromStr back =
          back.map (fun later => (later, .ok none)) ∧
        (new (transport, []) request).after io.logged fromStr ops =
          (new (transport, []) request).after io.logged fromStr (front ++ [op])
  /-- `cancel` is called once, the final drop included, unless the stream ended by its terminal event. -/
  cancels : (((new (transport, []) request).after io.logged fromStr ops).drop io.logged).cancels =
    if endedNaturally ((new (transport, []) request).trace io.logged fromStr ops) then 0 else 1
  /-- An outcome counts the tokens returned and has the times of the first and the last of them. -/
  scored : ∀ outcome, ((new (transport, []) request).after io.logged fromStr ops).outcome = some outcome →
    let times := tokenTimes ((new (transport, []) request).trace io.logged fromStr ops)
    times.length < 2 ^ 32 → outcome.outputTokens = times.length ∧
      (∀ first, times.head? = some first → outcome.firstTokenMs = first) ∧
      ∀ last, times.getLast? = some last → outcome.lastTokenMs = last

/-- Every sequence of calls on a stream over any transport ends and cleans up once. -/
theorem stream_ends_once (io : Transport τ) (fromStr : String → Except String Json) (transport : τ) (request : Request)
    (ops : List StreamOp) : EndsOnce io fromStr transport request ops := by
  have tracked := tracked_after io fromStr transport request ops
  constructor
  · rcases tracked.status with ⟨_, _, _, _, calm⟩ | ⟨_, _, _, _, once⟩
    · refine (length_terminal_le _).trans ?_
      rw [List.filter_eq_nil_iff.mpr (by simpa using fun op result member => calm (op, result) member)]
      exact Nat.zero_le _
    · exact (length_terminal_le _).trans once.le
  · rintro front op back rfl ends
    have ended : ((new (transport, []) request).after io.logged fromStr (front ++ [op])).terminal = true := by
      rw [after_append]
      exact (tracked_after io fromStr transport request front).ended ends
    obtain ⟨quiet, still⟩ := after_ended io.logged fromStr ended back
    refine ⟨quiet, ?_⟩
    rw [List.append_cons, after_append]
    exact still
  · exact tracked.drop
  · intro outcome found times bound
    rcases tracked.status with ⟨_, _, none, _⟩ | ⟨_, _, finished, _⟩
    · rw [none] at found
      cases found
    · obtain ⟨atMs, rfl⟩ := finished outcome found
      refine ⟨?_, fun first head => ?_, fun last tail => ?_⟩
      · exact tracked.observed.count.trans (Nat.mod_eq_of_lt bound)
      · rw [RequestTelemetry.finish, tracked.observed.first]
        exact congrArg (fun known => Option.getD known atMs) head
      · rw [RequestTelemetry.finish, tracked.observed.last]
        exact congrArg (fun known => Option.getD known atMs) tail

end RequestStream

end TrtLlm.Wire
