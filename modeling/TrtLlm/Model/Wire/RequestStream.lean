import TrtLlm.Model.Core.Request
import TrtLlm.Model.Wire.Events

/-! # Request streams

`RequestStream` of `crates/wire/src/transport.rs` over `RequestTelemetry` of `crates/wire/src/telemetry.rs`. The
stream owns a transport; a transport is any state with the two operations the stream calls.
-/

namespace TrtLlm.Wire

/-- Request-scoped observations collected by the serving adapter. -/
structure RequestTelemetry where
  request : Request
  firstTokenMs : Option Millis
  lastTokenMs : Option Millis
  outputTokens : ℕ
deriving DecidableEq, Repr

namespace RequestTelemetry

def new (request : Request) : RequestTelemetry := ⟨request, none, none, 0⟩

/-- The counter is a `u32` and wraps. -/
def observeToken (telemetry : RequestTelemetry) (atMs : Millis) : RequestTelemetry :=
  { telemetry with
    firstTokenMs := some (telemetry.firstTokenMs.getD atMs)
    lastTokenMs := some atMs
    outputTokens := (telemetry.outputTokens + 1) % 2 ^ 32 }

def finish (telemetry : RequestTelemetry) (atMs : Millis) : RequestOutcome where
  id := telemetry.request.id
  arrivalMs := telemetry.request.arrivalMs
  firstTokenMs := telemetry.firstTokenMs.getD atMs
  lastTokenMs := telemetry.lastTokenMs.getD atMs
  promptTokens := telemetry.request.promptLen % 2 ^ 32
  outputTokens := telemetry.outputTokens
  requestedTokens := telemetry.request.maxTokens

end RequestTelemetry

/-- The calls a stream makes on its transport. -/
structure Transport (τ : Type*) where
  nextEvent : τ → Except TransportError (Option SseEvent) × τ
  cancel : RequestId → τ → Except TransportError Unit × τ

inductive StreamOutput where
  | token (token : TokenId) (text : String)
  | terminal (finishReason : String)
deriving DecidableEq, Repr

/-- What `next_at` and `cancel_at` return. -/
abbrev StreamResult := Except TransportError (Option StreamOutput)

structure RequestStream (τ : Type*) where
  transport : τ
  requestId : RequestId
  telemetry : RequestTelemetry
  terminal : Bool
  cleanedUp : Bool
  outcome : Option RequestOutcome

namespace RequestStream

variable {τ : Type*}

/-- The stream `start` returns once the request has been sent. -/
def new (transport : τ) (request : Request) : RequestStream τ where
  transport
  requestId := request.id
  telemetry := .new request
  terminal := false
  cleanedUp := false
  outcome := none

def cleanup (io : Transport τ) (s : RequestStream τ) : Except TransportError Unit × RequestStream τ :=
  if !s.cleanedUp then
    let (result, transport) := io.cancel s.requestId s.transport
    (result, { s with transport, cleanedUp := true })
  else (.ok (), s)

/-- The error of the cleanup is dropped in favour of the one that caused it. -/
def fail (io : Transport τ) (s : RequestStream τ) (error : TransportError) : StreamResult × RequestStream τ :=
  (.error error, { (s.cleanup io).2 with terminal := true })

/-- What one event from the transport does to the stream. -/
def receive (io : Transport τ) (fromStr : String → Except String Json) (atMs : Millis) (s : RequestStream τ)
    (event : SseEvent) : StreamResult × RequestStream τ :=
  match decodeEvent fromStr event with
  | .error error => s.fail io error
  | .ok (.token token text) => (.ok (some (.token token text)), { s with telemetry := s.telemetry.observeToken atMs })
  | .ok (.terminal finishReason) =>
    (.ok (some (.terminal finishReason)),
      { s with terminal := true, cleanedUp := true, outcome := some (s.telemetry.finish atMs) })

def nextAt (io : Transport τ) (fromStr : String → Except String Json) (atMs : Millis) (s : RequestStream τ) :
    StreamResult × RequestStream τ :=
  if s.terminal then (.ok none, s)
  else
    match io.nextEvent s.transport with
    | (.ok (some event), transport) => receive io fromStr atMs { s with transport } event
    | (.ok none, transport) => fail io { s with transport } ⟨"stream ended before terminal event"⟩
    | (.error error, transport) => fail io { s with transport } error

def cancelAt (io : Transport τ) (atMs : Millis) (s : RequestStream τ) : StreamResult × RequestStream τ :=
  if s.terminal then (.ok none, s)
  else
    let cleaned := s.cleanup io
    let ended := { cleaned.2 with terminal := true, outcome := some (cleaned.2.telemetry.finish atMs) }
    match cleaned.1 with
    | .error error => (.error error, ended)
    | .ok () => (.ok (some (.terminal "cancelled")), ended)

def drop (io : Transport τ) (s : RequestStream τ) : RequestStream τ := (s.cleanup io).2

end RequestStream

end TrtLlm.Wire
