import Mathlib.Data.List.Basic
import TrtLlm.Model.Wire.Events

/-! # Server-sent events over HTTP

The framing half of `HttpTransport` in `crates/wire/src/transport.rs`. The response body is the list of chunks it
will still yield, each a byte string or the text of an error; after the last one it ends. The text of a
`Utf8Error` is a parameter.
-/

namespace TrtLlm.Wire

abbrev Bytes := List UInt8

/-- `b'\n'`. -/
def lf : UInt8 := 10

/-- `b'\r'`. -/
def cr : UInt8 := 13

def lineEndingLen (buffer : Bytes) (pos : ℕ) : Option ℕ :=
  if buffer[pos]? = some cr ∧ buffer[pos + 1]? = some lf then some 2
  else if buffer[pos]? = some cr ∨ buffer[pos]? = some lf then some 1
  else none

/-- A line ending at `start` that another line ending follows: where the frame ends and how long the two are. -/
def frameEndAt (buffer : Bytes) (start : ℕ) : Option (ℕ × ℕ) :=
  match lineEndingLen buffer start with
  | none => none
  | some firstLen =>
    match lineEndingLen buffer (start + firstLen) with
    | none => none
    | some secondLen => some (start, firstLen + secondLen)

def sseFrameEnd (buffer : Bytes) : Option (ℕ × ℕ) := (List.range buffer.length).findSome? (frameEndAt buffer)

/-- `str::from_utf8`. -/
def fromUtf8 (bytes : Bytes) : Option (List Char) := bytes.toByteArray.utf8Decode?.map Array.toList

/-- `line.split_once(':').unwrap_or((line, ""))`. -/
def splitField (line : List Char) : List Char × List Char :=
  (line.takeWhile (· ≠ ':'), (line.dropWhile (· ≠ ':')).drop 1)

/-- `value.strip_prefix(' ').unwrap_or(value)`. -/
def stripSpace : List Char → List Char
  | ' ' :: value => value
  | value => value

/-- The event name and data lines of a frame so far. -/
structure FrameFields where
  event : Option (List Char) := none
  data : List (List Char) := []
deriving DecidableEq, Repr

def FrameFields.readLine (fields : FrameFields) (line : List Char) : FrameFields :=
  if line.head? = some ':' ∨ line = [] then fields
  else
    let (field, value) := splitField line
    if field = "event".toList then { fields with event := some (stripSpace value) }
    else if field = "data".toList then { fields with data := fields.data ++ [stripSpace value] }
    else fields

/-- Read one frame. A frame without data is no event. -/
def parseSseFrame (utf8Error : Bytes → String) (frame : Bytes) : Except TransportError (Option SseEvent) :=
  match fromUtf8 frame with
  | none => .error ⟨"invalid UTF-8 SSE frame: " ++ utf8Error frame⟩
  | some text =>
    let fields := (text.splitOnP fun c => c = '\r' || c = '\n').foldl FrameFields.readLine {}
    if fields.data = [] then .ok none
    else .ok (some ⟨fields.event.map String.ofList, .ofList (['\n'].intercalate fields.data)⟩)

/-- The answer to a request: its status line, and the body as a text or as a stream of chunks. -/
structure HttpResponse where
  status : String
  success : Bool
  body : Except String String
  chunks : List (Except String Bytes)

structure HttpTransport where
  stream : Option (List (Except String Bytes))
  buffered : Bytes

namespace HttpTransport

def httpError (error : String) : TransportError := ⟨"HTTP transport error: " ++ error⟩

theorem sseFrameEnd_lt {buffer : Bytes} {frameEnd delimiterLen : ℕ}
    (found : sseFrameEnd buffer = some (frameEnd, delimiterLen)) : frameEnd < buffer.length ∧ 0 < delimiterLen := by
  obtain ⟨start, listed, here⟩ := List.exists_of_findSome?_eq_some found
  have positive : ∀ {pos len}, lineEndingLen buffer pos = some len → 0 < len := by
    intro pos len
    unfold lineEndingLen
    split
    · rintro ⟨rfl⟩
      exact Nat.zero_lt_two
    · split
      · rintro ⟨rfl⟩
        exact Nat.one_pos
      · rintro ⟨⟩
  unfold frameEndAt at here
  split at here
  · cases here
  next firstLen first =>
    split at here
    · cases here
    · cases here
      exact ⟨List.mem_range.mp listed, Nat.add_pos_left (positive first) _⟩

set_option linter.unusedVariables false in
/-- Read the next event, taking chunks from the body until a whole frame is buffered. -/
def nextEvent (utf8Error : Bytes → String) (t : HttpTransport) :
    Except TransportError (Option SseEvent) × HttpTransport :=
  match found : sseFrameEnd t.buffered with
  | some (frameEnd, delimiterLen) =>
    let rest := (t.buffered.drop frameEnd).drop delimiterLen
    match parseSseFrame utf8Error (t.buffered.take frameEnd) with
    | .error error => (.error error, { t with buffered := rest })
    | .ok (some event) => (.ok (some event), { t with buffered := rest })
    | .ok none => nextEvent utf8Error { t with buffered := rest }
  | none =>
    match body : t.stream with
    | none => (.error ⟨"next_event called before send"⟩, t)
    | some [] =>
      if t.buffered = [] then (.ok none, { t with stream := none })
      else (.error ⟨"SSE stream ended in a partial frame"⟩, { t with stream := none })
    | some (.error error :: chunks) => (.error (httpError error), { t with stream := some chunks })
    | some (.ok chunk :: chunks) => nextEvent utf8Error ⟨some chunks, t.buffered ++ chunk⟩
termination_by ((t.stream.map List.length).getD 0, t.buffered.length)
decreasing_by
  · refine Prod.Lex.right _ ?_
    have shorter := sseFrameEnd_lt found
    simp only [List.length_drop]
    omega
  · refine Prod.Lex.left _ _ ?_
    simp [body]

/-- `http_response_error`: a JSON body is searched for an error message, any other is quoted. -/
def httpResponseError (fromStr : String → Except String Json) (status body : String) : TransportError :=
  let detail :=
    match fromStr body with
    | .ok payload => remoteErrorMessage payload
    | .error _ => none
  match detail with
  | some detail => ⟨"HTTP " ++ status ++ ": " ++ detail⟩
  | none => if trim body = "" then ⟨"HTTP " ++ status⟩ else ⟨"HTTP " ++ status ++ ": " ++ trim body⟩

/-- `send`, when the client gets `response` for the request. -/
def send (fromStr : String → Except String Json) (response : Except String HttpResponse) (t : HttpTransport) :
    Except TransportError Unit × HttpTransport :=
  if t.stream.isSome then (.error ⟨"transport already has an active request"⟩, t)
  else
    match response with
    | .error error => (.error (httpError error), t)
    | .ok response =>
      if response.success then (.ok (), { t with stream := some response.chunks })
      else
        match response.body with
        | .error error => (.error (httpError error), t)
        | .ok body => (.error (httpResponseError fromStr response.status body), t)

/-- Cancelling drops the response. -/
def cancel (_ : RequestId) (_ : HttpTransport) : Except TransportError Unit × HttpTransport := (.ok (), ⟨none, []⟩)

end HttpTransport

end TrtLlm.Wire
