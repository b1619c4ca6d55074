import Mathlib.Algebra.Order.BigOperators.Group.List
import TrtLlm.Model.Wire.HttpWorker
import TrtLlm.Soundness.SseRoundTrip
import TrtLlm.Soundness.StreamCleanup

/-! # The Python worker and the Rust client

What the worker prints has no line break in it, so its bytes are an encoding of events, and a client that reads them,
however they are cut, sees one output for each frame. The tokens arrive as the engine gave them. A text that came
without a token has no frame to travel in.
-/

namespace TrtLlm.Wire

/-! ### Printed payloads -/

/-- No line break. -/
def OneLine (text : List Char) : Prop := ∀ c ∈ text, c ≠ '\r' ∧ c ≠ '\n'

theorem OneLine.append {front back : List Char} (first : OneLine front) (second : OneLine back) :
    OneLine (front ++ back) := fun c member => (List.mem_append.mp member).elim (first c) (second c)

theorem OneLine.cons {c : Char} {text : List Char} (first : c ≠ '\r' ∧ c ≠ '\n') (second : OneLine text) :
    OneLine (c :: text) := fun other member => (List.mem_cons.mp member).elim (fun same => same ▸ first) (second other)

theorem oneLine_nil : OneLine [] := fun _ none => nomatch none

theorem OneLine.intercalate {sep : List Char} (separator : OneLine sep) {lines : List (List Char)}
    (each : ∀ line ∈ lines, OneLine line) : OneLine (sep.intercalate lines) := by
  induction lines with
  | nil => exact oneLine_nil
  | cons line lines ih =>
    cases lines with
    | nil =>
      rw [List.intercalate_singleton]
      exact each line (.head _)
    | cons next lines =>
      rw [List.intercalate_cons_cons, List.append_assoc]
      exact (each line (.head _)).append (separator.append (ih fun other listed => each other (.tail _ listed)))

theorem oneLine_digitChar (n : ℕ) : Nat.digitChar n ≠ '\r' ∧ Nat.digitChar n ≠ '\n' :=
  ⟨Nat.digitChar_ne _ (by decide), Nat.digitChar_ne _ (by decide)⟩

theorem oneLine_escapeChar (c : Char) : OneLine (escapeChar c) := by
  intro d member
  unfold escapeChar at member
  split_ifs at member with quote backslash newline return' tab formFeed backspace control
  all_goals simp only [List.mem_cons, List.not_mem_nil, or_false] at member
  · rcases member with rfl | rfl <;> decide
  · rcases member with rfl | rfl <;> decide
  · rcases member with rfl | rfl <;> decide
  · rcases member with rfl | rfl <;> decide
  · rcases member with rfl | rfl <;> decide
  · rcases member with rfl | rfl <;> decide
  · rcases member with rfl | rfl <;> decide
  · rcases member with rfl | rfl | rfl | rfl | rfl | rfl
    any_goals decide
    · exact oneLine_digitChar _
    · exact oneLine_digitChar _
  · rw [member]
    exact ⟨return', newline⟩

theorem oneLine_dumpsStr (text : String) : OneLine (dumpsStr text) := by
  refine .cons (by decide) (.append (fun c member => ?_) (.cons (by decide) oneLine_nil))
  obtain ⟨source, -, escaped⟩ := List.mem_flatMap.mp member
  exact oneLine_escapeChar source c escaped

theorem oneLine_repr (n : ℕ) : OneLine n.repr.toList := by
  intro c member
  rw [Nat.toList_repr] at member
  have digit := Nat.isDigit_of_mem_toDigits (by decide) (by decide) member
  constructor <;>
  · rintro rfl
    exact absurd digit (by decide)

theorem FrameValue.oneLine_dumps (value : FrameValue) : OneLine value.dumps := by
  cases value with
  | str text => exact oneLine_dumpsStr text
  | int value =>
    rw [FrameValue.dumps, Int.toString_eq_repr, Int.repr_eq_if]
    split
    · exact oneLine_repr _
    · rw [String.toList_append]
      exact .append (by unfold OneLine; simp) (oneLine_repr _)

theorem oneLine_dumps (payload : Payload) : OneLine (dumps payload) := by
  refine .cons (by decide) (.append (.intercalate ?_ fun line listed => ?_) (.cons (by decide) oneLine_nil))
  · exact .cons (by decide) oneLine_nil
  · obtain ⟨field, -, rfl⟩ := List.mem_map.mp listed
    exact (oneLine_dumpsStr _).append (.cons (by decide) field.2.oneLine_dumps)

/-- The event a frame carries. -/
def frameEvent (payload : Payload) : SseEvent := ⟨none, .ofList (dumps payload)⟩

theorem encodable_frameEvent (payload : Payload) : Encodable (frameEvent payload) where
  name _ known := nomatch known
  data inside := by
    rw [frameEvent, String.toList_ofList] at inside
    exact (oneLine_dumps payload _ inside).1 rfl

/-- The bytes of the worker's frames encode the events. -/
theorem utf8_sse (payload : Payload) : utf8 (sse payload) = encodeEvent .lf (frameEvent payload) := by
  have whole : (dumps payload).splitOn '\n' = [dumps payload] :=
    List.splitOn_eq_singleton fun inside => (oneLine_dumps payload _ inside).2 rfl
  have lines : eventLines (frameEvent payload) = ["data: ".toList ++ dumps payload] := by
    rw [eventLines, frameEvent]
    simp only [String.toList_ofList, whole]
    rfl
  calc utf8 (sse payload)
      = utf8 ("data: ".toList ++ dumps payload) ++ (LineEnding.lf.bytes ++ LineEnding.lf.bytes) := utf8_append _ _
    _ = encodeEvent .lf (frameEvent payload) := by
      rw [encodeEvent, lines, List.flatMap_singleton, ← List.append_assoc]

/-! ### Decoding -/

/-- A payload is an object, so it is not the marker of the end. -/
theorem trim_dumps (payload : Payload) : trim (.ofList (dumps payload)) ≠ "[DONE]" := by
  intro same
  have chars := congrArg String.toList same
  unfold trim at chars
  rw [String.toList_ofList, String.toList_ofList, dumps, List.cons_append, List.dropWhile_cons_of_neg (by decide),
    List.reverse_cons, List.reverse_append] at chars
  simp only [List.reverse_cons, List.reverse_nil, List.nil_append, List.cons_append] at chars
  rw [List.dropWhile_cons_of_neg (by decide)] at chars
  simp at chars

theorem toJson_token {token : TokenId} (small : token < 2 ^ 32) (text : String) :
    toJson (.token token text) = .object [("token_id", .number (some token)), ("text", .string text)] := by
  have fits : FrameValue.toJson (.int token) = .number (some token) := by
    rw [FrameValue.toJson, if_pos (by unfold TokenId at *; omega), Int.toNat_natCast]
  rw [toJson, Payload.token, List.map_cons, fits]
  rfl

theorem decodeEvent_token (fromStr : String → Except String Json) {token : TokenId} {text : String} (small : token < 2 ^ 32)
    (parses : fromStr (.ofList (dumps (.token token text))) = .ok (toJson (.token token text))) :
    decodeEvent fromStr (frameEvent (.token token text)) = .ok (.token token text) := by
  rw [toJson_token small] at parses
  rw [decodeEvent, frameEvent, if_neg (trim_dumps _)]
  simp only [parses]
  simp [-Nat.reducePow, Json.get, List.lookup_cons, Json.asStr, Json.asU64, Option.filter_some, small]

theorem decodeEvent_finish (fromStr : String → Except String Json) {reason : String}
    (parses : fromStr (.ofList (dumps (.finish reason))) = .ok (toJson (.finish reason))) :
    decodeEvent fromStr (frameEvent (.finish reason)) = .ok (.terminal reason) := by
  have noError : (toJson (.finish reason)).get "error" = none := rfl
  have string : ((toJson (.finish reason)).get "finish_reason").bind Json.asStr = some reason := rfl
  rw [decodeEvent, frameEvent, if_neg (trim_dumps _)]
  simp only [parses, noError, string, Option.isSome_none, Bool.false_eq_true, if_false]

/-! ### What the worker sends -/

/-- What the engine adds with one result. -/
structure Delta where
  tokenIds : List TokenId
  small : ∀ id ∈ tokenIds, id < 2 ^ 32
  text : String

/-- The result with one output for a delta. -/
def Delta.result (delta : Delta) (finishReason : PyValue) : EngineResult where
  disconnected := false
  error := none
  outputs := some [⟨delta.tokenIds.map fun id : TokenId => .int id, .str delta.text, finishReason⟩]

/-- The results of a stream that ends well. -/
def engineResults (body : List Delta) (last : Delta) (reason : String) : List (Except String EngineResult) :=
  body.map (fun delta => .ok (delta.result .none)) ++ [.ok (last.result (.str reason))]

/-- Tokens with the text their frames carry. -/
def labelled (text : String) : List TokenId → List (TokenId × String)
  | [] => []
  | id :: ids => (id, if ids = [] then text else "") :: labelled text ids

/-- All tokens of a stream with the text their frames carry. -/
def pieces (deltas : List Delta) : List (TokenId × String) := deltas.flatMap fun delta => labelled delta.text delta.tokenIds

/-- The payloads of a stream that ends well. -/
def streamPayloads (tokens : List (TokenId × String)) (reason : String) : List Payload :=
  (tokens.map fun piece => Payload.token piece.1 piece.2) ++ [.finish reason]

theorem labelled_fst (text : String) (ids : List TokenId) : (labelled text ids).map Prod.fst = ids := by
  induction ids with
  | nil => rfl
  | cons id ids ih => rw [labelled, List.map_cons, ih]

/-- The text rides on the last token, if there is one. -/
theorem labelled_snd (text : String) (ids : List TokenId) :
    String.join ((labelled text ids).map Prod.snd) = if ids = [] then "" else text := by
  induction ids with
  | nil => rfl
  | cons id ids ih =>
    rw [labelled, List.map_cons, String.join_cons, ih]
    by_cases single : ids = []
    · simp [single]
    · simp [single]

theorem tokenFrames_ids (text : String) (ids : List TokenId) :
    tokenFrames text (ids.map fun id : TokenId => .int id) =
      ((labelled text ids).map fun piece => Payload.token piece.1 piece.2, none) := by
  induction ids with
  | nil => rfl
  | cons id ids ih =>
    have accepted : requireInt "TensorRT-LLM token_id" (some 0) (.int id) = .ok id := by
      rw [requireInt, if_neg (by simp)]
    rw [List.map_cons, tokenFrames, accepted, ih]
    simp [labelled]

theorem events_engineResults (repr : PyValue → String) (body : List Delta) (last : Delta) {reason : String}
    (allowed : reason ∈ finishReasons) :
    events repr (engineResults body last reason) = streamPayloads (pieces (body ++ [last])) reason := by
  induction body with
  | nil =>
    simp only [engineResults, List.map_nil, List.nil_append, events, Delta.result, EngineResult.output, Option.filter_none,
      tokenFrames_ids, allowed, if_true, streamPayloads, pieces, List.flatMap_singleton]
    rfl
  | cons delta body ih =>
    rw [engineResults, List.map_cons, List.cons_append, ← engineResults]
    simp only [events, Delta.result, EngineResult.output, Option.filter_none, tokenFrames_ids, ih, streamPayloads,
      pieces, List.cons_append, List.flatMap_cons, List.map_append, List.append_assoc]
    rfl

/-! ### Reading it -/

/-- A stream over HTTP. -/
def overHttp (utf8Error : Bytes → String) : Transport HttpTransport where
  nextEvent := HttpTransport.nextEvent utf8Error
  cancel := HttpTransport.cancel

namespace RequestStream

variable {τ : Type*}

/-- Calls of `next_at` return these tokens with their texts, then the finish reason once, and nothing after it. -/
def ReadsAs (io : Transport τ) (fromStr : String → Except String Json) (s : RequestStream τ)
    (tokens : List (TokenId × String)) (reason : String) : Prop :=
  ∀ times : List Millis, tokens.length < times.length →
    (s.trace io fromStr (times.map .nextAt)).map Prod.snd =
      tokens.map (fun piece => .ok (some (.token piece.1 piece.2))) ++
        .ok (some (.terminal reason)) :: List.replicate (times.length - (tokens.length + 1)) (.ok none)

/-- The token that a call of `next_at` returned, with its text. -/
def returnedToken : StreamResult → Option (TokenId × String)
  | .ok (some (.token token text)) => some (token, text)
  | _ => none

theorem ReadsAs.unique {io : Transport τ} {fromStr : String → Except String Json} {s : RequestStream τ}
    {first second : List (TokenId × String)} {reason : String} (one : s.ReadsAs io fromStr first reason)
    (other : s.ReadsAs io fromStr second reason) : first = second := by
  have times : ∃ times : List Millis, first.length < times.length ∧ second.length < times.length :=
    ⟨List.replicate (first.length + second.length + 1) 0, by rw [List.length_replicate]; omega,
      by rw [List.length_replicate]; omega⟩
  obtain ⟨times, short, short'⟩ := times
  have same := (one times short).symm.trans (other times short')
  have tokens := congrArg (List.filterMap returnedToken) same
  have ended : returnedToken (.ok (some (.terminal reason))) = none := rfl
  simpa [List.filterMap_append, List.filterMap_map, Function.comp_def, List.filterMap_replicate, returnedToken,
    List.filterMap_cons_none ended] using tokens

variable {utf8Error : Bytes → String} {fromStr : String → Except String Json}

/-- One call reads one frame. -/
theorem nextAt_frame {s : RequestStream HttpTransport} (live : s.terminal = false) {payload : Payload}
    {later : List SseEvent} (encodable : ∀ event ∈ later, Encodable event) {chunks : List Bytes} {buffered : Bytes}
    (transport : s.transport = ⟨some (chunks.map .ok), buffered⟩)
    (total : buffered ++ chunks.flatten = encode .lf (frameEvent payload :: later)) (atMs : Millis) :
    ∃ (chunks : List Bytes) (buffered : Bytes), buffered ++ chunks.flatten = encode .lf later ∧
      s.nextAt (overHttp utf8Error) fromStr atMs = receive (overHttp utf8Error) fromStr atMs
        { s with transport := ⟨some (chunks.map .ok), buffered⟩ } (frameEvent payload) := by
  have whole : buffered ++ chunks.flatten = [] ++ (encodeEvent .lf (frameEvent payload) ++ encode .lf later) := by
    rw [total, List.nil_append, encode, List.flatMap_cons, encode]
  obtain ⟨left, rest, stray, read, leftover, remaining⟩ := HttpTransport.nextEvent_reads utf8Error
    (encodable_frameEvent payload) (.inl rfl : Leftover .lf []) (startsPlain_encode .lf encodable) whole
  rcases leftover with rfl | ⟨crlf, -⟩
  · have called : (overHttp utf8Error).nextEvent s.transport =
        (.ok (some (frameEvent payload)), ⟨some (left.map .ok), rest⟩) := transport ▸ read
    refine ⟨left, rest, remaining, ?_⟩
    rw [nextAt, if_neg (by simp [live]), called]
  · cases crlf

theorem readsAs_frames {tokens : List (TokenId × String)} {reason : String}
    (small : ∀ piece ∈ tokens, piece.1 < 2 ^ 32)
    (parses : ∀ payload ∈ streamPayloads tokens reason, fromStr (.ofList (dumps payload)) = .ok (toJson payload))
    {s : RequestStream HttpTransport} (live : s.terminal = false) {chunks : List Bytes} {buffered : Bytes}
    (transport : s.transport = ⟨some (chunks.map .ok), buffered⟩)
    (total : buffered ++ chunks.flatten = encode .lf ((streamPayloads tokens reason).map frameEvent)) :
    s.ReadsAs (overHttp utf8Error) fromStr tokens reason := by
  have encodable : ∀ payloads : List Payload, ∀ event ∈ payloads.map frameEvent, Encodable event := by
    intro payloads event listed
    obtain ⟨payload, -, rfl⟩ := List.mem_map.mp listed
    exact encodable_frameEvent payload
  intro times enough
  obtain ⟨time, times, rfl⟩ := List.exists_cons_of_length_pos (Nat.zero_lt_of_lt enough)
  rw [List.map_cons, trace, List.map_cons, apply]
  induction tokens generalizing s chunks buffered time times with
  | nil =>
    obtain ⟨chunks, buffered, -, read⟩ := nextAt_frame live (encodable []) transport total time
    have decoded := decodeEvent_finish fromStr (parses _ (.head _))
    rw [read, receive, decoded]
    simp only
    rw [(after_ended (overHttp utf8Error) fromStr rfl _).1]
    simp [List.map_const', Function.comp_def]
  | cons piece tokens ih =>
    obtain ⟨chunks, buffered, remaining, read⟩ := nextAt_frame live (encodable _) transport total time
    have decoded := decodeEvent_token fromStr (small piece (.head _)) (parses _ (.head _))
    obtain ⟨next, times, rfl⟩ := List.exists_cons_of_length_pos (l := times) (by simp at enough; omega)
    rw [read, receive, decoded]
    simp only
    rw [List.map_cons, trace, List.map_cons, apply, ih (fun other listed => small other (.tail _ listed))
      (fun payload listed => parses payload (.tail _ listed)) (by exact live) rfl remaining next times
      (by simpa using enough)]
    simp

end RequestStream

/-! ### Agreement -/

/-- The client gets the engine's token ids in order, texts that make up the engine's text, and the finish reason once. -/
def Agrees (io : Transport HttpTransport) (fromStr : String → Except String Json) (stream : RequestStream HttpTransport)
    (deltas : List Delta) (reason : String) : Prop :=
  ∃ tokens, stream.ReadsAs io fromStr tokens reason ∧ tokens.map Prod.fst = deltas.flatMap Delta.tokenIds ∧
    String.join (tokens.map Prod.snd) = String.join (deltas.map Delta.text)

theorem pieces_small {deltas : List Delta} {piece : TokenId × String} (listed : piece ∈ pieces deltas) :
    piece.1 < 2 ^ 32 := by
  obtain ⟨delta, -, inside⟩ := List.mem_flatMap.mp listed
  have known : piece.1 ∈ (labelled delta.text delta.tokenIds).map Prod.fst := List.mem_map_of_mem inside
  rw [labelled_fst] at known
  exact delta.small _ known

theorem pieces_fst (deltas : List Delta) : (pieces deltas).map Prod.fst = deltas.flatMap Delta.tokenIds := by
  simp only [pieces, List.map_flatMap, labelled_fst]

/-- The texts add up when no text came without a token. -/
theorem pieces_snd_iff (deltas : List Delta) :
    String.join ((pieces deltas).map Prod.snd) = String.join (deltas.map Delta.text) ↔
      ∀ delta ∈ deltas, delta.tokenIds = [] → delta.text = "" := by
  have carried : String.join ((pieces deltas).map Prod.snd) =
      String.join (deltas.map fun delta => if delta.tokenIds = [] then "" else delta.text) := by
    induction deltas with
    | nil => rfl
    | cons delta deltas ih =>
      rw [pieces, List.flatMap_cons, List.map_append, String.join_append, labelled_snd, List.map_cons, String.join_cons, ← ih]
      rfl
  rw [carried]
  constructor
  · intro same delta listed silent
    -- every text is carried whole or not at all, so equal lengths leave nothing behind
    have lengths : (deltas.map fun delta => delta.text.length).sum =
        (deltas.map fun delta => (if delta.tokenIds = [] then "" else delta.text).length).sum +
          (deltas.map fun delta => if delta.tokenIds = [] then delta.text.length else 0).sum := by
      rw [← List.sum_map_add]
      refine congrArg List.sum (List.map_congr_left fun delta _ => ?_)
      split <;> simp
    have total := congrArg String.length same
    rw [String.length_join, String.length_join, List.map_map, List.map_map] at total
    have lost : (deltas.map fun delta => if delta.tokenIds = [] then delta.text.length else 0).sum = 0 := by
      simp only [Function.comp_def] at total
      omega
    have none := List.sum_eq_zero_iff.mp lost _ (List.mem_map_of_mem listed)
    rw [if_pos silent] at none
    exact String.length_eq_zero_iff.mp none
  · intro whole
    refine congrArg String.join (List.map_congr_left fun delta listed => ?_)
    split
    next silent => exact (whole delta listed silent).symm
    next => rfl

theorem agrees_iff_of_readsAs {io : Transport HttpTransport} {fromStr : String → Except String Json}
    {stream : RequestStream HttpTransport} {deltas : List Delta} {reason : String}
    (reads : stream.ReadsAs io fromStr (pieces deltas) reason) :
    Agrees io fromStr stream deltas reason ↔ ∀ delta ∈ deltas, delta.tokenIds = [] → delta.text = "" := by
  rw [← pieces_snd_iff]
  constructor
  · rintro ⟨tokens, others, -, texts⟩
    rwa [← others.unique reads]
  · exact fun texts => ⟨pieces deltas, reads, pieces_fst deltas, texts⟩

/-- A client that reads the worker's frames, however the bytes are cut. -/
theorem readsAs_events (utf8Error : Bytes → String) {fromStr : String → Except String Json} (repr : PyValue → String)
    (body : List Delta) (last : Delta) {reason : String} (allowed : reason ∈ finishReasons)
    (parses : ∀ payload ∈ events repr (engineResults body last reason),
      fromStr (.ofList (dumps payload)) = .ok (toJson payload)) (request : Request) {chunks : List Bytes}
    (cut : chunks.flatten = (events repr (engineResults body last reason)).flatMap fun payload => utf8 (sse payload)) :
    (RequestStream.new ⟨some (chunks.map .ok), []⟩ request : RequestStream HttpTransport).ReadsAs (overHttp utf8Error)
      fromStr (pieces (body ++ [last])) reason := by
  rw [events_engineResults repr body last allowed] at parses cut
  refine RequestStream.readsAs_frames (fun _ => pieces_small) parses rfl rfl ?_
  rw [List.nil_append, cut, encode, List.flatMap_map]
  simp only [utf8_sse]

/-- The worker and the client agree on a stream exactly when every delta without a token is without text. -/
theorem stream_agrees_iff (utf8Error : Bytes → String) (fromStr : String → Except String Json) (repr : PyValue → String)
    (body : List Delta) (last : Delta) (reason : String) (allowed : reason ∈ finishReasons)
    (parses : ∀ payload ∈ events repr (engineResults body last reason),
      fromStr (.ofList (dumps payload)) = .ok (toJson payload)) (request : Request) (chunks : List Bytes)
    (cut : chunks.flatten = (events repr (engineResults body last reason)).flatMap fun payload => utf8 (sse payload)) :
    Agrees (overHttp utf8Error) fromStr (.new ⟨some (chunks.map .ok), []⟩ request) (body ++ [last]) reason ↔
      ∀ delta ∈ body ++ [last], delta.tokenIds = [] → delta.text = "" :=
  agrees_iff_of_readsAs (readsAs_events utf8Error repr body last allowed parses request cut)

/-- A parser that knows two payloads. -/
def parseEither (first second : Payload) (data : String) : Except String Json :=
  if data.toList = dumps first then .ok (toJson first)
  else if data.toList = dumps second then .ok (toJson second)
  else .error "expected value at line 1 column 1"

theorem parseEither_finish (token : ℤ) (text reason : String) :
    ∀ payload ∈ [Payload.token token text, .finish reason],
      parseEither (.token token text) (.finish reason) (.ofList (dumps payload)) = .ok (toJson payload) := by
  intro payload listed
  rcases List.mem_pair.mp listed with rfl | rfl
  · rw [parseEither, String.toList_ofList, if_pos rfl]
  · have apart : dumps (.finish reason) ≠ dumps (.token token text) := by
      simp [dumps, Payload.token, Payload.finish, dumpsStr, escapeChar, List.intercalate]
    rw [parseEither, String.toList_ofList, if_neg apart, if_pos rfl]

/-- One token with its text. -/
def spoken : Delta := ⟨[7], by decide, "hi"⟩

/-- A text the detokeniser had held back. -/
def flushed (text : String) : Delta := ⟨[], by decide, text⟩

theorem events_spoken_flushed (text : String) : events (fun _ => "") (engineResults [spoken] (flushed text) "stop") =
    [.token 7 "hi", .finish "stop"] := by
  rw [events_engineResults _ _ _ (by decide)]
  rfl

theorem stream_agrees_iff_spoken :
    let chunk := utf8 (sse (.token 7 "hi") ++ sse (.finish "stop"))
    Agrees (overHttp fun _ => "") (parseEither (.token 7 "hi") (.finish "stop"))
      (.new ⟨some ([chunk.take 20, chunk.drop 20].map .ok), []⟩ ⟨0, [1], 8, 0⟩) [spoken, flushed ""] "stop" := by
  intro chunk
  refine (stream_agrees_iff _ _ (fun _ => "") [spoken] (flushed "") "stop" (by decide) ?_ _ _ ?_).mpr ?_
  · rw [events_spoken_flushed]
    exact parseEither_finish 7 "hi" "stop"
  · rw [events_spoken_flushed, List.flatten_cons, List.flatten_singleton, List.take_append_drop]
    simp [chunk, utf8_append]
  · simp [spoken, flushed]

/-- The worker has no frame for a text that comes without a token, so the client never sees it. -/
theorem flushed_text_lost :
    let chunk := utf8 (sse (.token 7 "hi") ++ sse (.finish "stop"))
    events (fun _ => "") (engineResults [spoken] (flushed "!") "stop") = [.token 7 "hi", .finish "stop"] ∧
      ¬ Agrees (overHttp fun _ => "") (parseEither (.token 7 "hi") (.finish "stop"))
        (.new ⟨some ([chunk].map .ok), []⟩ ⟨0, [1], 8, 0⟩) [spoken, flushed "!"] "stop" := by
  intro chunk
  have sent := events_spoken_flushed "!"
  refine ⟨sent, fun agrees => ?_⟩
  have reads := readsAs_events (fun _ => "") (fun _ => "") [spoken] (flushed "!") (by decide : "stop" ∈ finishReasons)
    (sent ▸ parseEither_finish 7 "hi" "stop") ⟨0, [1], 8, 0⟩
    (show [chunk].flatten = _ by rw [sent, List.flatten_singleton]; simp [chunk, utf8_append])
  have whole := (agrees_iff_of_readsAs reads).mp agrees (flushed "!") (by simp) rfl
  exact absurd whole (by simp [flushed])

end TrtLlm.Wire
