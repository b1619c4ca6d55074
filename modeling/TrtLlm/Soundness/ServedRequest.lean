import TrtLlm.Soundness.RequestContract
import TrtLlm.Soundness.WorkerStream

/-! # A request served end to end

From a request of Dynamo to the items of its stream: the engine converts and sends the request, the worker reads it and
starts the runtime, prints a frame for each token, and the engine reads the frames however HTTP cuts them.
-/

namespace TrtLlm.Wire

/-- What Dynamo sees of the result of a call on a request stream. -/
def streamItem : StreamResult → StreamItem
  | .ok (some output) => some (.ok (toDynamoOutput output))
  | .ok none => none
  | .error error => some (.error (transportError error))

section

variable {τ : Type*} {io : Transport τ} {fromStr : String → Except String Json}

/-- The items of successive polls of a stream that is not stopped. -/
def pollItems (io : Transport τ) (fromStr : String → Except String Json) (s : RequestStream τ) :
    List Millis → List StreamItem
  | [] => []
  | atMs :: times =>
    (pollStream io fromStr false atMs s).1 :: pollItems io fromStr (pollStream io fromStr false atMs s).2 times

theorem pollStream_next (s : RequestStream τ) (atMs : Millis) :
    pollStream io fromStr false atMs s = (streamItem (s.nextAt io fromStr atMs).1, (s.nextAt io fromStr atMs).2) := by
  rw [pollStream, if_neg Bool.false_ne_true]
  split
  next same => rw [same, streamItem]
  next same => rw [same, streamItem]
  next same => rw [same, streamItem]

theorem pollItems_eq (s : RequestStream τ) (times : List Millis) :
    pollItems io fromStr s times = (s.trace io fromStr (times.map .nextAt)).map fun call => streamItem call.2 := by
  induction times generalizing s with
  | nil => rfl
  | cons atMs times ih =>
    rw [pollItems, pollStream_next, ih]
    rfl

end

/-- The item of a token with its text. -/
def tokenItem (piece : TokenId × String) : StreamItem := some (.ok (toDynamoOutput (.token piece.1 piece.2)))

/-- The item that ends a stream. -/
def finishItem (reason : String) : StreamItem := some (.ok { finishReason := some (toFinishReason reason) })

/-- The token ids of an item. -/
def itemTokens : StreamItem → List TokenId
  | some (.ok output) => output.tokenIds
  | _ => []

theorem itemTokens_tokenItem (pieces : List (TokenId × String)) :
    (pieces.map tokenItem).flatMap itemTokens = pieces.map Prod.fst := by
  induction pieces with
  | nil => rfl
  | cons piece pieces ih => exact congrArg (List.cons piece.1) ih

/-- No reason that the worker sends is unknown to the engine. -/
theorem toFinishReason_known {reason : String} (allowed : reason ∈ finishReasons) :
    toFinishReason reason ≠ .error ("unsupported finish reason: " ++ reason) := by
  simp only [finishReasons, List.mem_cons, List.not_mem_nil, or_false] at allowed
  rcases allowed with rfl | rfl | rfl | rfl | rfl | rfl
  all_goals decide

/-- What a served request comes to. -/
structure Served (utf8Error : Bytes → String) (fromStr : String → Except String Json)
    (sent : Except TransportError Unit × HttpTransport) (request : Request) (deltas : List Delta) (reason : String) :
    Prop where
  accepted : sent.1 = .ok ()
  /-- One item for each token, in order, then the finish reason, then the end of the stream. -/
  items : ∀ times : List Millis, (pieces deltas).length < times.length →
    pollItems (overHttp utf8Error) fromStr (.new sent.2 request) times =
      (pieces deltas).map tokenItem ++
        finishItem reason :: List.replicate (times.length - ((pieces deltas).length + 1)) none
  /-- The tokens are the runtime's. -/
  tokens : ((pieces deltas).map tokenItem).flatMap itemTokens = deltas.flatMap Delta.tokenIds
  known : toFinishReason reason ≠ .error ("unsupported finish reason: " ++ reason)

/-- A request without faults is served with the tokens the runtime makes for exactly its controls, however the stream
is cut into chunks. -/
theorem request_served (utf8Error : Bytes → String) (fromStr : String → Except String Json) (render : Json → String)
    (repr : PyValue → String) {start : List ℤ × Kwargs → Except String Unit} {config : DynamoEngineConfig}
    {id : RequestId} {nowMs : Millis} {request : PreprocessedRequest} {converted : SampledRequest}
    (accepted : convertRequest config id nowMs request = .ok converted) (faultless : request.fault config = none)
    (started : start (request.inputs config) = .ok ()) (body : List Delta) (last : Delta) {reason : String}
    (allowed : reason ∈ finishReasons)
    (parses : ∀ payload ∈ events repr (engineResults body last reason),
      fromStr (.ofList (dumps payload)) = .ok (toJson payload)) {chunks : List Bytes}
    (cut : chunks.flatten = (events repr (engineResults body last reason)).flatMap fun payload => utf8 (sse payload)) :
    Served utf8Error fromStr
      ((⟨none, []⟩ : HttpTransport).send fromStr (.ok (generate render start (chunks.map .ok)
        (.ok (TransportRequest.fromRequest converted).toJson)))) converted.toRequest (body ++ [last]) reason := by
  rw [PreprocessedRequest.send_started accepted rfl faultless started]
  refine ⟨rfl, fun times enough => ?_, ?_, toFinishReason_known allowed⟩
  · have reads := readsAs_events utf8Error repr body last allowed parses converted.toRequest cut times enough
    have items := congrArg (List.map streamItem) reads
    rw [List.map_map, List.map_append, List.map_map, List.map_cons, List.map_replicate] at items
    rw [pollItems_eq]
    exact items
  · rw [itemTokens_tokenItem, pieces_fst]

/-- One token, its frame and the last one cut in the middle. -/
theorem request_served_spoken :
    let chunk := utf8 (sse (.token 7 "hi") ++ sse (.finish "stop"))
    let converted : SampledRequest :=
      { id := 0, prompt := [5], maxTokens := 200, arrivalMs := 3,
        params := ⟨200, .finite 0, .finite 1, -1, false, none, []⟩ }
    Served (fun _ => "") (parseEither (.token 7 "hi") (.finish "stop"))
      ((⟨none, []⟩ : HttpTransport).send (parseEither (.token 7 "hi") (.finish "stop"))
        (.ok (generate (fun _ => "") (fun _ => .ok ()) ([chunk.take 20, chunk.drop 20].map .ok)
          (.ok (TransportRequest.fromRequest converted).toJson)))) converted.toRequest [spoken, flushed ""] "stop" := by
  intro chunk converted
  have accepted : convertRequest .default 0 3 { tokenIds := [5] } = .ok converted := rfl
  refine request_served (fun _ => "") _ (fun _ => "") (fun _ => "") accepted (by decide) rfl [spoken] (flushed "")
    (by decide) ?_ ?_
  · rw [events_spoken_flushed]
    exact parseEither_finish 7 "hi" "stop"
  · rw [events_spoken_flushed, List.flatten_cons, List.flatten_singleton, List.take_append_drop]
    simp [chunk, utf8_append]

end TrtLlm.Wire
