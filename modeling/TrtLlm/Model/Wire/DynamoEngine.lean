import TrtLlm.Model.Wire.RequestStream
import TrtLlm.Model.Wire.TransportRequest

/-! # The Dynamo engine

`DynamoLlmEngine` of `crates/dynamo/src/engine.rs` over the request streams of `crates/wire`. Calls of `generate`, the
streams they return and the other calls of Dynamo interleave, so `generate` is cut where it waits for the transport.
`PreprocessedRequest`, `LLMEngineOutput` and `DynamoError` are Dynamo's, with the fields the engine reads or sets.
-/

namespace TrtLlm.Wire

/-! ### Requests -/

structure StopConditions where
  maxTokens : Option ℕ := none
  stop : Option (List String) := none
  stopTokenIds : Option (List TokenId) := none
  stopTokenIdsHidden : Option (List TokenId) := none
  stopTokenIdsVisible : Option (List TokenId) := none
  minTokens : Option ℕ := none
  maxThinkingTokens : Option ℕ := none
  ignoreEos : Option Bool := none
deriving DecidableEq, Repr

/-- Of the two `Bool` fields only whether the option is given is read. -/
structure SamplingOptions where
  n : Option ℕ := none
  bestOf : Option ℕ := none
  presencePenalty : Option FloatValue := none
  frequencyPenalty : Option FloatValue := none
  repetitionPenalty : Option FloatValue := none
  temperature : Option FloatValue := none
  topP : Option FloatValue := none
  topK : Option ℤ := none
  minP : Option FloatValue := none
  useBeamSearch : Option Bool := none
  lengthPenalty : Bool := false
  seed : Option ℤ := none
  includeStopStrInOutput : Option Bool := none
  guidedDecoding : Bool := false
deriving DecidableEq, Repr

/-- Of the `Bool` fields only whether the option is given is read. -/
structure OutputOptions where
  logprobs : Bool := false
  promptLogprobs : Bool := false
  skipSpecialTokens : Option Bool := none
  formattedPrompt : Bool := false
  returnTokensAsTokenIds : Bool := false
deriving DecidableEq, Repr

/-- The fields from `prompt_embeds` on tell only whether they are given. -/
structure PreprocessedRequest where
  tokenIds : List TokenId
  stopConditions : StopConditions := {}
  samplingOptions : SamplingOptions := {}
  outputOptions : OutputOptions := {}
  requestTimestampMs : Option Millis := none
  promptEmbeds : Bool := false
  multiModalData : Bool := false
  multiModalUuids : Bool := false
  mmRoutingInfo : Bool := false
  prefillResult : Bool := false
  encoderResult : Bool := false
  bootstrapInfo : Bool := false
  extraArgs : Bool := false
  mmProcessorKwargs : Bool := false
deriving DecidableEq, Repr

/-- The `BackendError` kinds the engine uses. -/
inductive BackendError where
  | engineShutdown
  | invalidArgument
  | unknown
deriving DecidableEq, Repr

structure DynamoError where
  errorType : BackendError
  message : String
deriving DecidableEq, Repr

def engineError (message : String) : DynamoError := ⟨.engineShutdown, message⟩

def invalidRequest (message : String) : DynamoError := ⟨.invalidArgument, message⟩

def transportError (error : TransportError) : DynamoError := ⟨.unknown, "transport error: " ++ error.message⟩

def rejectUnsupportedRequest (request : PreprocessedRequest) : Except DynamoError Unit :=
  if request.promptEmbeds || request.multiModalData || request.multiModalUuids || request.mmRoutingInfo ||
      request.prefillResult || request.encoderResult || request.bootstrapInfo || request.extraArgs ||
      request.mmProcessorKwargs then
    .error (invalidRequest ("multimodal, disaggregated, or backend extra request fields " ++
      "are not supported by the HTTP worker"))
  else if request.stopConditions.stopTokenIdsVisible.any (· ≠ []) then
    .error (invalidRequest "stop_token_ids_visible is not supported by TensorRT-LLM worker")
  else if request.samplingOptions.n.any (· ≠ 1) || request.samplingOptions.bestOf.any (· ≠ 1) then
    .error (invalidRequest "only one output sequence is supported by the streaming worker")
  else if request.samplingOptions.useBeamSearch = some true then
    .error (invalidRequest "beam search is not supported by the streaming worker")
  else if request.samplingOptions.lengthPenalty || request.samplingOptions.guidedDecoding then
    .error (invalidRequest "length penalty and guided decoding are not supported by the streaming worker")
  else if request.outputOptions.logprobs || request.outputOptions.promptLogprobs ||
      request.outputOptions.formattedPrompt || request.outputOptions.returnTokensAsTokenIds then
    .error (invalidRequest ("requested logprob or formatted-output controls " ++
      "are not supported by the streaming worker"))
  else .ok ()

structure DynamoEngineConfig where
  model : String
  servedModelName : Option String
  defaultMaxTokens : ℕ
deriving DecidableEq, Repr

/-- `DynamoEngineConfig::default`. -/
def DynamoEngineConfig.default : DynamoEngineConfig := ⟨"trtllm", none, 200⟩

namespace PreprocessedRequest

open JsonFields

/-- The listed stop tokens, then the hidden ones. -/
def wireStopTokenIds (request : PreprocessedRequest) : List TokenId :=
  request.stopConditions.stopTokenIds.getD [] ++ request.stopConditions.stopTokenIdsHidden.getD []

/-- The controls that travel in `extra`. -/
def extra (request : PreprocessedRequest) : JsonFields :=
  let stop := request.stopConditions
  let sampling := request.samplingOptions
  []
  |> insertSome "stop" (stop.stop.map fun texts => .list (texts.map .str))
  |> insertSome "stop_token_ids"
    (if request.wireStopTokenIds = [] then none else some (tokensToJson request.wireStopTokenIds))
  |> insertSome "min_tokens" (stop.minTokens.map fun count : ℕ => .int count)
  |> insertSome "thinking_token_budget" (stop.maxThinkingTokens.map fun count : ℕ => .int count)
  |> insertSome "repetition_penalty" (sampling.repetitionPenalty.map FloatValue.toJson)
  |> insertSome "presence_penalty" (sampling.presencePenalty.map FloatValue.toJson)
  |> insertSome "frequency_penalty" (sampling.frequencyPenalty.map FloatValue.toJson)
  |> insertSome "min_p" (sampling.minP.map FloatValue.toJson)
  |> insertSome "include_stop_str_in_output" (sampling.includeStopStrInOutput.map .bool)
  |> insertSome "skip_special_tokens" (request.outputOptions.skipSpecialTokens.map .bool)

/-- A seed below zero is refused. -/
def wireSeed (request : PreprocessedRequest) : Except DynamoError (Option ℕ) :=
  match request.samplingOptions.seed with
  | some seed => if seed < 0 then .error (invalidRequest "sampling_options.seed must be non-negative")
    else .ok (some seed.toNat)
  | none => .ok none

def params (config : DynamoEngineConfig) (request : PreprocessedRequest) (seed : Option ℕ) : SamplingParams where
  maxTokens := request.stopConditions.maxTokens.getD config.defaultMaxTokens
  temperature := request.samplingOptions.temperature.getD (.finite 0)
  topP := request.samplingOptions.topP.getD (.finite 1)
  topK := request.samplingOptions.topK.getD (-1)
  ignoreEos := request.stopConditions.ignoreEos.getD false
  seed
  extra := request.extra

end PreprocessedRequest

/-- The conversion under the next request id, at a time read off the clock. -/
def convertRequest (config : DynamoEngineConfig) (id : RequestId) (nowMs : Millis) (request : PreprocessedRequest) :
    Except DynamoError SampledRequest :=
  match rejectUnsupportedRequest request with
  | .error error => .error error
  | .ok () =>
    match request.wireSeed with
    | .error error => .error error
    | .ok seed => .ok
      { id
        prompt := request.tokenIds
        maxTokens := (request.params config seed).maxTokens
        arrivalMs := request.requestTimestampMs.getD nowMs
        params := request.params config seed }

/-! ### Outputs -/

inductive FinishReason where
  | eoS
  | length
  | stop
  | error (message : String)
  | cancelled
  | contentFilter
deriving DecidableEq, Repr

structure LlmEngineOutput where
  tokenIds : List TokenId := []
  tokens : Option (List (Option String)) := none
  text : Option String := none
  finishReason : Option FinishReason := none
deriving DecidableEq, Repr

/-- How a reason on the wire is reported. -/
def toFinishReason (reason : String) : FinishReason :=
  if reason = "cancelled" then .cancelled
  else if reason = "length" then .length
  else if reason = "eos" then .eoS
  else if reason = "stop" then .stop
  else if reason = "content_filter" then .contentFilter
  else if reason = "error" then .error "worker reported an error"
  else if reason = "timeout" then .error "worker timed out"
  else .error ("unsupported finish reason: " ++ reason)

def toDynamoOutput : StreamOutput → LlmEngineOutput
  | .token token text => { tokenIds := [token], tokens := some [some text], text := some text }
  | .terminal reason => { finishReason := some (toFinishReason reason) }

/-! ### The engine and its streams -/

structure DynamoLlmEngine where
  config : DynamoEngineConfig
  nextRequestId : ℕ
  started : Bool
  active : ℕ
deriving DecidableEq, Repr

/-- The counters are machine words and wrap. -/
def wordSize : ℕ := 2 ^ 64

namespace DynamoLlmEngine

def new (config : DynamoEngineConfig) : DynamoLlmEngine := ⟨config, 0, false, 0⟩

/-- `start`: a second start is refused. -/
def start (engine : DynamoLlmEngine) : Except DynamoError Unit × DynamoLlmEngine :=
  (if engine.started then .error (engineError "engine already started") else .ok (), { engine with started := true })

def cleanup (engine : DynamoLlmEngine) : DynamoLlmEngine := { engine with started := false }

/-- `generate` up to the await: the request is converted and takes the next id. -/
def generate (nowMs : Millis) (request : PreprocessedRequest) (engine : DynamoLlmEngine) :
    Except DynamoError SampledRequest × DynamoLlmEngine :=
  if !engine.started then (.error (engineError "generate called before start"), engine)
  else
    match convertRequest engine.config engine.nextRequestId nowMs request with
    | .error error => (.error error, engine)
    | .ok converted => (.ok converted, { engine with nextRequestId := (engine.nextRequestId + 1) % wordSize })

/-- The guard of a stream is made. -/
def enter (engine : DynamoLlmEngine) : DynamoLlmEngine := { engine with active := (engine.active + 1) % wordSize }

/-- `ActiveGuard::drop`. -/
def leave (engine : DynamoLlmEngine) : DynamoLlmEngine :=
  { engine with active := (engine.active + wordSize - 1) % wordSize }

@[simp] theorem enter_nextRequestId (engine : DynamoLlmEngine) : engine.enter.nextRequestId = engine.nextRequestId := by
  cases engine
  rfl

@[simp] theorem leave_nextRequestId (engine : DynamoLlmEngine) : engine.leave.nextRequestId = engine.nextRequestId := by
  cases engine
  rfl

def isQuiescent (engine : DynamoLlmEngine) : Bool := engine.active = 0

end DynamoLlmEngine

section

variable {τ : Type*}

/-- What polling a stream returns: an item, or its end. -/
abbrev StreamItem := Option (Except DynamoError LlmEngineOutput)

/-- One poll of the stream `generate` returns. -/
def pollStream (io : Transport τ) (fromStr : String → Except String Json) (stopped : Bool) (atMs : Millis)
    (s : RequestStream τ) : StreamItem × RequestStream τ :=
  match if stopped then s.cancelAt io atMs else s.nextAt io fromStr atMs with
  | (.ok (some output), s) => (some (.ok (toDynamoOutput output)), s)
  | (.ok none, s) => (none, s)
  | (.error error, s) => (some (.error (transportError error)), s)

/-- The engine with the calls of `generate` that wait for their transport and the streams handed out. -/
structure EngineWorld (τ : Type*) where
  engine : DynamoLlmEngine
  starting : List SampledRequest
  streams : List (RequestStream τ)
  /-- The streams that have been dropped, as they were left. -/
  dropped : List (RequestStream τ)

namespace EngineWorld

def new (config : DynamoEngineConfig) : EngineWorld τ := ⟨.new config, [], [], []⟩

/-- Dynamo calls `generate`. -/
def generate (nowMs : Millis) (request : PreprocessedRequest) (world : EngineWorld τ) :
    Except DynamoError SampledRequest × EngineWorld τ :=
  match world.engine.generate nowMs request with
  | (.ok converted, engine) => (.ok converted, { world with engine, starting := world.starting ++ [converted] })
  | (.error error, engine) => (.error error, { world with engine })

/-- The transport has answered for the waiting call at `index`. -/
def opened (index : ℕ) (answer : Except TransportError τ) (world : EngineWorld τ) : EngineWorld τ :=
  match world.starting[index]?, answer with
  | none, _ => world
  | some _, .error _ => { world with starting := world.starting.eraseIdx index }
  | some request, .ok transport =>
    { world with
      engine := world.engine.enter
      starting := world.starting.eraseIdx index
      streams := world.streams ++ [.new transport request.toRequest] }

/-- Dynamo gives up a call of `generate` that still waits. -/
def abandon (index : ℕ) (world : EngineWorld τ) : EngineWorld τ :=
  { world with starting := world.starting.eraseIdx index }

/-- The stream at `index` is dropped, and its guard with it. -/
def dropStream (io : Transport τ) (index : ℕ) (world : EngineWorld τ) : EngineWorld τ :=
  match world.streams[index]? with
  | none => world
  | some stream =>
    { world with
      engine := world.engine.leave
      streams := world.streams.eraseIdx index
      dropped := world.dropped ++ [stream.drop io] }

/-- Poll the stream at `index`. At its end the stream is dropped. -/
def poll (io : Transport τ) (fromStr : String → Except String Json) (index : ℕ) (stopped : Bool) (atMs : Millis)
    (world : EngineWorld τ) : StreamItem × EngineWorld τ :=
  match world.streams[index]? with
  | none => (none, world)
  | some stream =>
    let (item, stream) := pollStream io fromStr stopped atMs stream
    let world := { world with streams := world.streams.set index stream }
    (item, if item.isSome then world else world.dropStream io index)

end EngineWorld

end

end TrtLlm.Wire
