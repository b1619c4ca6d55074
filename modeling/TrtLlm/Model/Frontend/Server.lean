import TrtLlm.Model.Wire.TransportRequest
import TrtLlm.Model.Worker.MockDeployment

/-! # The OpenAI frontend

`crates/frontend/src/api.rs` and `crates/frontend/src/server.rs`. A receiver is the list of chunks it yields until its
channel closes; what `serde` prints of a payload is the payload. `created` is the clock.
-/

namespace TrtLlm.Frontend

open Wire Worker

/-! ### Requests -/

structure ChatMessage where
  role : String
  content : String
deriving DecidableEq, Repr

structure ChatCompletionRequest where
  model : Option String := none
  messages : List ChatMessage
  maxTokens : Option ℕ := none
  maxCompletionTokens : Option ℕ := none
  temperature : Option FloatValue := none
  topP : Option FloatValue := none
  stream : Option Bool := none
  seed : Option ℕ := none
  ignoreEos : Option Bool := none
deriving DecidableEq, Repr

structure CompletionRequest where
  model : Option String := none
  prompt : String
  maxTokens : Option ℕ := none
  temperature : Option FloatValue := none
  stream : Option Bool := none
  ignoreEos : Option Bool := none
deriving DecidableEq, Repr

/-- `SamplingParams::default`. -/
def defaultSampling : SamplingParams := ⟨200, .finite 0, .finite 1, -1, true, none, []⟩

namespace ChatCompletionRequest

def flattenPrompt (request : ChatCompletionRequest) : String :=
  "\n".intercalate (request.messages.map fun message => message.role ++ ": " ++ message.content)

def sampling (request : ChatCompletionRequest) : SamplingParams :=
  { defaultSampling with
    maxTokens := (request.maxCompletionTokens.or request.maxTokens).getD 200
    temperature := request.temperature.getD (.finite 0)
    topP := request.topP.getD (.finite 1)
    ignoreEos := request.ignoreEos.getD true
    seed := request.seed }

end ChatCompletionRequest

/-- A request as the engine side sees it. -/
structure GenerateRequest where
  id : RequestId
  prompt : List TokenId
  promptText : String
  params : SamplingParams
  arrivalMs : Millis
  stream : Bool

/-- What the deployment reads of it. -/
def GenerateRequest.toWorker (request : GenerateRequest) : Worker.GenerateRequest :=
  ⟨request.id, request.prompt, request.params.maxTokens, request.arrivalMs⟩

/-! ### Responses -/

structure Delta where
  role : Option String
  content : Option String
deriving DecidableEq, Repr

structure StreamChoice where
  index : ℕ
  delta : Delta
  finishReason : Option String
deriving DecidableEq, Repr

structure ChatCompletionChunk where
  id : String
  object : String
  created : ℕ
  model : String
  choices : List StreamChoice
deriving DecidableEq, Repr

/-- The data of one event. -/
inductive SseData where
  | chunk (chunk : ChatCompletionChunk)
  | error (message : String)
deriving DecidableEq, Repr

structure Usage where
  promptTokens : ℕ
  completionTokens : ℕ
  totalTokens : ℕ
deriving DecidableEq, Repr

structure ChatMessageOut where
  role : String
  content : String
deriving DecidableEq, Repr

structure ChatChoice where
  index : ℕ
  message : ChatMessageOut
  finishReason : String
deriving DecidableEq, Repr

structure ChatCompletionResponse where
  id : String
  object : String
  created : ℕ
  model : String
  choices : List ChatChoice
  usage : Usage
deriving DecidableEq, Repr

inductive Response where
  | json (body : ChatCompletionResponse)
  | sse (events : List SseData)
  /-- A status and the message of an error body. -/
  | failed (status : ℕ) (message : String)
deriving DecidableEq, Repr

/-- The event of one chunk. -/
def sseData (id : RequestId) (model : String) (created : ℕ) : StreamChunk → SseData
  | .token _ text =>
    .chunk ⟨showRequestId id, "chat.completion.chunk", created, model, [⟨0, ⟨none, some text⟩, none⟩]⟩
  | .done reason =>
    .chunk ⟨showRequestId id, "chat.completion.chunk", created, model, [⟨0, ⟨none, none⟩, some reason⟩]⟩
  | .error message => .error message

def sseResponse (id : RequestId) (model : String) (created : ℕ) (chunks : List StreamChunk) : List SseData :=
  chunks.map (sseData id model created)

/-- `u32` arithmetic wraps. -/
def u32 (n : ℕ) : ℕ := n % 2 ^ 32

/-- The body once the loop over the chunks is left. -/
def collected (id : RequestId) (model : String) (created promptTokens : ℕ) (text : String) (completionTokens : ℕ)
    (finishReason : String) : Response :=
  .json
    { id := showRequestId id
      object := "chat.completion"
      created
      model
      choices := [⟨0, ⟨"assistant", text⟩, finishReason⟩]
      usage := ⟨promptTokens, completionTokens, u32 (promptTokens + completionTokens)⟩ }

/-- The loop of `collect_response`, with the text and the count so far. -/
def collectLoop (id : RequestId) (model : String) (created promptTokens : ℕ) (text : String) (completionTokens : ℕ) :
    List StreamChunk → Response
  | [] => collected id model created promptTokens text completionTokens "length"
  | .token _ more :: chunks =>
    collectLoop id model created promptTokens (text ++ more) (u32 (completionTokens + 1)) chunks
  | .done reason :: _ => collected id model created promptTokens text completionTokens reason
  | .error message :: _ => .failed 500 message

def collectResponse (id : RequestId) (model : String) (created promptTokens : ℕ) (chunks : List StreamChunk) :
    Response := collectLoop id model created promptTokens "" 0 chunks

/-! ### The endpoints -/

/-- What the frontend needs from whatever is behind it, apart from `generate`. -/
structure Backend where
  modelName : String
  encode : String → List TokenId

/-- `dispatch`, when `generate` answers with an error's text or with a receiver. -/
def dispatch (backend : Backend) (created : ℕ) (gen : GenerateRequest) (model : Option String)
    (answer : Except String (List StreamChunk)) : Response :=
  match answer with
  | .error text => .failed 503 text
  | .ok chunks =>
    if gen.stream then .sse (sseResponse gen.id (model.getD backend.modelName) created chunks)
    else collectResponse gen.id (model.getD backend.modelName) created (u32 gen.prompt.length) chunks

/-- The body of a post. -/
inductive Post where
  | chat (request : ChatCompletionRequest)
  | completion (request : CompletionRequest)
deriving DecidableEq, Repr

namespace Post

/-- The request for the engine, or the message of a bad request; only the former takes an id. -/
def toGenerate (backend : Backend) (id : RequestId) (nowMs : Millis) : Post → Except String GenerateRequest
  | .chat request =>
    if request.messages = [] then .error "messages must not be empty"
    else .ok ⟨id, backend.encode request.flattenPrompt, request.flattenPrompt, request.sampling, nowMs,
      request.stream.getD false⟩
  | .completion request =>
    .ok ⟨id, backend.encode request.prompt, request.prompt,
      { defaultSampling with
        maxTokens := request.maxTokens.getD 200
        temperature := request.temperature.getD (.finite 0)
        ignoreEos := request.ignoreEos.getD true }, nowMs, request.stream.getD false⟩

end Post

/-- `AppState` over the in-process deployment, with the requests it has passed on. -/
structure AppState where
  nextId : ℕ
  deployment : MockDeployment
  passed : List GenerateRequest

inductive AppEvent where
  /-- A post, and where the router sends its request. -/
  | post (post : Post) (nowMs : Millis) (route : Except String (WorkerId × WorkerId))
  /-- A step of the deployment on its own. -/
  | inner (event : MockEvent)

namespace AppState

def new (deployment : MockDeployment) : AppState := ⟨0, deployment, []⟩

def step (backend : Backend) (s : AppState) : AppEvent → AppState
  | .post post nowMs route =>
    match post.toGenerate backend s.nextId nowMs with
    | .error _ => s
    | .ok gen =>
      { nextId := (s.nextId + 1) % 2 ^ 64
        deployment := s.deployment.step (.generate gen.toWorker route)
        passed := s.passed ++ [gen] }
  | .inner event => { s with deployment := s.deployment.step event }

/-- Routes name workers of the deployment; a step of its own is enabled there and is no call. -/
def Enabled (s : AppState) : AppEvent → Prop
  | .post _ _ route => ∀ decision, route = .ok decision → decision.1 < s.deployment.dep.prefill.length ∧
      decodeIdBase ≤ decision.2 ∧ decision.2 < decodeIdBase + s.deployment.dep.decode.length
  | .inner event => s.deployment.Enabled event ∧ ∀ req route, event ≠ .generate req route

end AppState

end TrtLlm.Frontend
