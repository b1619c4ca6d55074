import TrtLlm.Model.Frontend.Server
import TrtLlm.Soundness.ClientRuns

/-! # What a client of the server gets

A client of the stream reads events until one tells it to stop; the other kind of client gets one body. Whatever the
deployment puts on the channel, both learn the same. Over the mock deployment the server gives each request an id of its
own, so that the clients do not read each other's tokens, and a request that ends is answered with the whole of its
script.
-/

namespace TrtLlm.Frontend

open Wire Worker Engine Machine

/-! ### Reading a stream -/

inductive Ending where
  | finished (reason : String)
  | failed (message : String)
  /-- The stream ended without saying why. -/
  | cut
deriving DecidableEq, Repr

/-- What a client has when it stops reading. -/
structure Reading where
  pieces : List String
  ending : Ending
deriving DecidableEq, Repr

def ChatCompletionChunk.pieces (chunk : ChatCompletionChunk) : List String :=
  chunk.choices.filterMap fun choice => choice.delta.content

def ChatCompletionChunk.finishReason (chunk : ChatCompletionChunk) : Option String :=
  chunk.choices.findSome? fun choice => choice.finishReason

/-- A client of the OpenAI protocol reads until a choice has a finish reason or an error comes. -/
def read : List SseData → Reading
  | [] => ⟨[], .cut⟩
  | .error message :: _ => ⟨[], .failed message⟩
  | .chunk chunk :: events =>
    match chunk.finishReason with
    | some reason => ⟨chunk.pieces, .finished reason⟩
    | none => ⟨chunk.pieces ++ (read events).pieces, (read events).ending⟩

/-- The body that says what the client has read. -/
def Reading.body (reading : Reading) (id : RequestId) (model : String) (created promptTokens : ℕ) : Response :=
  let text := reading.pieces.foldl (· ++ ·) ""
  let completionTokens := u32 reading.pieces.length
  match reading.ending with
  | .finished reason => collected id model created promptTokens text completionTokens reason
  | .failed message => .failed 500 message
  | .cut => collected id model created promptTokens text completionTokens "length"

theorem u32_succ (n : ℕ) : u32 (u32 n + 1) = u32 (n + 1) := Nat.mod_add_mod n (2 ^ 32) 1

section

variable (id : RequestId) (model : String) (created promptTokens : ℕ)

theorem read_token (token : TokenId) (text : String) (chunks : List StreamChunk) :
    read (sseResponse id model created (.token token text :: chunks)) =
      ⟨text :: (read (sseResponse id model created chunks)).pieces,
        (read (sseResponse id model created chunks)).ending⟩ := rfl

theorem read_done (reason : String) (chunks : List StreamChunk) :
    read (sseResponse id model created (.done reason :: chunks)) = ⟨[], .finished reason⟩ := rfl

theorem read_error (message : String) (chunks : List StreamChunk) :
    read (sseResponse id model created (.error message :: chunks)) = ⟨[], .failed message⟩ := rfl

/-- The loop with what it has collected is the body of the rest, put behind it. -/
theorem collectLoop_eq_body (front : List String) (chunks : List StreamChunk) :
    collectLoop id model created promptTokens (front.foldl (· ++ ·) "") (u32 front.length) chunks =
      Reading.body ⟨front ++ (read (sseResponse id model created chunks)).pieces,
        (read (sseResponse id model created chunks)).ending⟩ id model created promptTokens := by
  induction chunks generalizing front with
  | nil =>
    rw [collectLoop, show read (sseResponse id model created []) = ⟨[], .cut⟩ from rfl, List.append_nil]
    rfl
  | cons chunk chunks ih =>
    cases chunk with
    | token token text =>
      have longer : u32 (u32 front.length + 1) = u32 (front ++ [text]).length := by
        rw [u32_succ, List.length_append, List.length_singleton]
      have text_longer : front.foldl (· ++ ·) "" ++ text = (front ++ [text]).foldl (· ++ ·) "" := by
        rw [List.foldl_append, List.foldl_cons, List.foldl_nil]
      rw [collectLoop, longer, text_longer, ih, read_token, List.append_assoc, List.singleton_append]
    | done reason =>
      rw [collectLoop, read_done, List.append_nil]
      rfl
    | error message =>
      rw [collectLoop, read_error]
      rfl

/-- The body of an answer is what a client of the stream would have read. -/
theorem collectResponse_eq_body (chunks : List StreamChunk) :
    collectResponse id model created promptTokens chunks =
      (read (sseResponse id model created chunks)).body id model created promptTokens :=
  collectLoop_eq_body id model created promptTokens [] chunks

/-- Nothing behind an end is read. -/
theorem read_script (text : List TokenId → String) (maxTokens : ℕ) (later : List StreamChunk) :
    read (sseResponse id model created (script text id maxTokens ++ later)) =
      ⟨(fakeToken id 0 :: (List.range' 2 (maxTokens - 1)).map (fakeToken id)).map fun token => text [token],
        .finished "length"⟩ := by
  have tokens : ∀ tokens : List TokenId,
      read (sseResponse id model created (tokens.map (textChunk text) ++ .done "length" :: later)) =
        ⟨tokens.map fun token => text [token], .finished "length"⟩ := by
    intro tokens
    induction tokens with
    | nil => exact read_done id model created "length" later
    | cons token tokens ih => rw [List.map_cons, List.cons_append, textChunk, read_token, ih, List.map_cons]
  have listed : script text id maxTokens ++ later =
      (fakeToken id 0 :: (List.range' 2 (maxTokens - 1)).map (fakeToken id)).map (textChunk text) ++
        .done "length" :: later := by
    rw [script, tokensUpTo, List.map_cons, List.map_map, List.append_assoc]
    rfl
  rw [listed, tokens]

end

/-! ### Runs of the server -/

namespace AppState

variable {backend : Backend} {cfg : DeployConfig} {prefillEngines decodeEngines : ℕ} {labels : List AppEvent}
  {s : AppState}

/-- The server in front of a deployment of mock engines. -/
def system (backend : Backend) (cfg : DeployConfig) (prefillEngines decodeEngines : ℕ) : System AppState AppEvent :=
  .ofFun (· = new (.spawn cfg prefillEngines decodeEngines)) Enabled (step backend)

/-- After `count` steps the deployment has had a run of its own, its calls are the requests passed on, and their ids have
been given out. -/
structure Fronted (cfg : DeployConfig) (prefillEngines decodeEngines count : ℕ) (s : AppState) : Prop where
  inner : ∃ events, Run (MockDeployment.system cfg prefillEngines decodeEngines) events s.deployment
  calls : s.deployment.dep.calls = s.passed.map GenerateRequest.toWorker
  room : s.nextId ≤ count
  given : ∀ gen ∈ s.passed, gen.id < s.nextId
  distinct : (s.passed.map (·.id)).Nodup

theorem toGenerate_id {id : RequestId} {nowMs : Millis} {post : Post} {gen : GenerateRequest}
    (made : post.toGenerate backend id nowMs = .ok gen) : gen.id = id := by
  cases post with
  | chat request =>
    rw [Post.toGenerate] at made
    split at made
    · cases made
    · cases made
      rfl
  | completion request =>
    cases made
    rfl

theorem Fronted.post {count : ℕ} (fronted : Fronted cfg prefillEngines decodeEngines count s) (bound : count + 1 < 2 ^ 64)
    {gen : GenerateRequest} (id : gen.id = s.nextId) {route : Except String (WorkerId × WorkerId)}
    (routed : ∀ decision, route = .ok decision → decision.1 < s.deployment.dep.prefill.length ∧
      decodeIdBase ≤ decision.2 ∧ decision.2 < decodeIdBase + s.deployment.dep.decode.length) :
    Fronted cfg prefillEngines decodeEngines (count + 1)
      { nextId := (s.nextId + 1) % 2 ^ 64
        deployment := s.deployment.step (.generate gen.toWorker route)
        passed := s.passed ++ [gen] } := by
  obtain ⟨events, inner⟩ := fronted.inner
  have room := fronted.room
  have unwrapped : (s.nextId + 1) % 2 ^ 64 = s.nextId + 1 :=
    Nat.mod_eq_of_lt ((Nat.succ_le_succ room).trans_lt bound)
  have sameIds : s.deployment.dep.calls.map (·.id) = s.passed.map (·.id) := by
    rw [fronted.calls, List.map_map]
    rfl
  have fresh : gen.id ∉ s.passed.map (·.id) := by
    intro again
    obtain ⟨other, listed, same⟩ := List.mem_map.mp again
    exact (fronted.given other listed).ne (same.trans id)
  have enabled : s.deployment.dep.Enabled (.generate gen.toWorker route) :=
    ⟨by rw [sameIds]; exact fresh, routed⟩
  refine ⟨⟨_, inner.apply (.generate gen.toWorker route) ⟨enabled, trivial⟩⟩, ?_, ?_, fun other listed => ?_, ?_⟩
  · rw [List.map_append, ← fronted.calls]
    exact (Deployment.generate_called enabled).calls
  · rw [unwrapped]
    exact Nat.succ_le_succ room
  · rw [unwrapped]
    rcases List.mem_append.mp listed with old | new
    · exact Nat.lt_succ_of_lt (fronted.given other old)
    · rw [List.mem_singleton.mp new, id]
      exact Nat.lt_succ_self _
  · rw [List.map_append, List.map_singleton]
    exact List.nodup_append.mpr ⟨fronted.distinct, List.nodup_singleton _, fun id listed other single same =>
      fresh (by rwa [← List.mem_singleton.mp single, ← same])⟩

theorem Fronted.inside {count : ℕ} (fronted : Fronted cfg prefillEngines decodeEngines count s) {event : MockEvent}
    (enabled : s.deployment.Enabled event) (uncalled : ∀ req route, event ≠ .generate req route) :
    Fronted cfg prefillEngines decodeEngines (count + 1) { s with deployment := s.deployment.step event } := by
  obtain ⟨events, inner⟩ := fronted.inner
  refine ⟨⟨_, inner.apply event enabled⟩, ?_, Nat.le_succ_of_le fronted.room, fronted.given, fronted.distinct⟩
  have internal : Deployment.Internal (s.deployment.event event) := by
    cases event with
    | generate req route => exact absurd rfl (uncalled req route)
    | _ => trivial
  exact (Deployment.step_spec (MockDeployment.run_streaming inner).1.tracked.sound internal enabled.1).1.calls.trans
    fronted.calls

theorem Fronted.step {count : ℕ} (fronted : Fronted cfg prefillEngines decodeEngines count s) (bound : count + 1 < 2 ^ 64)
    {event : AppEvent} (enabled : s.Enabled event) :
    Fronted cfg prefillEngines decodeEngines (count + 1) (s.step backend event) := by
  cases event with
  | post post nowMs route =>
    rw [AppState.step]
    split
    · exact ⟨fronted.inner, fronted.calls, Nat.le_succ_of_le fronted.room, fronted.given, fronted.distinct⟩
    next gen made => exact fronted.post bound (toGenerate_id made) enabled
  | inner event => exact fronted.inside enabled.1 enabled.2

theorem fronted_of_run (run : Run (system backend cfg prefillEngines decodeEngines) labels s)
    (bound : labels.length < 2 ^ 64) : Fronted cfg prefillEngines decodeEngines labels.length s := by
  refine run.induct (P := fun labels s => labels.length < 2 ^ 64 →
    Fronted cfg prefillEngines decodeEngines labels.length s) ?_ ?_ bound
  · rintro _ rfl -
    exact ⟨⟨[], .start rfl⟩, rfl, Nat.le_refl 0, fun _ none => (nomatch none), List.nodup_nil⟩
  · rintro labels s label _ ih ⟨enabled, rfl⟩ bound
    rw [List.length_append, List.length_singleton] at bound ⊢
    exact (ih (Nat.lt_of_succ_lt bound)).step bound enabled

/-- How the server answers a request that it has passed on. -/
structure Answered (backend : Backend) (text : List TokenId → String) (s : AppState) (gen : GenerateRequest) :
    Prop where
  /-- Nothing but the request's own tokens is on its channel. -/
  front : s.deployment.dep.streams gen.id <+: script text gen.id gen.params.maxTokens
  /-- Once the end is on the channel a client of the stream has read every token, -/
  stream : gen.stream = true → ∀ reason, .done reason ∈ s.deployment.dep.streams gen.id → ∀ model created later,
    ∃ events, dispatch backend created gen model (.ok (s.deployment.dep.streams gen.id ++ later)) = .sse events ∧
      read events = ⟨(fakeToken gen.id 0 :: (List.range' 2 (gen.params.maxTokens - 1)).map (fakeToken gen.id)).map
        fun token => text [token], .finished "length"⟩
  /-- and any other client has the same in one body. -/
  body : gen.stream = false → ∀ reason, .done reason ∈ s.deployment.dep.streams gen.id → ∀ model created later,
    dispatch backend created gen model (.ok (s.deployment.dep.streams gen.id ++ later)) =
      Reading.body ⟨(fakeToken gen.id 0 :: (List.range' 2 (gen.params.maxTokens - 1)).map (fakeToken gen.id)).map
        fun token => text [token], .finished "length"⟩ gen.id (model.getD backend.modelName) created
          (u32 gen.prompt.length)

/-- In every run of the server each client gets its own answer: ids are not shared, and both kinds of client end with
the same text. -/
theorem run_answered (run : Run (system backend cfg prefillEngines decodeEngines) labels s)
    (bound : labels.length < 2 ^ 64) :
    (s.passed.map (·.id)).Nodup ∧ ∀ gen ∈ s.passed, Answered backend cfg.tokenizer s gen := by
  have fronted := fronted_of_run run bound
  obtain ⟨events, inner⟩ := fronted.inner
  obtain ⟨streaming, tokenizer⟩ := MockDeployment.run_streaming inner
  refine ⟨fronted.distinct, fun gen listed => ?_⟩
  have called : gen.toWorker ∈ s.deployment.dep.calls := by
    rw [fronted.calls]
    exact List.mem_map_of_mem listed
  have front := streaming.received called
  rw [tokenizer] at front
  refine ⟨front, fun streamed reason ended model created later => ?_, fun whole reason ended model created later => ?_⟩
  · obtain ⟨-, sent⟩ := MockDeployment.whole_of_done front ended
    refine ⟨_, if_pos streamed, ?_⟩
    rw [show s.deployment.dep.streams gen.id = _ from sent]
    exact read_script gen.id _ created cfg.tokenizer gen.params.maxTokens later
  · obtain ⟨-, sent⟩ := MockDeployment.whole_of_done front ended
    refine (if_neg (by rw [whole]; exact Bool.false_ne_true)).trans ?_
    rw [show s.deployment.dep.streams gen.id = _ from sent, collectResponse_eq_body]
    exact congrArg (fun reading : Reading => reading.body gen.id _ created _)
      (read_script gen.id _ created cfg.tokenizer gen.params.maxTokens later)

/-- A tokenizer that knows one token. -/
def oneToken : Backend := ⟨"mock", fun _ => [5]⟩

/-- A post without messages and one for two tokens, over one mock worker of each kind. -/
theorem run_answered_completion :
    let s := ([.post (.chat { messages := [] }) 0 (.ok (0, 1000)),
      .post (.completion { prompt := "hi", maxTokens := some 2 }) 0 (.ok (0, 1000)), .inner (.prefillRound 0 1 0 1 1),
      .inner .pumpPrefill, .inner (.decodeRound 0 1 2 1 id), .inner .pumpDecode, .inner .pumpDecode] :
        List AppEvent).foldl (step oneToken) (new (.spawn Deployment.smallConfig 1 1))
    s.deployment.dep.streams 0 = [.token (fakeToken 0 0) "", .token (fakeToken 0 2) "", .done "length"] ∧
      (s.passed.map (·.id)).Nodup ∧ ∀ gen ∈ s.passed, Answered oneToken Deployment.smallConfig.tokenizer s gen := by
  intro s
  have start : Run (system oneToken Deployment.smallConfig 1 1) [] (new (.spawn Deployment.smallConfig 1 1)) :=
    .start rfl
  have rejected := start.apply (.post (.chat { messages := [] }) 0 (.ok (0, 1000))) (by rintro _ ⟨rfl⟩; decide)
  have called := rejected.apply (.post (.completion { prompt := "hi", maxTokens := some 2 }) 0 (.ok (0, 1000)))
    (by rintro _ ⟨rfl⟩; decide)
  have prefilled := called.apply (.inner (.prefillRound 0 1 0 1 1))
    ⟨⟨⟨⟨_, rfl, rfl⟩, MockDeployment.samplesCompleted_prefillCall _ _ _ _⟩, trivial⟩, by rintro _ _ ⟨⟩⟩
  have pumped := prefilled.apply (.inner .pumpPrefill) ⟨⟨trivial, trivial⟩, by rintro _ _ ⟨⟩⟩
  have decoded := pumped.apply (.inner (.decodeRound 0 1 2 1 id))
    ⟨⟨(Option.any_eq_true _ _).mp (by decide +kernel), fun ids => .refl ids⟩, by rintro _ _ ⟨⟩⟩
  have final := (decoded.apply (.inner .pumpDecode) ⟨⟨trivial, trivial⟩, by rintro _ _ ⟨⟩⟩).apply (.inner .pumpDecode)
    ⟨⟨trivial, trivial⟩, by rintro _ _ ⟨⟩⟩
  exact ⟨by decide +kernel, run_answered final (by decide)⟩

end AppState

end TrtLlm.Frontend
