import TrtLlm.Model.Worker.DecodeWorker
import TrtLlm.Model.Worker.PrefillWorker

/-! # The deployment as a message-passing system

`crates/worker/src/deployment.rs`: the inflight map, the worker tasks with their job channels, the two
result channels and the two pumps that serve clients. A step is one `generate` call, one pass of a worker's
loop, one message handled by a pump, a client dropping its receiver, or a task ending, which drops its receiver
and what it held. Channels are unbounded here: the source's depth only delays a sender. A pass drains as many
queued jobs as its label says, since more may arrive while it runs. The routing decision is an input, and
each client's stream is kept with the system so that what was delivered can be stated.
-/

namespace TrtLlm.Worker

open KvCache Sched Engine

/-- `DECODE_ID_BASE`. -/
def decodeIdBase : ℕ := 1000

/-- One streamed increment. -/
inductive StreamChunk where
  | token (token : TokenId) (text : String)
  | done (finishReason : String)
  | error (message : String)
deriving DecidableEq, Repr

namespace StreamChunk

/-- The stream's last chunk. -/
def isTerminal : StreamChunk → Bool
  | .token _ _ => false
  | .done _ => true
  | .error _ => true

end StreamChunk

structure GenerateRequest where
  id : RequestId
  prompt : List TokenId
  maxTokens : ℕ
  arrivalMs : Millis
deriving DecidableEq, Repr

/-- An accepted request; its sender is the client stream of the same id. -/
structure Inflight where
  decodeWorker : ℕ
  maxTokens : ℕ
deriving DecidableEq, Repr

/-- A prefill task with its job channel. -/
structure PrefillSite where
  worker : PrefillWorker
  jobs : List PrefillJob := []
  alive : Bool := true
deriving DecidableEq

/-- A decode task with its job channel. -/
structure DecodeSite where
  worker : DecodeWorker
  jobs : List DecodeAdmit := []
  alive : Bool := true
deriving DecidableEq

structure Deployment where
  tokenizer : List TokenId → String
  ttftMs : Millis
  prefill : List PrefillSite
  decode : List DecodeSite
  inflight : HashMap RequestId Inflight := ∅
  prefillDone : List PrefillComplete := []
  prefillDoneOpen : Bool := true
  decodeEvents : List DecodeEvent := []
  decodeEventsOpen : Bool := true
  /-- Chunks each client has been sent while it listened. -/
  streams : RequestId → List StreamChunk := fun _ => []
  /-- Clients that dropped their receiver. -/
  hungUp : List RequestId := []
  /-- Every `generate` call so far, and the ids of those that returned an error. -/
  calls : List GenerateRequest := []
  refused : List RequestId := []

/-- What the workers are built from. -/
structure DeployConfig where
  tuning : PrefillTuning
  itlMs : Millis
  controller : ItlController
  draftTokens : Option ℕ
  numBlocks : ℕ
  blockSize : ℕ
  watermark : ℚ
  ttftMs : Millis
  tokenizer : List TokenId → String

/-- The environment's part of one prefill pass. -/
structure PrefillCall where
  drained : ℕ
  now : Millis
  answer : PrefillWork → Except Error PrefillOutcome
  doneAt : Millis

/-- The environment's part of one decode pass. -/
structure DecodeCall where
  drained : ℕ
  add : DecodeSeqSpec → Except Error Unit
  step : List DecodeSeqSpec → Except Error DecodeStepOutcome
  now : Millis

inductive DeployEvent where
  | generate (req : GenerateRequest) (route : Except String (WorkerId × WorkerId))
  | prefillRound (i : ℕ) (call : PrefillCall)
  | decodeRound (j : ℕ) (call : DecodeCall)
  | pumpPrefill
  | pumpDecode
  | hangUp (id : RequestId)
  | stopPrefill (i : ℕ)
  | stopDecode (j : ℕ)
  | closePrefillDone
  | closeDecodeEvents

namespace PrefillSite

/-- The inputs of a pass at this site. -/
def input (site : PrefillSite) (call : PrefillCall) (outOpen : Bool) : PrefillRound :=
  ⟨site.jobs.take call.drained, call.now, call.answer, call.doneAt, outOpen⟩

/-- The task has ended: its receiver is dropped, with the jobs in it. -/
def stop (site : PrefillSite) : PrefillSite := { site with jobs := [], alive := false }

/-- One pass of the task; a failed send ends it. -/
def round (site : PrefillSite) (call : PrefillCall) (outOpen : Bool) : List PrefillComplete × PrefillSite :=
  let out := site.worker.round (site.input call outOpen)
  let next : PrefillSite := { site with worker := out.2, jobs := site.jobs.drop call.drained }
  (out.1.sent, if out.1.returned then next.stop else next)

end PrefillSite

namespace DecodeSite

def input (site : DecodeSite) (call : DecodeCall) : DecodeRound :=
  ⟨site.jobs.take call.drained, call.add, call.step, call.now⟩

def stop (site : DecodeSite) : DecodeSite := { site with jobs := [], alive := false }

def round (site : DecodeSite) (call : DecodeCall) (outOpen : Bool) : List DecodeEvent × DecodeSite :=
  let out := site.worker.round (site.input call)
  let next : DecodeSite := { site with worker := out.2, jobs := site.jobs.drop call.drained }
  if !outOpen ∧ out.1.events ≠ [] then ([], next.stop) else (out.1.events, next)

end DecodeSite

namespace Deployment

/-- Start the workers of a deployment. -/
def spawn (cfg : DeployConfig) (prefillEngines decodeEngines : ℕ) : Deployment :=
  let sched := DecodeScheduler.new cfg.itlMs cfg.controller
  let tuned := match cfg.draftTokens with
    | some draft => sched.setTokensPerStep (1 + draft)
    | none => sched
  { tokenizer := cfg.tokenizer
    ttftMs := cfg.ttftMs
    prefill := .replicate prefillEngines ⟨.new cfg.tuning cfg.numBlocks cfg.blockSize cfg.watermark, [], true⟩
    decode := .replicate decodeEngines ⟨.new tuned cfg.numBlocks cfg.blockSize cfg.watermark, [], true⟩ }

/-- Send on a client's stream; the answer says whether its receiver was still there. -/
def send (s : Deployment) (id : RequestId) (chunk : StreamChunk) : Bool × Deployment :=
  if id ∈ s.hungUp then (false, s)
  else (true, { s with streams := Function.update s.streams id (s.streams id ++ [chunk]) })

def drop (s : Deployment) (id : RequestId) : Deployment := { s with inflight := s.inflight.erase id }

def tokenChunk (s : Deployment) (token : TokenId) : StreamChunk := .token token (s.tokenizer [token])

/-- `Deployment::generate`. A rejected route never enters the map; a failed send leaves the entry in it and
drops the receiver that was never returned. -/
def generate (s : Deployment) (req : GenerateRequest) (route : Except String (WorkerId × WorkerId)) : Deployment :=
  let called := { s with calls := s.calls ++ [req] }
  match route with
  | .error _ => { called with refused := s.refused ++ [req.id] }
  | .ok decision =>
    let entered :=
      { called with inflight := s.inflight.insert req.id ⟨decision.2 - decodeIdBase, req.maxTokens⟩ }
    match s.prefill[decision.1]? with
    | some site =>
      if site.alive then
        let job : PrefillJob := ⟨req.id, req.prompt, req.arrivalMs + s.ttftMs, req.arrivalMs⟩
        { entered with prefill := s.prefill.set decision.1 { site with jobs := site.jobs ++ [job] } }
      else { entered with refused := s.refused ++ [req.id], hungUp := s.hungUp ++ [req.id] }
    | none => entered

def prefillRound (s : Deployment) (i : ℕ) (call : PrefillCall) : Deployment :=
  match s.prefill[i]? with
  | some site =>
    { s with
      prefill := s.prefill.set i (site.round call s.prefillDoneOpen).2
      prefillDone := s.prefillDone ++ (site.round call s.prefillDoneOpen).1 }
  | none => s

def decodeRound (s : Deployment) (j : ℕ) (call : DecodeCall) : Deployment :=
  match s.decode[j]? with
  | some site =>
    { s with
      decode := s.decode.set j (site.round call s.decodeEventsOpen).2
      decodeEvents := s.decodeEvents ++ (site.round call s.decodeEventsOpen).1 }
  | none => s

/-- Hand a sequence to its decode worker, or tell the client that the worker is gone. -/
def handOff (s : Deployment) (entry : Inflight) (job : DecodeAdmit) : Deployment :=
  match s.decode[entry.decodeWorker]? with
  | some site =>
    if site.alive then
      { s with decode := s.decode.set entry.decodeWorker { site with jobs := site.jobs ++ [job] } }
    else (s.send job.id (.error "decode worker gone")).2.drop job.id
  | none => s

/-- One message of `pump_prefill`. -/
def deliverFirst (s : Deployment) (done : PrefillComplete) : Deployment :=
  match s.inflight.lookup done.id with
  | none => s
  | some entry =>
    let sent := s.send done.id (s.tokenChunk done.firstToken)
    if !sent.1 then s.drop done.id
    else if entry.maxTokens ≤ 1 then (sent.2.send done.id (.done "length")).2.drop done.id
    else sent.2.handOff entry ⟨done.id, done.firstToken, done.promptLen, entry.maxTokens, done.finishedAtMs⟩

def pumpPrefill (s : Deployment) : Deployment :=
  match s.prefillDone with
  | [] => s
  | done :: rest => { s with prefillDone := rest }.deliverFirst done

/-- One message of `pump_decode`. -/
def deliver (s : Deployment) : DecodeEvent → Deployment
  | .token id token =>
    if id ∈ s.inflight then
      let sent := s.send id (s.tokenChunk token)
      if sent.1 then sent.2 else s.drop id
    else s
  | .finished id _ => if id ∈ s.inflight then ((s.drop id).send id (.done "length")).2 else s

def pumpDecode (s : Deployment) : Deployment :=
  match s.decodeEvents with
  | [] => s
  | event :: rest => { s with decodeEvents := rest }.deliver event

/-- A prefill task ends. -/
def stopPrefill (s : Deployment) (i : ℕ) : Deployment :=
  match s.prefill[i]? with
  | some site => { s with prefill := s.prefill.set i site.stop }
  | none => s

/-- A decode task ends. -/
def stopDecode (s : Deployment) (j : ℕ) : Deployment :=
  match s.decode[j]? with
  | some site => { s with decode := s.decode.set j site.stop }
  | none => s

def step (s : Deployment) : DeployEvent → Deployment
  | .generate req route => s.generate req route
  | .prefillRound i call => s.prefillRound i call
  | .decodeRound j call => s.decodeRound j call
  | .pumpPrefill => s.pumpPrefill
  | .pumpDecode => s.pumpDecode
  | .hangUp id => { s with hungUp := s.hungUp ++ [id] }
  | .stopPrefill i => s.stopPrefill i
  | .stopDecode j => s.stopDecode j
  | .closePrefillDone => { s with prefillDone := [], prefillDoneOpen := false }
  | .closeDecodeEvents => { s with decodeEvents := [], decodeEventsOpen := false }

/-- `PrefillOutcome::first_tokens` as documented: one token for each sequence whose prefill completed in the
batch, and no others. -/
def SamplesCompleted (answer : PrefillWork → Except Error PrefillOutcome) : Prop :=
  ∀ work outcome, answer work = .ok outcome →
    (outcome.firstTokens.map Prod.fst).Perm ((work.filter (·.completes)).map (·.id))

/-- Ids are fresh, routes name workers of the deployment, only live tasks take passes, and only clients that
called can hang up. -/
def Enabled (s : Deployment) : DeployEvent → Prop
  | .generate req route => req.id ∉ s.calls.map (·.id) ∧
      ∀ decision, route = .ok decision → decision.1 < s.prefill.length ∧
        decodeIdBase ≤ decision.2 ∧ decision.2 < decodeIdBase + s.decode.length
  | .prefillRound i call => (∃ site, s.prefill[i]? = some site ∧ site.alive = true) ∧ SamplesCompleted call.answer
  | .decodeRound j _ => ∃ site, s.decode[j]? = some site ∧ site.alive = true
  | .hangUp id => id ∈ s.calls.map (·.id)
  | _ => True

end Deployment

end TrtLlm.Worker
