import TrtLlm.Model.Engine.Mock
import TrtLlm.Model.Worker.Deployment

/-! # The deployment over mock engines

`Deployment::spawn` with `MockEngine` workers. The engines answer every call, so the only inputs left are the
callers, the clock, the cost of each call, and the order in which a decode engine visits its map. Tasks run
until the deployment is shut down, so none of them ends here.
-/

namespace TrtLlm.Worker

open KvCache Sched Engine

/-- A deployment with the engine behind each decode worker. Prefill engines keep no state. -/
structure MockDeployment where
  dep : Deployment
  engines : List MockEngine

inductive MockEvent where
  | generate (req : GenerateRequest) (route : Except String (WorkerId × WorkerId))
  | prefillRound (i drained : ℕ) (now elapsedMs doneAt : Millis)
  | decodeRound (j drained : ℕ) (now elapsedMs : Millis) (arrange : List RequestId → List RequestId)
  | pumpPrefill
  | pumpDecode
  | hangUp (id : RequestId)

namespace MockDeployment

def spawn (cfg : DeployConfig) (prefillEngines decodeEngines : ℕ) : MockDeployment :=
  ⟨.spawn cfg prefillEngines decodeEngines, .replicate decodeEngines .new⟩

/-- The engine's part of a prefill pass. -/
def prefillCall (drained : ℕ) (now elapsedMs doneAt : Millis) : PrefillCall :=
  ⟨drained, now, fun work => .ok (MockEngine.prefill elapsedMs work), doneAt⟩

/-- The engine's part of a decode pass: sequences attached in the pass take part in its step. -/
def decodeCall (engine : MockEngine) (drained : ℕ) (now elapsedMs : Millis)
    (arrange : List RequestId → List RequestId) : DecodeCall where
  drained
  add _ := .ok ()
  step added := .ok ((added.foldl MockEngine.addDecodeSeq engine).decodeStep arrange elapsedMs).1
  now

/-- The engine after a decode pass: what was added, stepped if the worker had anything running, less what the
worker retired. -/
def engineAfter (engine : MockEngine) (site : DecodeSite) (call : DecodeCall) (elapsedMs : Millis)
    (arrange : List RequestId → List RequestId) : MockEngine :=
  let report := (site.worker.round (site.input call)).1
  let attached := report.added.foldl MockEngine.addDecodeSeq engine
  let stepped := if (site.worker.admitted (site.input call)).2.sched.concurrency = 0 then attached
    else (attached.decodeStep arrange elapsedMs).2
  (report.retired.map (·.id)).foldl MockEngine.removeSeq stepped

/-- The deployment's own step. -/
def event (s : MockDeployment) : MockEvent → DeployEvent
  | .generate req route => .generate req route
  | .prefillRound i drained now elapsedMs doneAt => .prefillRound i (prefillCall drained now elapsedMs doneAt)
  | .decodeRound j drained now elapsedMs arrange =>
    .decodeRound j (decodeCall (s.engines.getD j .new) drained now elapsedMs arrange)
  | .pumpPrefill => .pumpPrefill
  | .pumpDecode => .pumpDecode
  | .hangUp id => .hangUp id

/-- The engines after a step; only decode passes touch them. -/
def enginesAfter (s : MockDeployment) : MockEvent → List MockEngine
  | .decodeRound j drained now elapsedMs arrange =>
    match s.dep.decode[j]?, s.engines[j]? with
    | some site, some engine =>
      s.engines.set j (engineAfter engine site (decodeCall engine drained now elapsedMs arrange) elapsedMs arrange)
    | _, _ => s.engines
  | _ => s.engines

def step (s : MockDeployment) (e : MockEvent) : MockDeployment := ⟨s.dep.step (s.event e), s.enginesAfter e⟩

/-- Enabled in the deployment, and a decode engine visits each of its sequences once. -/
def Enabled (s : MockDeployment) (e : MockEvent) : Prop :=
  s.dep.Enabled (s.event e) ∧
    match e with
    | .decodeRound _ _ _ _ arrange => ∀ ids, (arrange ids).Perm ids
    | _ => True

end MockDeployment

end TrtLlm.Worker
