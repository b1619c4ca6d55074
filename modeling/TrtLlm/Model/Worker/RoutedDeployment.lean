import TrtLlm.Model.Router.Policy
import TrtLlm.Model.Worker.Deployment

/-! # The deployment with its router

`Deployment` of `crates/worker/src/deployment.rs` with the router that `generate` asks and the `sync_loads` task that keeps
its registry fresh. A pass of the task holds the router's lock while it goes through the workers, so no call is routed
inside a pass, though workers run on.
-/

namespace TrtLlm.Worker

open KvCache Sched Routing

/-- What `sync_loads` reads of a prefill worker. -/
def PrefillWorker.load (worker : PrefillWorker) (now : Millis) : WorkerLoad :=
  { queuedTokens := worker.sched.queuedTokens
    queueDepth := worker.sched.queueDepth
    tokensPerMs := worker.sched.tuning.tokensPerMs
    updatedMs := now }

/-- What it reads of a decode worker. -/
def DecodeWorker.load (worker : DecodeWorker) (now : Millis) : WorkerLoad :=
  { decodeConcurrency := worker.sched.concurrency
    decodeCap := worker.sched.controller.cap
    kvUtilisation := worker.pool.stats.utilisation
    stepMs := worker.sched.controller.ewmaMs
    updatedMs := now }

/-- A worker of the deployment: its role and its place in its list. -/
structure Member where
  role : WorkerRole
  index : ℕ
deriving DecidableEq, Repr

namespace Member

/-- The registry id of a worker. -/
def id : Member → WorkerId
  | ⟨.prefill, i⟩ => i
  | ⟨.decode, j⟩ => decodeIdBase + j

/-- The load a worker reports. -/
def load? (dep : Deployment) (now : Millis) : Member → Option WorkerLoad
  | ⟨.prefill, i⟩ => dep.prefill[i]?.map fun site => site.worker.load now
  | ⟨.decode, j⟩ => dep.decode[j]?.map fun site => site.worker.load now

end Member

/-- The workers in the order `sync_loads` visits them. -/
def members (prefillEngines decodeEngines : ℕ) : List Member :=
  (List.range prefillEngines).map (Member.mk .prefill) ++ (List.range decodeEngines).map (Member.mk .decode)

structure RoutedDeployment where
  dep : Deployment
  router : Router
  /-- The clock of the last pass of `sync_loads` that has begun. -/
  syncedMs : Millis
  /-- The workers the pass has still to visit; while there are any, it holds the router's lock. -/
  unread : List Member

inductive RoutedEvent where
  /-- A call of `generate` with its clock reading and the order in which the registry is iterated. -/
  | generate (req : GenerateRequest) (now : Millis) (orders : WorkerRole → IterOrder)
  | beginSync (now : Millis)
  | syncWorker
  /-- A step of another task. -/
  | inner (event : DeployEvent)

namespace RoutedDeployment

/-- The registry `spawn` starts with. -/
def newRegistry (cfg : DeployConfig) (initialCap : ℚ) (prefillEngines decodeEngines : ℕ) : WorkerRegistry :=
  (List.range decodeEngines).foldl
    (fun registry j => registry.register ⟨decodeIdBase + j, .decode, true, { decodeCap := initialCap }⟩)
    ((List.range prefillEngines).foldl
      (fun registry i => registry.register ⟨i, .prefill, true, { tokensPerMs := cfg.tuning.tokensPerMs }⟩) (.new 60000))

/-- `Deployment::spawn` for a valid configuration. -/
def spawn (cfg : DeployConfig) (initialCap : ℚ) (prefillEngines decodeEngines : ℕ) : Except String RoutedDeployment :=
  if prefillEngines = 0 ∨ decodeEngines = 0 then .error "need at least one prefill and one decode engine"
  else
    .ok
      { dep := .spawn cfg prefillEngines decodeEngines
        router := .new (newRegistry cfg initialCap prefillEngines decodeEngines) ⟨10, cfg.tuning.tokensPerMs, 256⟩
        syncedMs := 0
        unread := [] }

/-- Where a call is sent, or the text it is rejected with. -/
def route (s : RoutedDeployment) (prompt : List TokenId) (now : Millis) (orders : WorkerRole → IterOrder) :
    Except String (WorkerId × WorkerId) :=
  match s.router.routeIn orders prompt now s.dep.ttftMs with
  | .ok decision => .ok (decision.prefill, decision.decode)
  | .error error => .error error.asStr

/-- The pass visits its next worker. -/
def syncWorker (s : RoutedDeployment) : RoutedDeployment :=
  match s.unread with
  | [] => s
  | member :: rest =>
    match member.load? s.dep s.syncedMs with
    | some load =>
      { s with
        router := { s.router with registry := s.router.registry.updateLoad member.id load }
        unread := rest }
    | none => { s with unread := rest }

def step (s : RoutedDeployment) : RoutedEvent → RoutedDeployment
  | .generate req now orders => { s with dep := s.dep.step (.generate req (s.route req.prompt now orders)) }
  | .beginSync now =>
    { s with syncedMs := now, unread := members s.dep.prefill.length s.dep.decode.length }
  | .syncWorker => s.syncWorker
  | .inner event => { s with dep := s.dep.step event }

/-- The router's lock is taken by one task at a time, ids are fresh, and the other steps are no calls. -/
def Enabled (s : RoutedDeployment) : RoutedEvent → Prop
  | .generate req _ _ => s.unread = [] ∧ req.id ∉ s.dep.calls.map (·.id)
  | .beginSync _ => s.unread = []
  | .syncWorker => s.unread ≠ []
  | .inner event => s.dep.Enabled event ∧ ∀ req route, event ≠ .generate req route

end RoutedDeployment

end TrtLlm.Worker
