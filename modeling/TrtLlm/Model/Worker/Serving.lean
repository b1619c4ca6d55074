import TrtLlm.Model.Router.Policy

/-! # The serving path

`ServingDeployment` of `crates/worker/src/serving.rs`. Calls of `generate` and the stream tasks they spawn interleave,
so each is cut into the steps that hold one lock or lie between two awaits: the snapshot of the counters, the update of
the registry, the routing decision, the start of the transport, the raise of the counter, each token, the end of the
stream, and the lowering of the counter. Times are read off a clock and are arguments of the steps.
-/

namespace TrtLlm.Serving

open Routing

/-- What this side of the wire can see about a worker process without asking it. -/
structure Observed where
  inflight : ℕ := 0
  itlMs : Millis := 0
  samples : ℕ := 0
deriving DecidableEq, Repr

/-- How far a call has come. -/
inductive Phase where
  /-- `refresh_load` has copied the counters. -/
  | snapshotted (observed : HashMap ℕ Observed) (now : Millis)
  /-- `refresh_load` has returned. -/
  | published (now : Millis)
  /-- Routed; the transport is being started. -/
  | starting (id : RequestId) (slot : ℕ)
  /-- The transport has answered, and the counter has not been raised yet. -/
  | started (slot : ℕ)
  | streaming (slot : ℕ) (lastTokenMs : Option Millis)
  /-- The stream has ended, and its task has not lowered the counter yet. -/
  | closing (slot : ℕ)
deriving DecidableEq

structure Call where
  prompt : List TokenId
  phase : Phase
deriving DecidableEq

structure ServingDeployment where
  router : Router
  /-- How many processes there are: process `slot` has the registry ids `2 * slot` and `2 * slot + 1`. -/
  endpoints : ℕ
  observed : HashMap ℕ Observed
  ttftBudgetMs : Millis
  decodeCapHint : ℚ
  nextId : RequestId
  /-- The calls under way, each under a number of its own. -/
  calls : HashMap ℕ Call
deriving DecidableEq

/-- The registry id of a process in one role. -/
def workerId (slot : ℕ) : WorkerRole → WorkerId
  | .prefill => 2 * slot
  | .decode => 2 * slot + 1

namespace Observed

/-- A token that follows another one gives a sample of the interval, smoothed with a short memory. -/
def noteGap (seen : Observed) (gap : Millis) : Observed :=
  { seen with
    itlMs := if seen.samples = 0 then gap else 8 / 10 * seen.itlMs + 2 / 10 * gap
    samples := seen.samples + 1 }

def raise (seen : Observed) : Observed := { seen with inflight := seen.inflight + 1 }

def lower (seen : Observed) : Observed := { seen with inflight := seen.inflight - 1 }

end Observed

/-- `entry(slot).or_default()` with a change. -/
def modify (observed : HashMap ℕ Observed) (slot : ℕ) (change : Observed → Observed) : HashMap ℕ Observed :=
  observed.insert slot (change ((observed.lookup slot).getD {}))

namespace ServingDeployment

/-- Both roles of a process that has just been added. -/
def registerSlot (decodeCapHint : ℚ) (registry : WorkerRegistry) (slot : ℕ) : WorkerRegistry :=
  let entry (role : WorkerRole) : WorkerState := ⟨workerId slot role, role, true, { decodeCap := decodeCapHint }⟩
  (registry.register (entry .prefill)).register (entry .decode)

/-- Build an aggregated deployment: every process serves both phases. -/
def aggregated (endpoints : ℕ) (tuning : RouterTuning) (ttftBudgetMs : Millis) (decodeCapHint : ℚ)
    (staleAfterMs : Millis) : Except Error ServingDeployment :=
  if endpoints = 0 then .error (.engine "no worker endpoints given")
  else
    .ok {
      router := .new ((List.range endpoints).foldl (registerSlot decodeCapHint) (.new staleAfterMs)) tuning
      endpoints
      observed := (List.range endpoints).foldl (fun observed slot => observed.insert slot {}) ∅
      ttftBudgetMs
      decodeCapHint
      nextId := 0
      calls := ∅ }

/-- The process behind a registry id. -/
def slotOf (dep : ServingDeployment) (id : WorkerId) : Option ℕ :=
  if id < 2 * dep.endpoints then some (id / 2) else none

/-- The load a process is published with. -/
def loadOf (dep : ServingDeployment) (observed : HashMap ℕ Observed) (now : Millis) (slot : ℕ) : WorkerLoad :=
  let seen := (observed.lookup slot).getD {}
  { queueDepth := seen.inflight
    decodeConcurrency := seen.inflight
    decodeCap := dep.decodeCapHint
    stepMs := seen.itlMs
    updatedMs := now }

/-- The loop of `refresh_load`; its order cannot be observed, since every id is updated once. -/
def publishLoads (dep : ServingDeployment) (observed : HashMap ℕ Observed) (now : Millis) : WorkerRegistry :=
  (List.range (2 * dep.endpoints)).foldl (fun registry id => registry.updateLoad id (dep.loadOf observed now (id / 2)))
    dep.router.registry

def setPhase (dep : ServingDeployment) (key : ℕ) (call : Call) (phase : Phase) : ServingDeployment :=
  { dep with calls := dep.calls.insert key { call with phase } }

def finish (dep : ServingDeployment) (key : ℕ) : ServingDeployment := { dep with calls := dep.calls.erase key }

/-- The steps of a call and of its stream task. -/
inductive Step where
  | snapshot (prompt : List TokenId) (now : Millis)
  | publish
  | route (orders : WorkerRole → IterOrder)
  | startOk
  | startFailed
  /-- The caller hangs up, which drops a call that awaits its transport. -/
  | dropped
  | raise
  /-- A token; when the receiver is gone the stream ends with it. -/
  | token (time : Millis) (delivered : Bool)
  /-- A terminal event, the end of the body or an error. -/
  | streamEnd
  | lower

/-- One step of call `key`; `none` where the call is not at that point. -/
def step (dep : ServingDeployment) (key : ℕ) : Step → Option ServingDeployment
  | .snapshot prompt now =>
    match dep.calls.lookup key with
    | none => some { dep with calls := dep.calls.insert key ⟨prompt, .snapshotted dep.observed now⟩ }
    | some _ => none
  | .publish =>
    match dep.calls.lookup key with
    | some ⟨prompt, .snapshotted observed now⟩ =>
      some ({ dep with router := { dep.router with registry := dep.publishLoads observed now } }.setPhase key
        ⟨prompt, .snapshotted observed now⟩ (.published now))
    | _ => none
  | .route orders =>
    match dep.calls.lookup key with
    | some ⟨prompt, .published now⟩ =>
      match dep.router.routeIn orders prompt now dep.ttftBudgetMs with
      | .error _ => some (dep.finish key)
      | .ok decision =>
        match dep.slotOf decision.decode with
        | none => some (dep.finish key)
        | some slot =>
          some ({ dep with nextId := dep.nextId + 1 }.setPhase key ⟨prompt, .published now⟩ (.starting dep.nextId slot))
    | _ => none
  | .startOk =>
    match dep.calls.lookup key with
    | some ⟨prompt, .starting id slot⟩ => some (dep.setPhase key ⟨prompt, .starting id slot⟩ (.started slot))
    | _ => none
  | .startFailed | .dropped =>
    match dep.calls.lookup key with
    | some ⟨_, .starting _ _⟩ => some (dep.finish key)
    | _ => none
  | .raise =>
    match dep.calls.lookup key with
    | some ⟨prompt, .started slot⟩ =>
      some ({ dep with observed := modify dep.observed slot .raise }.setPhase key ⟨prompt, .started slot⟩
        (.streaming slot none))
    | _ => none
  | .token time delivered =>
    match dep.calls.lookup key with
    | some ⟨prompt, .streaming slot last⟩ =>
      let observed := match last with
        | none => dep.observed
        | some previous => modify dep.observed slot (.noteGap · (time - previous))
      let phase : Phase := if delivered then .streaming slot (some time) else .closing slot
      some ({ dep with observed }.setPhase key ⟨prompt, .streaming slot last⟩ phase)
    | _ => none
  | .streamEnd =>
    match dep.calls.lookup key with
    | some ⟨prompt, .streaming slot last⟩ => some (dep.setPhase key ⟨prompt, .streaming slot last⟩ (.closing slot))
    | _ => none
  | .lower =>
    match dep.calls.lookup key with
    | some ⟨_, .closing slot⟩ => some ({ dep with observed := modify dep.observed slot .lower }.finish key)
    | _ => none

end ServingDeployment

end TrtLlm.Serving
