import Mathlib.Algebra.Order.Field.Rat
import Mathlib.Data.List.Sort
import TrtLlm.Model.Core.IterOrder

/-! # The worker registry

`WorkerRegistry` of `crates/router/src/registry.rs`. A worker's endpoint and tensor-parallel degree are not read by
routing and are left out, and so are the load fields no modeled function reads.
-/

namespace TrtLlm.Routing

inductive WorkerRole where
  | prefill
  | decode
deriving DecidableEq, Repr

/-- What a worker reports about itself. -/
structure WorkerLoad where
  queuedTokens : ℕ := 0
  queueDepth : ℕ := 0
  decodeConcurrency : ℕ := 0
  decodeCap : ℚ := 0
  kvUtilisation : ℚ := 0
  tokensPerMs : ℚ := 0
  stepMs : Millis := 0
  updatedMs : Millis := 0
deriving DecidableEq, Repr

structure WorkerState where
  id : WorkerId
  role : WorkerRole
  healthy : Bool
  load : WorkerLoad
deriving DecidableEq, Repr

/-- Free decode slots under the worker's own admission cap. -/
def WorkerState.decodeHeadroom (worker : WorkerState) : ℚ :=
  max (worker.load.decodeCap - worker.load.decodeConcurrency) 0

structure WorkerRegistry where
  workers : HashMap WorkerId WorkerState
  staleAfterMs : Millis
deriving DecidableEq

namespace WorkerRegistry

def new (staleAfterMs : Millis) : WorkerRegistry := ⟨∅, staleAfterMs⟩

def register (registry : WorkerRegistry) (worker : WorkerState) : WorkerRegistry :=
  { registry with workers := registry.workers.insert worker.id worker }

def deregister (registry : WorkerRegistry) (id : WorkerId) : WorkerRegistry :=
  { registry with workers := registry.workers.erase id }

def updateLoad (registry : WorkerRegistry) (id : WorkerId) (load : WorkerLoad) : WorkerRegistry :=
  match registry.workers.lookup id with
  | some worker => { registry with workers := registry.workers.insert id { worker with load, healthy := true } }
  | none => registry

/-- Whether a worker can serve a role now. -/
def isLive (registry : WorkerRegistry) (role : WorkerRole) (now : Millis) (worker : WorkerState) : Bool :=
  worker.role = role ∧ worker.healthy = true ∧ now - worker.load.updatedMs ≤ registry.staleAfterMs

/-- Healthy workers of one role in id order. -/
def live (registry : WorkerRegistry) (role : WorkerRole) (now : Millis) : List WorkerState :=
  ((registry.workers.entries.map Sigma.snd).filter (registry.isLive role now)).insertionSort fun a b => a.id ≤ b.id

def rehash (order : IterOrder) (registry : WorkerRegistry) : WorkerRegistry :=
  { registry with workers := HashMap.rehash order registry.workers }

end WorkerRegistry

end TrtLlm.Routing
