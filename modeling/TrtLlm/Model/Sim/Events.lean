import Mathlib.Data.Prod.Lex
import TrtLlm.Model.Core.Config

/-! # The simulator's event heap

`Event` and `Scheduled` of `crates/sim/src/events.rs`. The binary heap is a list of the scheduled events; popping it
takes out the earliest one, by time and then by insertion number. Worker indices are bounded by the topology, so an
event can only name a worker that exists.
-/

namespace TrtLlm.Sim

/-- What can happen in a simulation of a topology. -/
inductive Event (topology : TopologyConfig) where
  /-- A closed-loop client issues its next request. -/
  | arrival (client : ℕ)
  /-- A prefill worker finished the batch it was running. -/
  | prefillDone (worker : Fin topology.prefillWorkers)
  /-- A request's KV has landed on its decode worker. -/
  | kvArrived (id : RequestId) (worker : Fin topology.decodeWorkers)
  /-- A decode worker completed one forward pass. -/
  | decodeStep (worker : Fin topology.decodeWorkers)
deriving DecidableEq, Repr

variable {topology : TopologyConfig}

/-- Heap entry ordered by time, then by insertion number. -/
structure Scheduled (topology : TopologyConfig) where
  time : Millis
  seq : ℕ
  event : Event topology
deriving DecidableEq, Repr

def Scheduled.key (entry : Scheduled topology) : Millis ×ₗ ℕ := toLex (entry.time, entry.seq)

/-- `BinaryHeap::pop`: the earliest entry and the others. -/
def popEarliest : List (Scheduled topology) → Option (Scheduled topology × List (Scheduled topology))
  | [] => none
  | entry :: heap =>
    match popEarliest heap with
    | none => some (entry, [])
    | some (earliest, rest) =>
      if entry.key ≤ earliest.key then some (entry, earliest :: rest) else some (earliest, entry :: rest)

end TrtLlm.Sim
