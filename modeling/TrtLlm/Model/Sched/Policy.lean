import Mathlib.Algebra.Order.Field.Rat
import Mathlib.Data.List.Sort
import Mathlib.Data.Prod.Lex
import TrtLlm.Model.Core.Types

/-! # Queue ordering policies

`order_jobs` and `moore_hodgson` of `crates/sched/src/policy.rs`. The stable `sort_by` calls are
`List.insertionSort` on the lexicographic comparison of the two keys.
-/

namespace TrtLlm.Sched

/-- `PrefillPolicy` of `crates/core/src/config.rs`. -/
inductive PrefillPolicy where
  | fcfs
  | edf
  | mooreHodgson
deriving DecidableEq, Repr

/-- One unit of prefill work as the ordering policy sees it. -/
structure Job where
  id : RequestId
  arrivalMs : Millis
  deadlineMs : Millis
  serviceMs : Millis
deriving DecidableEq, Repr

/-- The requests to run in order, and those given up on, which run behind them. -/
structure JobOrdering where
  onTime : List RequestId
  demoted : List RequestId
deriving DecidableEq, Repr

namespace Job

def arrivalLe (a b : Job) : Prop := toLex (a.arrivalMs, a.id) ≤ toLex (b.arrivalMs, b.id)

instance : DecidableRel arrivalLe := fun a b =>
  inferInstanceAs (Decidable (toLex (a.arrivalMs, a.id) ≤ toLex (b.arrivalMs, b.id)))

def deadlineLe (a b : Job) : Prop := toLex (a.deadlineMs, a.id) ≤ toLex (b.deadlineMs, b.id)

instance : DecidableRel deadlineLe := fun a b =>
  inferInstanceAs (Decidable (toLex (a.deadlineMs, a.id) ≤ toLex (b.deadlineMs, b.id)))

/-- The eviction order: longest first, ties to the later deadline, then to the larger id. -/
def evictionKey (job : Job) : Millis ×ₗ Millis ×ₗ RequestId :=
  toLex (job.serviceMs, toLex (job.deadlineMs, job.id))

end Job

/-- Position and value of the last maximum, as `max_by` over `enumerate` has it. -/
def longest : List Job → Option (ℕ × Job)
  | [] => none
  | job :: jobs =>
    match longest jobs with
    | none => some (0, job)
    | some (i, best) => if job.evictionKey ≤ best.evictionKey then some (i + 1, best) else some (0, job)

/-- The state of the Moore-Hodgson walk. -/
structure Walk where
  accepted : List Job
  demoted : List Job
  clock : Millis
deriving DecidableEq, Repr

/-- Accept the next job by deadline; if the schedule goes late, evict the longest one accepted. -/
def Walk.visit (walk : Walk) (job : Job) : Walk :=
  let accepted := walk.accepted ++ [job]
  let clock := walk.clock + job.serviceMs
  if job.deadlineMs < clock then
    match longest accepted with
    | some (victim, removed) =>
      ⟨accepted.eraseIdx victim, walk.demoted ++ [removed], clock - removed.serviceMs⟩
    | none => ⟨accepted, walk.demoted, clock⟩
  else ⟨accepted, walk.demoted, clock⟩

def mooreHodgson (jobs : List Job) (now : Millis) : JobOrdering :=
  let walk := (jobs.insertionSort Job.deadlineLe).foldl Walk.visit ⟨[], [], now⟩
  ⟨walk.accepted.map (·.id), (walk.demoted.insertionSort Job.deadlineLe).map (·.id)⟩

/-- Order a queue under a policy. -/
def orderJobs (jobs : List Job) (now : Millis) : PrefillPolicy → JobOrdering
  | .fcfs => ⟨(jobs.insertionSort Job.arrivalLe).map (·.id), []⟩
  | .edf => ⟨(jobs.insertionSort Job.deadlineLe).map (·.id), []⟩
  | .mooreHodgson => mooreHodgson jobs now

end TrtLlm.Sched
