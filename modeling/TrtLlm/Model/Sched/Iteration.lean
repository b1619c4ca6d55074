import TrtLlm.Model.Core.IterOrder
import TrtLlm.Model.Sched.Decode
import TrtLlm.Model.Sched.Prefill

/-! # The schedulers under any iteration order

A step of the decode scheduler iterates its running map four times when the simulator drives it. Here each of these
iterations has an order of its own; with the stored order everywhere it is the step of `DecodeScheduler`.
-/

namespace TrtLlm.Sched

def PrefillScheduler.rehash (order : IterOrder) (sched : PrefillScheduler) : PrefillScheduler :=
  { sched with queue := HashMap.rehash order sched.queue }

namespace DecodeScheduler

def rehash (order : IterOrder) (sched : DecodeScheduler) : DecodeScheduler :=
  { sched with running := HashMap.rehash order sched.running }

/-- The orders of the iterations of one simulated step. -/
structure StepOrders where
  /-- `keys` for the advanced ids. -/
  advanced : IterOrder
  /-- `values` for the finished ids. -/
  finished : IterOrder
  /-- `values` in `steering_itl_ms`. -/
  ages : IterOrder
  /-- `values` in the loop that flags disagreements. -/
  flags : IterOrder

def StepOrders.stored : StepOrders := ⟨.stored, .stored, .stored, .stored⟩

/-- `onStep` with an order for each of the two iterations it makes. -/
def onStepIn (ages flags : IterOrder) (sched : DecodeScheduler) (now stepMs : Millis)
    (advanced finished : List RequestId) : List RunningSeq × DecodeScheduler :=
  let steer := ((sched.rehash ages).steeringItlMs now).getD stepMs
  let observed := { sched with controller := sched.controller.observe steer sched.concurrency }
  let booked := advanced.foldl (advance now) observed
  let (done, retired) := retire finished booked
  (done, (retired.rehash flags).runningSeqs.foldl flagDone retired)

/-- `onStepSynthetic` with an order for each iteration. -/
def onStepSyntheticIn (orders : StepOrders) (sched : DecodeScheduler) (now stepMs : Millis) :
    List RunningSeq × DecodeScheduler :=
  let advanced := (sched.rehash orders.advanced).running.keys
  let finished :=
    ((sched.rehash orders.finished).runningSeqs.filter fun seq => seq.requestedTokens ≤ seq.tokensEmitted + 1).map (·.id)
  sched.onStepIn orders.ages orders.flags now stepMs advanced finished

theorem onStepSyntheticIn_stored (sched : DecodeScheduler) (now stepMs : Millis) :
    sched.onStepSyntheticIn .stored now stepMs = sched.onStepSynthetic now stepMs := rfl

end DecodeScheduler

end TrtLlm.Sched
