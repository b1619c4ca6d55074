import TrtLlm.Model.PyExt.Bridge

/-! # The bridge over any answer of `decide`

`schedule_request` of `python/trtllm_rs_bridge/scheduler.py` again, with what `decide` answers as a parameter:
it may raise, and it may return any pair of integer lists. Python indexes lists with negative numbers too, so the
indices are integers until they have been checked.
-/

namespace TrtLlm.PyExt

/-- Two lists of indices that nobody has checked. -/
abbrev RawPair := List ℤ × List ℤ

/-- `items[i]`: a negative index counts from the end, and one out of range raises. -/
def pyItem (items : List LlmRequest) (i : ℤ) : Except PyError LlmRequest :=
  let place := if i < 0 then i + items.length else i
  if place < 0 then .error .indexError
  else match items[place.toNat]? with
    | some item => .ok item
    | none => .error .indexError

def unflattenRaw (requests : List LlmRequest) (pair : RawPair) : Except PyError (List LlmRequest × List LlmRequest) :=
  match pair.1.mapM (pyItem requests), pair.2.mapM (pyItem requests) with
  | .ok fitting, .ok paused => .ok (fitting, paused)
  | .error failure, _ => .error failure
  | .ok _, .error failure => .error failure

namespace RustBackedCapacityScheduler

/-- How the bridge meets `decide`: its answer and the scheduler object it leaves. -/
abbrev Decider := RustScheduler → DecideArgs → Except PyError RawPair × RustScheduler

/-- The part of `schedule_request` up to the decision. The outer exception is raised before the `try` of shadow
mode, the inner one inside it: a count that is no `u32` is refused when `decide` is called. -/
def crossingWith (decider : Decider) (bridge : RustBackedCapacityScheduler) (nowMs : Millis) (call : ScheduleCall) :
    Except PyError (Except PyError RawPair) × RustBackedCapacityScheduler :=
  let (arrivals, firstSeenMs) := arrivalMsFor bridge.firstSeenMs call.activeRequests nowMs
  let noted := { bridge with iteration := bridge.iteration + 1, firstSeenMs }
  let byId := arrivalByRequestId call.activeRequests arrivals
  match call.upstreamFitting.mapM (lookupArrival byId) with
  | .error failure => (.error failure, noted)
  | .ok arrivalMs =>
    match flatten call.upstreamFitting [] (call.kvFreeBlocks.getD 0) nowMs arrivalMs with
    | .error failure => (.ok (.error failure), noted)
    | .ok args =>
      let (answer, rust) := decider bridge.rust args
      (.ok answer, { noted with rust })

def groupProblemsRaw (name : String) (n : ℕ) (indices : List ℤ) : List String :=
  (indices.filter fun i : ℤ => ¬ (0 ≤ i ∧ i < n)).map (fun i => s!"{name}: index {i} out of range for {n} active requests") ++
    if indices.Nodup then [] else [s!"{name}: duplicate index within the group"]

def validateRaw (requests : List LlmRequest) (pair : RawPair) : List String :=
  groupProblemsRaw "fitting" requests.length pair.1 ++ groupProblemsRaw "paused" requests.length pair.2 ++
    if (pair.1.toFinset ∪ pair.2.toFinset).card = pair.1.toFinset.card + pair.2.toFinset.card then []
    else ["fitting/paused indices are not disjoint"]

/-- What `_record_comparison` does with the two requests lists behind a decision. -/
def compare (bridge : RustBackedCapacityScheduler) (call : ScheduleCall) (fitting paused : List LlmRequest) :
    RustBackedCapacityScheduler :=
  if (idsOf call.upstreamFitting).toFinset = (idsOf fitting).toFinset ∧
      (idsOf call.upstreamPaused).toFinset = (idsOf (call.upstreamPaused ++ paused)).toFinset then
    { bridge with
      agreed := bridge.agreed + 1
      orderDifferedCount := bridge.orderDifferedCount +
        if idsOf call.upstreamFitting ≠ idsOf fitting then 1 else 0 }
  else { bridge with diverged := bridge.diverged + 1 }

def liveResultRaw (call : ScheduleCall) (answer : Except PyError RawPair) :
    Except PyError CapacityResult :=
  match answer with
  | .error failure => .error failure
  | .ok pair =>
    if validateRaw call.upstreamFitting pair ≠ [] then
      .error (.runtimeError (validateRaw call.upstreamFitting pair))
    else
      match unflattenRaw call.upstreamFitting pair with
      | .error failure => .error failure
      | .ok (fitting, paused) => .ok ⟨fitting, call.upstreamFittingDisaggGenInit, call.upstreamPaused ++ paused⟩

/-- The comparison runs outside the `try`, so an index error there would leave the method. -/
def shadowResultRaw (bridge : RustBackedCapacityScheduler) (call : ScheduleCall) (answer : Except PyError RawPair) :
    Except PyError CapacityResult × RustBackedCapacityScheduler :=
  match answer with
  | .error _ => (.ok (upstreamResult call), { bridge with steps := bridge.steps + 1, malformed := bridge.malformed + 1 })
  | .ok pair =>
    let counted := { bridge with steps := bridge.steps + 1 }
    if validateRaw call.upstreamFitting pair ≠ [] then
      (.ok (upstreamResult call), { counted with malformed := counted.malformed + 1 })
    else
      let idle := if pair.1 = [] ∧ call.upstreamFitting ≠ [] then 1 else 0
      let checked := { counted with emptyWhenWorkAvailable := counted.emptyWhenWorkAvailable + idle }
      match unflattenRaw call.upstreamFitting pair with
      | .error failure => (.error failure, checked)
      | .ok (fitting, paused) => (.ok (upstreamResult call), checked.compare call fitting paused)

def scheduleRequestWith (decider : Decider) (bridge : RustBackedCapacityScheduler) (nowMs : Millis)
    (call : ScheduleCall) : Except PyError CapacityResult × RustBackedCapacityScheduler :=
  match crossingWith decider bridge nowMs call with
  | (.error failure, next) => (.error failure, next)
  | (.ok answer, next) =>
    match bridge.mode with
    | .live => (liveResultRaw call answer, next)
    | .shadow => next.shadowResultRaw call answer

/-- The extension's own `decide`. -/
def rustDecider : Decider := fun sched args =>
  let (answer, next) := sched.decide args
  match answer with
  | .error message => (.error (.valueError message), next)
  | .ok (fitting, paused) => (.ok (fitting.map Int.ofNat, paused.map Int.ofNat), next)

end RustBackedCapacityScheduler

end TrtLlm.PyExt
