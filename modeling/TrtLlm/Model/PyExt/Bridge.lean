import Mathlib.Data.Finset.Card
import TrtLlm.Model.PyExt.RustScheduler

/-! # The Python side of the capacity decision

`RustBackedCapacityScheduler` of `python/trtllm_rs_bridge/scheduler.py` with `flatten` and `unflatten` of
`_abi.py`. The upstream scheduler and the KV accessor are outside the repository: what they answer at
one call is part of that call's input. The bounded sample lists kept for debugging are left out.
-/

namespace TrtLlm.PyExt

/-- The attributes the bridge reads off one `LlmRequest`. -/
structure LlmRequest where
  requestId : ℤ
  isContextInit : Bool
  promptLen : ℕ
  contextCurrentPosition : ℕ
  numTokens : ℕ
  maxNewTokens : ℕ
deriving DecidableEq, Repr

inductive PyError where
  | keyError (id : ℤ)
  | overflowError
  | indexError
  | valueError (message : String)
  | runtimeError (problems : List String)
deriving DecidableEq, Repr

/-- One call: the active requests, upstream's answer for them, and the free blocks reported. -/
structure ScheduleCall where
  activeRequests : List LlmRequest
  upstreamFitting : List LlmRequest
  upstreamFittingDisaggGenInit : List LlmRequest
  upstreamPaused : List LlmRequest
  kvFreeBlocks : Option ℕ
deriving DecidableEq, Repr

/-- What a capacity scheduler answers. -/
structure CapacityResult where
  fitting : List LlmRequest
  fittingDisaggGenInit : List LlmRequest
  paused : List LlmRequest
deriving DecidableEq, Repr

inductive Mode where
  | shadow
  | live
deriving DecidableEq, Repr

structure RustBackedCapacityScheduler where
  rust : RustScheduler
  mode : Mode
  iteration : ℕ
  steps : ℕ
  agreed : ℕ
  diverged : ℕ
  malformed : ℕ
  emptyWhenWorkAvailable : ℕ
  orderDifferedCount : ℕ
  firstSeenMs : HashMap ℤ Millis
deriving DecidableEq

/-- `req.get_num_tokens(0) - req.prompt_len`, which the boundary refuses as a `u32` when negative. -/
def tokensGeneratedOf (request : LlmRequest) : Except PyError ℕ :=
  if request.promptLen ≤ request.numTokens then .ok (request.numTokens - request.promptLen)
  else .error .overflowError

def flatten (requests : List LlmRequest) (inflight : List ℤ) (kvFreeBlocks : ℕ) (nowMs : Millis)
    (arrivalMs : List Millis) : Except PyError DecideArgs :=
  match requests.mapM tokensGeneratedOf with
  | .error failure => .error failure
  | .ok tokensGenerated =>
    .ok {
      ids := requests.map (·.requestId)
      isContext := requests.map (·.isContextInit)
      promptLens := requests.map (·.promptLen)
      contextDoneTokens := requests.map (·.contextCurrentPosition)
      tokensGenerated
      maxNewTokens := requests.map (·.maxNewTokens)
      arrivalMs
      inflight
      kvFreeBlocks
      nowMs }

def unflatten (requests : List LlmRequest) (pair : List ℕ × List ℕ) : List LlmRequest × List LlmRequest :=
  (pair.1.filterMap (requests[·]?), pair.2.filterMap (requests[·]?))

namespace RustBackedCapacityScheduler

def new (rust : RustScheduler) (mode : Mode) : RustBackedCapacityScheduler where
  rust
  mode
  iteration := 0
  steps := 0
  agreed := 0
  diverged := 0
  malformed := 0
  emptyWhenWorkAvailable := 0
  orderDifferedCount := 0
  firstSeenMs := ∅

/-- The loop of `_arrival_ms_for`: the first reading at which each id was seen, in listing order. -/
def noteArrivals (nowMs : Millis) : List LlmRequest → HashMap ℤ Millis → List Millis × HashMap ℤ Millis
  | [], firstSeen => ([], firstSeen)
  | request :: requests, firstSeen =>
    match firstSeen.lookup request.requestId with
    | some seen =>
      let (arrivals, next) := noteArrivals nowMs requests firstSeen
      (seen :: arrivals, next)
    | none =>
      let (arrivals, next) := noteArrivals nowMs requests (firstSeen.insert request.requestId nowMs)
      (nowMs :: arrivals, next)

/-- Arrival readings for the active requests; ids that disappeared are evicted. -/
def arrivalMsFor (firstSeen : HashMap ℤ Millis) (activeRequests : List LlmRequest) (nowMs : Millis) :
    List Millis × HashMap ℤ Millis :=
  let (arrivals, noted) := noteArrivals nowMs activeRequests firstSeen
  let currentIds := activeRequests.map (·.requestId)
  (arrivals, noted.retain fun id seen => if id ∈ currentIds then some seen else none)

/-- `dict(zip(ids, arrivals))`: a repeated id keeps its last reading. -/
def arrivalByRequestId (activeRequests : List LlmRequest) (arrivals : List Millis) : HashMap ℤ Millis :=
  ((activeRequests.map (·.requestId)).zip arrivals).foldl (fun map entry => map.insert entry.1 entry.2) ∅

def lookupArrival (byId : HashMap ℤ Millis) (request : LlmRequest) : Except PyError Millis :=
  match byId.lookup request.requestId with
  | some arrival => .ok arrival
  | none => .error (.keyError request.requestId)

/-- The part of `schedule_request` up to the crossing: note arrivals, flatten what upstream fitted,
and call `decide`. The first component is `rust_idx_pair` or the exception raised. -/
def crossing (bridge : RustBackedCapacityScheduler) (nowMs : Millis) (call : ScheduleCall) :
    Except PyError (List ℕ × List ℕ) × RustBackedCapacityScheduler :=
  let (arrivals, firstSeenMs) := arrivalMsFor bridge.firstSeenMs call.activeRequests nowMs
  let noted := { bridge with iteration := bridge.iteration + 1, firstSeenMs }
  let byId := arrivalByRequestId call.activeRequests arrivals
  match call.upstreamFitting.mapM (lookupArrival byId) with
  | .error failure => (.error failure, noted)
  | .ok arrivalMs =>
    match flatten call.upstreamFitting [] (call.kvFreeBlocks.getD 0) nowMs arrivalMs with
    | .error failure => (.error failure, noted)
    | .ok args =>
      let (answer, rust) := bridge.rust.decide args
      (answer.mapError .valueError, { noted with rust })

/-- What is wrong with one returned group of indices. -/
def groupProblems (name : String) (n : ℕ) (indices : List ℕ) : List String :=
  (indices.filter (n ≤ ·)).map (fun i => s!"{name}: index {i} out of range for {n} active requests") ++
    if indices.Nodup then [] else [s!"{name}: duplicate index within the group"]

/-- The structural check on a raw decision: the list of problems found. -/
def validate (requests : List LlmRequest) (pair : List ℕ × List ℕ) : List String :=
  groupProblems "fitting" requests.length pair.1 ++ groupProblems "paused" requests.length pair.2 ++
    if (pair.1.toFinset ∪ pair.2.toFinset).card = pair.1.toFinset.card + pair.2.toFinset.card then []
    else ["fitting/paused indices are not disjoint"]

def idsOf (requests : List LlmRequest) : List ℤ := requests.map (·.requestId)

/-- Shadow mode's comparison of the two decisions. -/
def recordComparison (bridge : RustBackedCapacityScheduler) (call : ScheduleCall) (pair : List ℕ × List ℕ) :
    RustBackedCapacityScheduler :=
  let (fitting, paused) := unflatten call.upstreamFitting pair
  if (idsOf call.upstreamFitting).toFinset = (idsOf fitting).toFinset ∧
      (idsOf call.upstreamPaused).toFinset = (idsOf (call.upstreamPaused ++ paused)).toFinset then
    { bridge with
      agreed := bridge.agreed + 1
      orderDifferedCount := bridge.orderDifferedCount +
        if idsOf call.upstreamFitting ≠ idsOf fitting then 1 else 0 }
  else { bridge with diverged := bridge.diverged + 1 }

def upstreamResult (call : ScheduleCall) : CapacityResult :=
  ⟨call.upstreamFitting, call.upstreamFittingDisaggGenInit, call.upstreamPaused⟩

/-- Live mode executes the decision and refuses a malformed one. -/
def liveResult (call : ScheduleCall) (answer : Except PyError (List ℕ × List ℕ)) :
    Except PyError CapacityResult :=
  match answer with
  | .error failure => .error failure
  | .ok pair =>
    if validate call.upstreamFitting pair ≠ [] then
      .error (.runtimeError (validate call.upstreamFitting pair))
    else
      let (fitting, paused) := unflatten call.upstreamFitting pair
      .ok ⟨fitting, call.upstreamFittingDisaggGenInit, call.upstreamPaused ++ paused⟩

/-- Shadow mode executes upstream's answer and counts. An exception from the crossing is counted as
malformed; a missing arrival is raised before the `try`. -/
def shadowResult (bridge : RustBackedCapacityScheduler) (call : ScheduleCall)
    (answer : Except PyError (List ℕ × List ℕ)) :
    Except PyError CapacityResult × RustBackedCapacityScheduler :=
  match answer with
  | .error (.keyError id) => (.error (.keyError id), bridge)
  | .error _ => (.ok (upstreamResult call), { bridge with steps := bridge.steps + 1, malformed := bridge.malformed + 1 })
  | .ok pair =>
    let counted := { bridge with steps := bridge.steps + 1 }
    if validate call.upstreamFitting pair ≠ [] then
      (.ok (upstreamResult call), { counted with malformed := counted.malformed + 1 })
    else
      let idle := if pair.1 = [] ∧ call.upstreamFitting ≠ [] then 1 else 0
      let checked := { counted with emptyWhenWorkAvailable := counted.emptyWhenWorkAvailable + idle }
      (.ok (upstreamResult call), checked.recordComparison call pair)

def scheduleRequest (bridge : RustBackedCapacityScheduler) (nowMs : Millis) (call : ScheduleCall) :
    Except PyError CapacityResult × RustBackedCapacityScheduler :=
  let (answer, next) := bridge.crossing nowMs call
  match bridge.mode with
  | .live => (liveResult call answer, next)
  | .shadow => next.shadowResult call answer

def observe (bridge : RustBackedCapacityScheduler) (stepMs : Millis) (concurrency : ℕ) :
    RustBackedCapacityScheduler :=
  { bridge with rust := bridge.rust.observe stepMs concurrency }

end RustBackedCapacityScheduler

end TrtLlm.PyExt
