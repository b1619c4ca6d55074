import Mathlib.Data.Finset.Card
import TrtLlm.Model.PyExt.RustScheduler
import TrtLlm.ToMathlib.AListRetain

/-! # The shadow shim

`ShadowCapacityScheduler` of `scripts/trtllm_rs_shadow.py` over the module's `ShadowState`. What upstream answers and
how many blocks it reports free are inputs of a call. The sample reservoirs (random, and read by the report only) and
the report itself are left out.
-/

namespace TrtLlm.PyExt.Shadow

/-- The attributes the shim reads off one engine request, as `int(...)` gives them. -/
structure EngineRequest where
  requestId : ℤ
  promptLen : ℤ
  isContextInitState : Bool
  contextCurrentPosition : ℤ
  maxBeamNumTokens : ℤ
  maxNewTokens : ℤ
deriving DecidableEq, Repr

/-- The three lists of the capacity scheduler's contract. -/
structure Schedule where
  fitting : List EngineRequest
  fittingDisaggGenInit : List EngineRequest
  paused : List EngineRequest
deriving DecidableEq, Repr

/-- One call of `schedule_request`. -/
structure ShadowCall where
  activeRequests : List EngineRequest
  upstream : Schedule
  freeBlocks : ℤ
  nowMs : Millis
deriving DecidableEq, Repr

/-- When a request was first seen generating, when it last advanced, and how far. -/
structure TokenProgress where
  firstMs : Millis
  lastMs : Millis
  produced : ℤ
  wanted : ℤ
deriving DecidableEq, Repr

/-- What the crossing raises: an integer too wide for the signature, or arrays of unequal length. -/
inductive CrossingError where
  | overflowError
  | valueError (message : String)
deriving DecidableEq, Repr

structure ShadowState where
  steps : ℕ := 0
  diverged : ℕ := 0
  malformed : ℕ := 0
  emptyWhenWorkAvailable : ℕ := 0
  errors : ℕ := 0
  disabled : Bool := false
  upstreamAdmitted : ℕ := 0
  rustAdmitted : ℕ := 0
  liveSteps : ℕ := 0
  liveFallbacks : ℕ := 0
  candidatesSeen : ℕ := 0
  firstSeenMs : HashMap ℤ Millis := ∅
  lastCallMs : Option Millis := none
  observeCalls : ℕ := 0
  tokenProgress : HashMap ℤ TokenProgress := ∅
  iterationMsEwma : Millis := 0
  steerItlMsEwma : Millis := 0
  advancingItlMsEwma : Millis := 0
  generatingSeen : ℕ := 0
  advancedSeen : ℕ := 0
  completed : ℕ := 0
  stranded : ℕ := 0
  strandedTokensShort : ℤ := 0
  reasonFirstError : Option CrossingError := none
deriving DecidableEq

/-- The environment variables `TRTLLM_RS_LIVE` and `TRTLLM_RS_SHADOW_MAX_ERRORS`. -/
structure Settings where
  live : Bool
  maxErrors : ℕ
deriving DecidableEq, Repr

structure ShadowCapacityScheduler where
  rust : RustScheduler
  state : ShadowState
deriving DecidableEq

/-- Python's `round(x, 3)`: to the nearest thousandth, ties to even. -/
def round3 (x : ℚ) : ℚ :=
  let scaled := x * 1000
  let low := ⌊scaled⌋
  let up := scaled - low > 1 / 2 ∨ (scaled - low = 1 / 2 ∧ low % 2 = 1)
  (if up then low + 1 else low) / 1000

/-- `_pct`: the sample at a quantile, rounded. -/
def pct (values : List ℚ) (q : ℚ) : Option ℚ :=
  if values = [] then none
  else
    let ordered := values.insertionSort (· ≤ ·)
    some (round3 (ordered.getD (min (ordered.length - 1) ⌊q * ordered.length⌋₊) 0))

/-- The moving averages of the report: the first sample as it is, then a tenth of each new one. -/
def blend (ewma sample : Millis) : Millis := if ewma = 0 then sample else 9 / 10 * ewma + 1 / 10 * sample

/-- `max(0, max_beam_num_tokens - prompt_len)`. -/
def EngineRequest.generated (request : EngineRequest) : ℤ := max 0 (request.maxBeamNumTokens - request.promptLen)

namespace ShadowState

/-- The interval since the last call, kept for comparison only. -/
def tick (state : ShadowState) (nowMs : Millis) : ShadowState :=
  { state with
    iterationMsEwma := match state.lastCallMs with
      | none => state.iterationMsEwma
      | some last => blend state.iterationMsEwma (nowMs - last)
    lastCallMs := some nowMs }

/-- `first_seen_ms.setdefault` for each request in turn, with the readings it returns. -/
def noteArrivals (nowMs : Millis) : List EngineRequest → HashMap ℤ Millis → List Millis × HashMap ℤ Millis
  | [], firstSeen => ([], firstSeen)
  | request :: requests, firstSeen =>
    match firstSeen.lookup request.requestId with
    | some seen =>
      let (arrivals, next) := noteArrivals nowMs requests firstSeen
      (seen :: arrivals, next)
    | none =>
      let (arrivals, next) := noteArrivals nowMs requests (firstSeen.insert request.requestId nowMs)
      (nowMs :: arrivals, next)

/-- The body of the progress loop; the samples are the intervals of sequences that advanced. -/
def noteProgress (nowMs : Millis) (acc : List Millis × ShadowState) (request : EngineRequest) :
    List Millis × ShadowState :=
  let (samples, state) := acc
  if request.isContextInitState then (samples, state)
  else
    let counted := { state with generatingSeen := state.generatingSeen + 1 }
    match state.tokenProgress.lookup request.requestId with
    | some previous =>
      let advanced := request.generated - previous.produced
      if 0 < advanced then
        (samples ++ [(nowMs - previous.lastMs) / advanced],
          { counted with
            advancedSeen := counted.advancedSeen + 1
            tokenProgress := state.tokenProgress.insert request.requestId
              ⟨previous.firstMs, nowMs, request.generated, request.maxNewTokens⟩ })
      else (samples, counted)
    | none =>
      (samples,
        { counted with
          tokenProgress := state.tokenProgress.insert request.requestId
            ⟨nowMs, nowMs, request.generated, request.maxNewTokens⟩ })

/-- A departure more than one token short of its budget. -/
def TokenProgress.isStranded (progress : TokenProgress) : Prop :=
  progress.wanted ≠ 0 ∧ progress.produced < progress.wanted - 1

instance (progress : TokenProgress) : Decidable (TokenProgress.isStranded progress) :=
  inferInstanceAs (Decidable (_ ∧ _))

/-- Book every request that stopped being offered, split by why. -/
def retireDeparted (state : ShadowState) (liveIds : List ℤ) : ShadowState :=
  let gone := (state.tokenProgress.entries.filter fun entry => entry.1 ∉ liveIds).map Sigma.snd
  let stranded := gone.filter fun progress => TokenProgress.isStranded progress
  { state with
    tokenProgress := state.tokenProgress.retain fun id progress => if id ∈ liveIds then some progress else none
    stranded := state.stranded + stranded.length
    strandedTokensShort := state.strandedTokensShort + (stranded.map fun progress => progress.wanted - progress.produced).sum
    completed := state.completed + (gone.length - stranded.length) }

/-- Time since each running request last produced a token. -/
def projectSteer (requests : List EngineRequest) (progress : HashMap ℤ TokenProgress) (nowMs : Millis) : List Millis :=
  (requests.filter fun request => !request.isContextInitState).filterMap fun request =>
    (progress.lookup request.requestId).map fun entry => nowMs - entry.lastMs

end ShadowState

namespace ShadowCapacityScheduler

def new (maxNumRequests maxNumTokens : ℕ) (itlBudgetMs : Millis) (totalKvBlocks : ℕ)
    (orderSetting : Option String) : ShadowCapacityScheduler :=
  ⟨.new maxNumRequests maxNumTokens itlBudgetMs totalKvBlocks orderSetting, {}⟩

/-- Feed the controller the ninetieth percentile of the projected latencies. -/
def steer (sched : ShadowCapacityScheduler) (projected : List Millis) : ShadowCapacityScheduler :=
  if projected = [] then sched
  else
    let sample := (pct projected (90 / 100)).getD 0
    { rust := sched.rust.observe sample projected.length
      state := { sched.state with
        steerItlMsEwma := blend sched.state.steerItlMsEwma sample
        observeCalls := sched.state.observeCalls + 1 } }

/-- The bookkeeping of `_shadow` before the crossing, with everyone's arrival reading. -/
def prepare (sched : ShadowCapacityScheduler) (call : ShadowCall) : List Millis × ShadowCapacityScheduler :=
  let ticked := sched.state.tick call.nowMs
  let (arrivals, firstSeenMs) := ShadowState.noteArrivals call.nowMs call.activeRequests ticked.firstSeenMs
  let (samples, progressed) :=
    call.activeRequests.foldl (ShadowState.noteProgress call.nowMs) ([], { ticked with firstSeenMs })
  let retired := progressed.retireDeparted (call.activeRequests.map (·.requestId))
  let projected := ShadowState.projectSteer call.activeRequests retired.tokenProgress call.nowMs
  let steered := { sched with state := retired }.steer projected
  (arrivals,
    if samples = [] then steered
    else
      { steered with
        state := { steered.state with
          advancingItlMsEwma := blend steered.state.advancingItlMsEwma (samples.sum / samples.length) } })

/-- The arrays of the crossing, as the extension reads them. -/
def crossingArgs (call : ShadowCall) (arrivals : List Millis) : DecideArgs where
  ids := call.activeRequests.map (·.requestId)
  isContext := call.activeRequests.map (·.isContextInitState)
  promptLens := call.activeRequests.map (·.promptLen.toNat)
  contextDoneTokens := call.activeRequests.map (·.contextCurrentPosition.toNat)
  tokensGenerated := call.activeRequests.map (·.generated.toNat)
  maxNewTokens := call.activeRequests.map (·.maxNewTokens.toNat)
  arrivalMs := arrivals
  inflight := []
  kvFreeBlocks := call.freeBlocks.toNat
  nowMs := call.nowMs

def FitsU32 (value : ℤ) : Prop := 0 ≤ value ∧ value < 2 ^ 32

def FitsI64 (value : ℤ) : Prop := -2 ^ 63 ≤ value ∧ value < 2 ^ 63

def FitsUsize (value : ℤ) : Prop := 0 ≤ value ∧ value < 2 ^ 64

instance (value : ℤ) : Decidable (FitsU32 value) := inferInstanceAs (Decidable (_ ∧ _))

instance (value : ℤ) : Decidable (FitsI64 value) := inferInstanceAs (Decidable (_ ∧ _))

instance (value : ℤ) : Decidable (FitsUsize value) := inferInstanceAs (Decidable (_ ∧ _))

/-- Every integer has the width the extension's signature asks for. -/
def Crosses (call : ShadowCall) : Prop :=
  (∀ request ∈ call.activeRequests, FitsI64 request.requestId ∧ FitsU32 request.promptLen ∧
    FitsU32 request.contextCurrentPosition ∧ FitsU32 request.generated ∧ FitsU32 request.maxNewTokens) ∧
  FitsUsize call.freeBlocks

instance (call : ShadowCall) : Decidable (Crosses call) := inferInstanceAs (Decidable (_ ∧ _))

/-- Count one decision; `none` refuses it. -/
def judge (sched : ShadowCapacityScheduler) (call : ShadowCall) (pair : List ℕ × List ℕ) :
    Option Schedule × ShadowCapacityScheduler :=
  let (fittingIdx, pausedIdx) := pair
  let n := call.activeRequests.length
  let counted := { sched.state with
    steps := sched.state.steps + 1
    candidatesSeen := sched.state.candidatesSeen + n
    rustAdmitted := sched.state.rustAdmitted + fittingIdx.length
    upstreamAdmitted := sched.state.upstreamAdmitted + call.upstream.fitting.length }
  if (∃ i ∈ fittingIdx ++ pausedIdx, n ≤ i) ∨ (∃ i ∈ fittingIdx, i ∈ pausedIdx) then
    (none, { sched with state := { counted with malformed := counted.malformed + 1 } })
  else
    let fitting := fittingIdx.filterMap (call.activeRequests[·]?)
    let idle := if 0 < n ∧ fittingIdx = [] then 1 else 0
    let apart :=
      if (fitting.map (·.requestId)).toFinset ≠ (call.upstream.fitting.map (·.requestId)).toFinset then 1 else 0
    (some ⟨fitting, call.upstream.fittingDisaggGenInit, pausedIdx.filterMap (call.activeRequests[·]?)⟩,
      { sched with
        state := { counted with
          emptyWhenWorkAvailable := counted.emptyWhenWorkAvailable + idle
          diverged := counted.diverged + apart } })

/-- `_shadow`: an integer too wide for the crossing raises after the bookkeeping. -/
def shadow (sched : ShadowCapacityScheduler) (call : ShadowCall) :
    Except CrossingError (Option Schedule) × ShadowCapacityScheduler :=
  let (arrivals, prepared) := sched.prepare call
  if Crosses call then
    match prepared.rust.decide (crossingArgs call arrivals) with
    | (.ok pair, rust) =>
      let (answer, next) := { prepared with rust }.judge call pair
      (.ok answer, next)
    | (.error message, rust) => (.error (.valueError message), { prepared with rust })
  else (.error .overflowError, prepared)

/-- Count an exception, and give up for good after too many. -/
def noteError (sched : ShadowCapacityScheduler) (settings : Settings) (failure : CrossingError) :
    ShadowCapacityScheduler :=
  { sched with
    state := { sched.state with
      errors := sched.state.errors + 1
      reasonFirstError := sched.state.reasonFirstError <|> some failure
      disabled := sched.state.disabled || settings.maxErrors ≤ sched.state.errors + 1 } }

def noteLive (sched : ShadowCapacityScheduler) (fallback : Bool) : ShadowCapacityScheduler :=
  { sched with
    state := { sched.state with
      liveSteps := sched.state.liveSteps + 1
      liveFallbacks := sched.state.liveFallbacks + if fallback then 1 else 0 } }

/-- The engine executes what this returns. -/
def scheduleRequest (settings : Settings) (sched : ShadowCapacityScheduler) (call : ShadowCall) :
    Schedule × ShadowCapacityScheduler :=
  if sched.state.disabled then (call.upstream, sched)
  else
    match sched.shadow call with
    | (.error failure, next) => (call.upstream, next.noteError settings failure)
    | (.ok answer, next) =>
      if settings.live then
        match answer with
        | none => (call.upstream, next.noteLive true)
        | some schedule => (schedule, next.noteLive false)
      else (call.upstream, next)

end ShadowCapacityScheduler

end TrtLlm.PyExt.Shadow
