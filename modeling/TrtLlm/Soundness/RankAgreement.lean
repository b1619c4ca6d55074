import TrtLlm.Model.PyExt.Bridge
import TrtLlm.Soundness.DecideSpec
import TrtLlm.ToMathlib.AListLookup
import TrtLlm.ToMathlib.ListSort

/-! # When do two tensor-parallel ranks decide alike

Every rank runs its own bridge over its own clock. Two ranks fed the same history keep equal
controllers, and each one's first-seen table maps an id to its reading at the same call. Strictly
increasing clocks then order arrivals alike, so under the arrival order the ranks always agree.
The slack order ranks generation requests by a tolerance that mixes two readings of the local
clock, and there the ranks agree exactly when both clocks rank the requests alike.
-/

namespace TrtLlm.PyExt

/-! ### One decision under two clocks -/

namespace DecideInput

variable {input : DecideInput}

/-- The same input as another rank sees it: its own arrival readings and its own current time. -/
def onClock (input : DecideInput) (arrivalMs : List Millis) (nowMs : Millis) : DecideInput :=
  { input with arrivalMs, nowMs }

/-- Both ranks order the arrivals of all listed requests alike. -/
def ArrivalsAlike (input other : DecideInput) : Prop :=
  ∀ i < input.ids.length, ∀ j < input.ids.length,
    (input.arrivalAt i ≤ input.arrivalAt j ↔ other.arrivalAt i ≤ other.arrivalAt j)

/-- Both ranks compare the slack keys of the generation candidates alike. -/
def SlackAlike (input other : DecideInput) : Prop :=
  (input.candidates false).Pairwise fun i j =>
    (input.slackKey i ≤ input.slackKey j ↔ other.slackKey i ≤ other.slackKey j)

variable {arrivalMs : List Millis} {nowMs : Millis}

theorem arrivalKey_le_iff (alike : input.ArrivalsAlike (input.onClock arrivalMs nowMs)) {i j : ℕ}
    (hi : i < input.ids.length) (hj : j < input.ids.length) :
    input.arrivalKey i ≤ input.arrivalKey j ↔
      (input.onClock arrivalMs nowMs).arrivalKey i ≤ (input.onClock arrivalMs nowMs).arrivalKey j := by
  have forth := alike i hi j hj
  have back := alike j hj i hi
  have ids : ∀ k, (input.onClock arrivalMs nowMs).idAt k = input.idAt k := fun _ => rfl
  simp only [arrivalKey, Prod.Lex.toLex_le_toLex, ids, lt_iff_le_not_ge, le_antisymm_iff, forth, back]

theorem contextCandidates_onClock (alike : input.ArrivalsAlike (input.onClock arrivalMs nowMs)) :
    (input.onClock arrivalMs nowMs).contextCandidates = input.contextCandidates := by
  refine List.insertionSort_congr (List.Pairwise.imp_of_mem ?_ (List.pairwise_of_forall fun _ _ => trivial))
  intro i j hi hj _
  exact (arrivalKey_le_iff alike (mem_candidates.mp hi).1 (mem_candidates.mp hj).1).symm

theorem generationCandidates_onClock_iff (alike : input.ArrivalsAlike (input.onClock arrivalMs nowMs)) :
    input.generationCandidates = (input.onClock arrivalMs nowMs).generationCandidates ↔
      input.decodeOrder = .arrival ∨ input.SlackAlike (input.onClock arrivalMs nowMs) := by
  have same : (input.onClock arrivalMs nowMs).decodeOrder = input.decodeOrder := rfl
  have candidates : (input.onClock arrivalMs nowMs).candidates false = input.candidates false := rfl
  rw [generationCandidates, generationCandidates, candidates, List.insertionSort_eq_iff]
  cases order : input.decodeOrder with
  | arrival =>
    simp only [true_or, iff_true]
    refine List.Pairwise.imp_of_mem ?_ (List.pairwise_of_forall fun _ _ => trivial)
    intro i j hi hj _
    simp only [generationLe, same, order]
    exact arrivalKey_le_iff alike (mem_candidates.mp hi).1 (mem_candidates.mp hj).1
  | slack =>
    simp only [generationLe, same, order, SlackAlike, reduceCtorEq, false_or]

/-- The answer determines the generation ranking: it is what is left of both lists without the
context requests. -/
theorem generationCandidates_of_decision (input : DecideInput) :
    ((decideIndices input).1 ++ (decideIndices input).2).filter (fun i => !input.isContextAt i) =
      input.generationCandidates := by
  obtain ⟨admitted, held, dealt, fits, pauses, generation⟩ := decideIndices_dealt input
  have keep : ∀ indices : List ℕ, (∀ i ∈ indices, input.isContextAt i = false) →
      indices.filter (fun i => !input.isContextAt i) = indices := fun indices phase =>
    List.filter_eq_self.mpr fun i member => by simp [phase i member]
  have drop : ∀ indices : List ℕ, (∀ i ∈ indices, i ∈ admitted ++ held) →
      indices.filter (fun i => !input.isContextAt i) = [] := fun indices within =>
    List.filter_eq_nil_iff.mpr fun i member => by
      simp [(mem_contextCandidates.mp (dealt.mem_iff.mp (within i member))).2.2]
  rw [fits, pauses, ← generation]
  simp only [List.filter_append]
  rw [keep _ fun i member => generation_of_mem_pass (List.mem_append_left _ member),
    keep _ fun i member => generation_of_mem_pass (List.mem_append_right _ member),
    drop admitted fun i member => List.mem_append_left _ member,
    drop held fun i member => List.mem_append_right _ member]
  simp

/-- Two ranks whose arrivals are ordered alike give one answer exactly when the order in force does
not look at the clock or ranks the generation candidates alike. -/
theorem decideIndices_onClock_iff (alike : input.ArrivalsAlike (input.onClock arrivalMs nowMs)) :
    decideIndices input = decideIndices (input.onClock arrivalMs nowMs) ↔
      input.decodeOrder = .arrival ∨ input.SlackAlike (input.onClock arrivalMs nowMs) := by
  rw [← generationCandidates_onClock_iff alike]
  constructor
  · intro same
    rw [← generationCandidates_of_decision input, same]
    exact generationCandidates_of_decision (input.onClock arrivalMs nowMs)
  · intro ranking
    have generation : input.generationPass = (input.onClock arrivalMs nowMs).generationPass := by
      rw [generationPass, generationPass, ranking]
      rfl
    have context : input.contextPass input.generationPass =
        (input.onClock arrivalMs nowMs).contextPass (input.onClock arrivalMs nowMs).generationPass := by
      rw [contextPass, contextPass, contextCandidates_onClock alike, generation]
      rfl
    rw [decideIndices, decideIndices, context]

end DecideInput

/-! ### The first-seen table -/

/-- The call at which the current unbroken presence of an id began, given the ids active in every
call so far, newest first. -/
def firstCall (id : ℤ) : List (List ℤ) → Option ℕ
  | [] => none
  | ids :: older => if id ∈ ids then some ((firstCall id older).getD older.length) else none

/-- A table that maps every id seen in the last call to the clock's reading at its first call. -/
def Tracks (clock : ℕ → Millis) (history : List (List ℤ)) (firstSeen : HashMap ℤ Millis) : Prop :=
  ∀ id, firstSeen.lookup id = (firstCall id history).map clock

namespace RustBackedCapacityScheduler

/-- The arrival reading of an id at a call at `nowMs`. -/
def arrivalOf (firstSeen : HashMap ℤ Millis) (nowMs : Millis) (id : ℤ) : Millis :=
  (firstSeen.lookup id).getD nowMs

theorem noteArrivals_spec (nowMs : Millis) (requests : List LlmRequest) (firstSeen : HashMap ℤ Millis) :
    (noteArrivals nowMs requests firstSeen).1 =
        requests.map (fun request => arrivalOf firstSeen nowMs request.requestId) ∧
      ∀ id, (noteArrivals nowMs requests firstSeen).2.lookup id =
        if id ∈ idsOf requests then some (arrivalOf firstSeen nowMs id) else firstSeen.lookup id := by
  induction requests generalizing firstSeen with
  | nil => simp [noteArrivals, idsOf]
  | cons request requests ih =>
    cases known : firstSeen.lookup request.requestId with
    | some seen =>
      obtain ⟨arrivals, table⟩ := ih firstSeen
      constructor
      · simp [noteArrivals, known, arrivals, arrivalOf]
      · intro id
        simp only [noteArrivals, known, table, idsOf, List.map_cons, List.mem_cons]
        by_cases here : id = request.requestId
        · subst here
          simp [arrivalOf, known]
        · simp [here]
    | none =>
      obtain ⟨arrivals, table⟩ := ih (firstSeen.insert request.requestId nowMs)
      have reading : ∀ id, arrivalOf (firstSeen.insert request.requestId nowMs) nowMs id =
          arrivalOf firstSeen nowMs id := by
        intro id
        rw [arrivalOf, AList.lookup_insert_eq_ite, arrivalOf]
        split
        next here => rw [here, known, Option.getD_some, Option.getD_none]
        next => rfl
      constructor
      · simp only [noteArrivals, known, arrivals, reading, List.map_cons]
        simp [arrivalOf, known]
      · intro id
        simp only [noteArrivals, known, table, reading, idsOf, List.map_cons, List.mem_cons]
        by_cases here : id = request.requestId
        · subst here
          simp [arrivalOf, known]
        · simp [here, AList.lookup_insert_ne here]

theorem arrivalMsFor_fst (firstSeen : HashMap ℤ Millis) (requests : List LlmRequest) (nowMs : Millis) :
    (arrivalMsFor firstSeen requests nowMs).1 =
      requests.map fun request => arrivalOf firstSeen nowMs request.requestId :=
  (noteArrivals_spec nowMs requests firstSeen).1

theorem arrivalMsFor_lookup (firstSeen : HashMap ℤ Millis) (requests : List LlmRequest) (nowMs : Millis)
    (id : ℤ) :
    (arrivalMsFor firstSeen requests nowMs).2.lookup id =
      if id ∈ idsOf requests then some (arrivalOf firstSeen nowMs id) else none := by
  have table := (noteArrivals_spec nowMs requests firstSeen).2 id
  rw [arrivalMsFor, AList.lookup_retain, table]
  split
  next present => simpa [idsOf] using present
  next gone =>
    cases firstSeen.lookup id with
    | none => rfl
    | some seen => simpa [idsOf] using gone

/-- One call moves the table along with the history. -/
theorem tracks_arrivalMsFor {clock : ℕ → Millis} {history : List (List ℤ)} {firstSeen : HashMap ℤ Millis}
    (tracks : Tracks clock history firstSeen) (requests : List LlmRequest) :
    Tracks clock (idsOf requests :: history)
      (arrivalMsFor firstSeen requests (clock history.length)).2 := by
  intro id
  rw [arrivalMsFor_lookup, firstCall]
  split
  next =>
    rw [arrivalOf, tracks id, Option.map_some]
    cases firstCall id history <;> rfl
  next => rfl

theorem lookup_foldl_insert (ids : List ℤ) (reading : ℤ → Millis) (table : HashMap ℤ Millis) (id : ℤ) :
    ((ids.map fun key => (key, reading key)).foldl (fun map entry => map.insert entry.1 entry.2) table).lookup id =
      if id ∈ ids then some (reading id) else table.lookup id := by
  induction ids generalizing table with
  | nil => simp
  | cons key ids ih =>
    rw [List.map_cons, List.foldl_cons, ih]
    by_cases later : id ∈ ids
    · simp [later]
    · by_cases here : id = key
      · subst here
        simp [later]
      · simp [later, here, AList.lookup_insert_ne here]

theorem arrivalByRequestId_lookup (firstSeen : HashMap ℤ Millis) (requests : List LlmRequest)
    (nowMs : Millis) (id : ℤ) :
    (arrivalByRequestId requests (arrivalMsFor firstSeen requests nowMs).1).lookup id =
      if id ∈ idsOf requests then some (arrivalOf firstSeen nowMs id) else none := by
  have paired : (requests.map (·.requestId)).zip (arrivalMsFor firstSeen requests nowMs).1 =
      (idsOf requests).map fun key => (key, arrivalOf firstSeen nowMs key) := by
    rw [arrivalMsFor_fst, idsOf, List.zip_map', List.map_map]
    rfl
  rw [arrivalByRequestId, paired, lookup_foldl_insert]
  rfl

/-! ### The crossing in closed form -/

theorem mapM_guarded {α β ε : Type*} {f : α → Except ε β} (ok : α → Bool) (value : α → β) (failure : α → ε)
    (spec : ∀ a, f a = if ok a then .ok (value a) else .error (failure a)) (l : List α) :
    l.mapM f = match l.find? (fun a => !ok a) with
      | none => .ok (l.map value)
      | some a => .error (failure a) := by
  induction l with
  | nil => rfl
  | cons a l ih =>
    rw [List.mapM_cons, spec, ih, List.find?_cons]
    cases ok a with
    | false => rfl
    | true =>
      simp only [Bool.not_true, if_true]
      cases l.find? (fun a => !ok a) <;> rfl

/-- The arrays handed over for one call, given everyone's arrival reading. -/
def callArgs (call : ScheduleCall) (arrival : ℤ → Millis) (nowMs : Millis) : DecideArgs where
  ids := idsOf call.upstreamFitting
  isContext := call.upstreamFitting.map (·.isContextInit)
  promptLens := call.upstreamFitting.map (·.promptLen)
  contextDoneTokens := call.upstreamFitting.map (·.contextCurrentPosition)
  tokensGenerated := call.upstreamFitting.map fun request => request.numTokens - request.promptLen
  maxNewTokens := call.upstreamFitting.map (·.maxNewTokens)
  arrivalMs := call.upstreamFitting.map fun request => arrival request.requestId
  inflight := []
  kvFreeBlocks := call.kvFreeBlocks.getD 0
  nowMs

/-- The exception a call raises before `decide` runs, whatever the clock says. -/
def refusal (call : ScheduleCall) : Option PyError :=
  match call.upstreamFitting.find? fun request => !decide (request.requestId ∈ idsOf call.activeRequests) with
  | some request => some (.keyError request.requestId)
  | none =>
    match call.upstreamFitting.find? fun request => !decide (request.promptLen ≤ request.numTokens) with
    | some _ => some .overflowError
    | none => none

theorem flatten_eq (requests : List LlmRequest) (inflight : List ℤ) (kvFreeBlocks : ℕ) (nowMs : Millis)
    (arrivalMs : List Millis) :
    flatten requests inflight kvFreeBlocks nowMs arrivalMs =
      match requests.find? fun request => !decide (request.promptLen ≤ request.numTokens) with
      | some _ => .error .overflowError
      | none =>
        .ok {
          ids := requests.map (·.requestId)
          isContext := requests.map (·.isContextInit)
          promptLens := requests.map (·.promptLen)
          contextDoneTokens := requests.map (·.contextCurrentPosition)
          tokensGenerated := requests.map fun request => request.numTokens - request.promptLen
          maxNewTokens := requests.map (·.maxNewTokens)
          arrivalMs
          inflight
          kvFreeBlocks
          nowMs } := by
  have generated := mapM_guarded (f := tokensGeneratedOf)
    (fun request => decide (request.promptLen ≤ request.numTokens))
    (fun request => request.numTokens - request.promptLen) (fun _ => .overflowError)
    (fun request => by simp [tokensGeneratedOf]) requests
  rw [flatten, generated]
  cases requests.find? fun request => !decide (request.promptLen ≤ request.numTokens) <;> rfl

theorem decide_callArgs (rust : RustScheduler) (call : ScheduleCall) (arrival : ℤ → Millis) (nowMs : Millis) :
    (rust.decide (callArgs call arrival nowMs)).1 =
      .ok (decideIndices (rust.decideInput (callArgs call arrival nowMs))) := by
  have valid : validateLengths (callArgs call arrival nowMs).ids.length
      (RustScheduler.argLengths (callArgs call arrival nowMs)) = .ok call.upstreamFitting.length := by
    simp [validateLengths, RustScheduler.argLengths, callArgs, idsOf]
  rw [RustScheduler.decide, valid]

/-- The arrival readings of what upstream fitted, or the first id that is not active. -/
theorem lookups_eq (bridge : RustBackedCapacityScheduler) (nowMs : Millis) (call : ScheduleCall) :
    call.upstreamFitting.mapM (lookupArrival
        (arrivalByRequestId call.activeRequests (arrivalMsFor bridge.firstSeenMs call.activeRequests nowMs).1)) =
      match call.upstreamFitting.find? fun request => !decide (request.requestId ∈ idsOf call.activeRequests) with
      | none => .ok (call.upstreamFitting.map fun request => arrivalOf bridge.firstSeenMs nowMs request.requestId)
      | some request => .error (.keyError request.requestId) := by
  rw [mapM_guarded (fun request => decide (request.requestId ∈ idsOf call.activeRequests))
    (fun request => arrivalOf bridge.firstSeenMs nowMs request.requestId)
    (fun request => PyError.keyError request.requestId) fun request => ?_]
  · cases call.upstreamFitting.find? fun request => !decide (request.requestId ∈ idsOf call.activeRequests) <;> rfl
  · rw [lookupArrival, arrivalByRequestId_lookup]
    by_cases known : request.requestId ∈ idsOf call.activeRequests <;> simp [known]

theorem crossing_eq (bridge : RustBackedCapacityScheduler) (nowMs : Millis) (call : ScheduleCall) :
    bridge.crossing nowMs call =
      let noted := { bridge with
        iteration := bridge.iteration + 1
        firstSeenMs := (arrivalMsFor bridge.firstSeenMs call.activeRequests nowMs).2 }
      let args := callArgs call (arrivalOf bridge.firstSeenMs nowMs) nowMs
      match refusal call with
      | some failure => (.error failure, noted)
      | none => (.ok (decideIndices (bridge.rust.decideInput args)),
          { noted with rust := (bridge.rust.decide args).2 }) := by
  have arrivals := lookups_eq bridge nowMs call
  simp only [crossing, arrivals, flatten_eq, refusal]
  cases call.upstreamFitting.find? fun request => !decide (request.requestId ∈ idsOf call.activeRequests) with
  | some request => rfl
  | none =>
    cases call.upstreamFitting.find? fun request => !decide (request.promptLen ≤ request.numTokens) with
    | some request => rfl
    | none =>
      have answer := decide_callArgs bridge.rust call (arrivalOf bridge.firstSeenMs nowMs) nowMs
      change ((bridge.rust.decide (callArgs call (arrivalOf bridge.firstSeenMs nowMs) nowMs)).1.mapError
        PyError.valueError, _) = _
      rw [answer]
      rfl

theorem scheduleRequest_rust (bridge : RustBackedCapacityScheduler) (nowMs : Millis) (call : ScheduleCall) :
    (bridge.scheduleRequest nowMs call).2.rust = (bridge.crossing nowMs call).2.rust ∧
      (bridge.scheduleRequest nowMs call).2.firstSeenMs = (bridge.crossing nowMs call).2.firstSeenMs := by
  unfold scheduleRequest
  generalize bridge.crossing nowMs call = answered
  obtain ⟨answer, next⟩ := answered
  cases bridge.mode with
  | live => exact ⟨rfl, rfl⟩
  | shadow =>
    simp only [shadowResult, recordComparison]
    split
    · exact ⟨rfl, rfl⟩
    · exact ⟨rfl, rfl⟩
    · split
      · exact ⟨rfl, rfl⟩
      · split <;> exact ⟨rfl, rfl⟩

end RustBackedCapacityScheduler

/-! ### Two ranks side by side -/

open RustBackedCapacityScheduler

/-- The part of the scheduler a decision reads: everything but the ledger and the counters. -/
def RustScheduler.policy (rust : RustScheduler) : RustScheduler :=
  { rust with
    ledger := ∅, admittedTotal := 0, pausedTotal := 0, stepsObserved := 0, lastKvFreeBlocks := 0, lastNowMs := 0 }

theorem RustScheduler.policy_decide (rust : RustScheduler) (args : DecideArgs) :
    (rust.decide args).2.policy = rust.policy := by
  unfold RustScheduler.decide
  split <;> rfl

theorem RustScheduler.policy_observe {rust other : RustScheduler} (same : rust.policy = other.policy)
    (stepMs : Millis) (concurrency : ℕ) :
    (rust.observe stepMs concurrency).policy = (other.observe stepMs concurrency).policy := by
  change (rust.policy.observe stepMs concurrency).policy = (other.policy.observe stepMs concurrency).policy
  rw [same]

/-- What both ranks are fed. -/
inductive RankEvent where
  | observe (stepMs : Millis) (concurrency : ℕ)
  | schedule (call : ScheduleCall)
deriving DecidableEq, Repr

/-- The answers of `decide` at every call, on a rank whose clock reads `clock k` at call `k`. -/
def decisions (clock : ℕ → Millis) :
    List RankEvent → ℕ → RustBackedCapacityScheduler → List (Except PyError (List ℕ × List ℕ))
  | [], _, _ => []
  | .observe stepMs concurrency :: events, calls, bridge =>
    decisions clock events calls (bridge.observe stepMs concurrency)
  | .schedule call :: events, calls, bridge =>
    (bridge.crossing (clock calls) call).1 ::
      decisions clock events (calls + 1) (bridge.scheduleRequest (clock calls) call).2

/-- The slack key of one request at the newest call of a history, as one rank's clock has it. -/
def slackKeyOn (clock : ℕ → Millis) (budgetMs : Millis) (older : List (List ℤ)) (request : LlmRequest) :
    WithTop ℚ ×ₗ ℤ :=
  toLex (tolerableItlMs (clock older.length)
    (clock ((firstCall request.requestId older).getD older.length))
    (request.numTokens - request.promptLen) request.maxNewTokens budgetMs, request.requestId)

/-- At one call, both clocks compare any two generation requests that upstream fits alike. A call
that raises before the decision is made compares nothing. -/
def RankedAlike (clock clock' : ℕ → Millis) (budgetMs : Millis) (older : List (List ℤ)) (call : ScheduleCall) :
    Prop :=
  refusal call = none →
    (call.upstreamFitting.filter fun request => !request.isContextInit).Pairwise fun a b =>
      (slackKeyOn clock budgetMs older a ≤ slackKeyOn clock budgetMs older b ↔
        slackKeyOn clock' budgetMs older a ≤ slackKeyOn clock' budgetMs older b)

/-- The same at every call of a history that continues `older`. -/
def AlwaysRankedAlike (clock clock' : ℕ → Millis) (budgetMs : Millis) : List (List ℤ) → List RankEvent → Prop
  | _, [] => True
  | older, .observe _ _ :: events => AlwaysRankedAlike clock clock' budgetMs older events
  | older, .schedule call :: events =>
    RankedAlike clock clock' budgetMs older call ∧
      AlwaysRankedAlike clock clock' budgetMs (idsOf call.activeRequests :: older) events

/-- Two ranks after the same history. -/
structure Twins (clock clock' : ℕ → Millis) (older : List (List ℤ))
    (left right : RustBackedCapacityScheduler) : Prop where
  policy : left.rust.policy = right.rust.policy
  left_tracks : Tracks clock older left.firstSeenMs
  right_tracks : Tracks clock' older right.firstSeenMs

namespace Twins

variable {clock clock' : ℕ → Millis} {older : List (List ℤ)} {left right : RustBackedCapacityScheduler}

theorem observe (twins : Twins clock clock' older left right) (stepMs : Millis) (concurrency : ℕ) :
    Twins clock clock' older (left.observe stepMs concurrency) (right.observe stepMs concurrency) :=
  ⟨RustScheduler.policy_observe twins.policy stepMs concurrency, twins.left_tracks, twins.right_tracks⟩

theorem crossing_policy (bridge : RustBackedCapacityScheduler) (nowMs : Millis) (call : ScheduleCall) :
    (bridge.scheduleRequest nowMs call).2.rust.policy = bridge.rust.policy := by
  rw [(scheduleRequest_rust bridge nowMs call).1, crossing_eq]
  cases refusal call with
  | some failure => rfl
  | none => exact RustScheduler.policy_decide _ _

theorem crossing_tracks {bridge : RustBackedCapacityScheduler} (tracks : Tracks clock older bridge.firstSeenMs)
    (call : ScheduleCall) :
    Tracks clock (idsOf call.activeRequests :: older)
      (bridge.scheduleRequest (clock older.length) call).2.firstSeenMs := by
  rw [(scheduleRequest_rust bridge _ call).2, crossing_eq]
  have next := tracks_arrivalMsFor tracks call.activeRequests
  cases refusal call with
  | some failure => exact next
  | none => exact next

theorem schedule (twins : Twins clock clock' older left right) (call : ScheduleCall) :
    Twins clock clock' (idsOf call.activeRequests :: older)
      (left.scheduleRequest (clock older.length) call).2
      (right.scheduleRequest (clock' older.length) call).2 where
  policy := by rw [crossing_policy, crossing_policy, twins.policy]
  left_tracks := crossing_tracks twins.left_tracks call
  right_tracks := crossing_tracks twins.right_tracks call

theorem arrivalOf_eq {bridge : RustBackedCapacityScheduler} (tracks : Tracks clock older bridge.firstSeenMs)
    (id : ℤ) :
    arrivalOf bridge.firstSeenMs (clock older.length) id = clock ((firstCall id older).getD older.length) := by
  rw [arrivalOf, tracks id]
  cases firstCall id older <;> rfl

/-- The arguments of one call, written with the calls at which its requests were first seen. -/
def argsOn (clock : ℕ → Millis) (older : List (List ℤ)) (call : ScheduleCall) : DecideArgs :=
  callArgs call (fun id => clock ((firstCall id older).getD older.length)) (clock older.length)

theorem crossing_answer {bridge : RustBackedCapacityScheduler} (tracks : Tracks clock older bridge.firstSeenMs)
    (call : ScheduleCall) :
    (bridge.crossing (clock older.length) call).1 = match refusal call with
      | some failure => .error failure
      | none => .ok (decideIndices (bridge.rust.decideInput (argsOn clock older call))) := by
  have readings : arrivalOf bridge.firstSeenMs (clock older.length) =
      fun id => clock ((firstCall id older).getD older.length) := funext (arrivalOf_eq tracks)
  rw [crossing_eq, argsOn, ← readings]
  cases refusal call <;> rfl

theorem arrivals_alike (mono : StrictMono clock) (mono' : StrictMono clock') (rust : RustScheduler)
    (call : ScheduleCall) :
    (rust.decideInput (argsOn clock older call)).ArrivalsAlike
      (rust.decideInput (argsOn clock' older call)) := by
  intro i hi j hj
  have bound : ∀ {k}, k < (rust.decideInput (argsOn clock older call)).ids.length →
      k < call.upstreamFitting.length := by
    intro k inside
    simpa [RustScheduler.decideInput, argsOn, callArgs, idsOf] using inside
  have hi := bound hi
  have hj := bound hj
  simp only [DecideInput.arrivalAt, RustScheduler.decideInput, argsOn, callArgs, List.getD_eq_getElem?_getD,
    List.getElem?_map, List.getElem?_eq_getElem, hi, hj, Option.map_some, Option.getD_some]
  rw [mono.le_iff_le, mono'.le_iff_le]

theorem slackAlike_iff (rust : RustScheduler) (call : ScheduleCall) :
    (rust.decideInput (argsOn clock older call)).SlackAlike (rust.decideInput (argsOn clock' older call)) ↔
      (call.upstreamFitting.filter fun request => !request.isContextInit).Pairwise fun a b =>
        (slackKeyOn clock rust.itlBudgetMs older a ≤ slackKeyOn clock rust.itlBudgetMs older b ↔
          slackKeyOn clock' rust.itlBudgetMs older a ≤ slackKeyOn clock' rust.itlBudgetMs older b) := by
  have key : ∀ (clock : ℕ → Millis) {k : ℕ} (inside : k < call.upstreamFitting.length),
      (rust.decideInput (argsOn clock older call)).slackKey k =
        slackKeyOn clock rust.itlBudgetMs older call.upstreamFitting[k] := by
    intro clock k inside
    simp [DecideInput.slackKey, DecideInput.toleranceAt, DecideInput.arrivalAt, DecideInput.idAt,
      RustScheduler.decideInput, argsOn, callArgs, idsOf, slackKeyOn, inside]
  have size : (rust.decideInput (argsOn clock older call)).ids.length = call.upstreamFitting.length := by
    simp [RustScheduler.decideInput, argsOn, callArgs, idsOf]
  have phase : ∀ {k : ℕ} (inside : k < call.upstreamFitting.length),
      (rust.decideInput (argsOn clock older call)).isContextAt k = call.upstreamFitting[k].isContextInit := by
    intro k inside
    simp [DecideInput.isContextAt, RustScheduler.decideInput, argsOn, callArgs, inside]
  have inflight : (rust.decideInput (argsOn clock older call)).inflight = [] := rfl
  rw [DecideInput.SlackAlike, DecideInput.candidates, size, List.pairwise_filter, List.pairwise_filter,
    List.pairwise_iff_getElem, List.pairwise_iff_getElem]
  simp only [List.length_range, List.getElem_range]
  refine forall_congr' fun i => forall_congr' fun j => forall_congr' fun hi => forall_congr' fun hj => ?_
  rw [key clock hi, key clock hj, key clock' hi, key clock' hj, phase hi, phase hj, inflight]
  simp

/-- One call: the answers agree exactly when the order does not read the clock or both clocks rank
the call's generation requests alike. -/
theorem answers_agree_iff (twins : Twins clock clock' older left right) (mono : StrictMono clock)
    (mono' : StrictMono clock') (call : ScheduleCall) :
    (left.crossing (clock older.length) call).1 = (right.crossing (clock' older.length) call).1 ↔
      (left.rust.decodeOrder = .slack → RankedAlike clock clock' left.rust.itlBudgetMs older call) := by
  rw [crossing_answer twins.left_tracks, crossing_answer twins.right_tracks, RankedAlike]
  cases refusal call with
  | some failure => simp
  | none =>
    have other : right.rust.decideInput (argsOn clock' older call) =
        left.rust.decideInput (argsOn clock' older call) := by
      change right.rust.policy.decideInput _ = left.rust.policy.decideInput _
      rw [twins.policy]
    have shifted : left.rust.decideInput (argsOn clock' older call) =
        (left.rust.decideInput (argsOn clock older call)).onClock (argsOn clock' older call).arrivalMs
          (clock' older.length) := rfl
    have alike : (left.rust.decideInput (argsOn clock older call)).ArrivalsAlike
        (left.rust.decideInput (argsOn clock' older call)) := arrivals_alike mono mono' left.rust call
    have ranks : (left.rust.decideInput (argsOn clock older call)).SlackAlike
        (left.rust.decideInput (argsOn clock' older call)) ↔ _ := slackAlike_iff left.rust call
    rw [shifted] at alike ranks
    have order : (left.rust.decideInput (argsOn clock older call)).decodeOrder = left.rust.decodeOrder := rfl
    rw [other, Except.ok.injEq, shifted, DecideInput.decideIndices_onClock_iff alike, ranks, order]
    cases left.rust.decodeOrder <;> simp

/-- Whole histories from twin states. -/
theorem decisions_agree_iff (mono : StrictMono clock) (mono' : StrictMono clock') (events : List RankEvent)
    (twins : Twins clock clock' older left right) :
    decisions clock events older.length left = decisions clock' events older.length right ↔
      (left.rust.decodeOrder = .slack →
        AlwaysRankedAlike clock clock' left.rust.itlBudgetMs older events) := by
  induction events generalizing older left right with
  | nil => simp [decisions, AlwaysRankedAlike]
  | cons event events ih =>
    cases event with
    | observe stepMs concurrency => exact ih (twins.observe stepMs concurrency)
    | schedule call =>
      have kept := crossing_policy left (clock older.length) call
      have order := congrArg RustScheduler.decodeOrder kept
      have budget := congrArg RustScheduler.itlBudgetMs kept
      simp only [RustScheduler.policy] at order budget
      have rest := ih (twins.schedule call)
      rw [order, budget, List.length_cons] at rest
      rw [decisions, decisions, List.cons.injEq, answers_agree_iff twins mono mono', rest,
        AlwaysRankedAlike, imp_and]

end Twins

/-- A freshly built rank. -/
def freshRank (maxBatchSize maxNumTokens : ℕ) (itlBudgetMs : Millis) (kvTotalBlocks : ℕ)
    (orderSetting : Option String) (mode : Mode) : RustBackedCapacityScheduler :=
  .new (.new maxBatchSize maxNumTokens itlBudgetMs kvTotalBlocks orderSetting) mode

/-- Two ranks built alike and fed the same history, on any two strictly increasing clocks, decide
alike at every call exactly when the order is by arrival or every call ranks its generation requests
alike on both clocks. -/
theorem ranks_agree_iff (maxBatchSize maxNumTokens : ℕ) (itlBudgetMs : Millis) (kvTotalBlocks : ℕ)
    (orderSetting : Option String) (mode : Mode) (clock clock' : ℕ → Millis) (mono : StrictMono clock)
    (mono' : StrictMono clock') (events : List RankEvent) :
    let rank := freshRank maxBatchSize maxNumTokens itlBudgetMs kvTotalBlocks orderSetting mode
    decisions clock events 0 rank = decisions clock' events 0 rank ↔
      RustScheduler.decodeOrderOf orderSetting = .arrival ∨
        AlwaysRankedAlike clock clock' itlBudgetMs [] events := by
  intro rank
  have twins : Twins clock clock' [] rank rank := ⟨rfl, fun _ => rfl, fun _ => rfl⟩
  have whole := twins.decisions_agree_iff mono mono' events
  have order : rank.rust.decodeOrder = RustScheduler.decodeOrderOf orderSetting := rfl
  have budget : rank.rust.itlBudgetMs = itlBudgetMs := rfl
  rw [order, budget] at whole
  refine whole.trans ?_
  cases RustScheduler.decodeOrderOf orderSetting <;> simp

/-- A sequence one gap from its end, seen from the first call on, and a younger one that joins at
the second call. -/
def skewedHistory : List RankEvent :=
  let old : LlmRequest := ⟨1, false, 4, 4, 6, 3⟩
  let young : LlmRequest := ⟨2, false, 4, 4, 6, 5⟩
  [.schedule ⟨[old], [old], [], [], none⟩, .schedule ⟨[old, young], [old, young], [], [], none⟩]

theorem strictMono_ticks {tick : ℚ} (positive : 0 < tick) : StrictMono fun k : ℕ => tick * k := by
  intro i j before
  exact mul_lt_mul_of_pos_left (by exact_mod_cast before) positive

theorem ranks_agree_iff_by_arrival :
    let rank := freshRank 1 8 20 0 (some "arrival") .live
    decisions (fun k => 10 * k) skewedHistory 0 rank = decisions (fun k => 20 * k) skewedHistory 0 rank :=
  (ranks_agree_iff 1 8 20 0 (some "arrival") .live _ _ (strictMono_ticks (by norm_num))
    (strictMono_ticks (by norm_num)) skewedHistory).mpr (.inl rfl)

/-- Under the default order, two ranks whose clocks run apart admit different requests. -/
theorem skewed_ranks_disagree :
    let rank := freshRank 1 8 20 0 none .live
    StrictMono (fun k : ℕ => (10 * k : Millis)) ∧ StrictMono (fun k : ℕ => (20 * k : Millis)) ∧
      decisions (fun k => 10 * k) skewedHistory 0 rank = [.ok ([0], []), .ok ([1], [0])] ∧
      decisions (fun k => 20 * k) skewedHistory 0 rank = [.ok ([0], []), .ok ([0], [1])] :=
  ⟨strictMono_ticks (by norm_num), strictMono_ticks (by norm_num), by decide +kernel, by decide +kernel⟩

end TrtLlm.PyExt
