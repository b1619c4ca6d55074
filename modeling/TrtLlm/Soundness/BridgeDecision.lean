import TrtLlm.Model.PyExt.RawDecision
import TrtLlm.Soundness.AdmissionRoom
import TrtLlm.Soundness.RankAgreement
import TrtLlm.ToMathlib.ListIndex

/-! # What the bridge makes of a decision

Live mode deals upstream's fitting list out again and adds nothing. Shadow mode hands back upstream's own answer
whatever `decide` does: an answer the check passes has indices that can be looked up.
-/

namespace TrtLlm.PyExt

namespace DecideInput

/-- With nobody in flight, every listed request is either admitted or paused. -/
theorem decideIndices_perm_range {input : DecideInput} (idle : input.inflight = []) :
    ((decideIndices input).1 ++ (decideIndices input).2).Perm (List.range input.ids.length) := by
  have phases : (input.candidates false ++ input.candidates true).Perm (List.range input.ids.length) := by
    simp only [candidates, idle, List.not_mem_nil, not_false_eq_true, true_and]
    refine List.perm_append_comm.trans ?_
    simpa using List.filter_append_perm (fun i => input.isContextAt i) (List.range input.ids.length)
  refine (decideIndices_perm input).trans (.trans ?_ phases)
  exact (List.perm_insertionSort _ _).append (List.perm_insertionSort _ _)

end DecideInput

namespace RustBackedCapacityScheduler

/-! ## Live mode -/

theorem groupProblems_eq_nil {name : String} {n : ℕ} {indices : List ℕ} (inside : ∀ i ∈ indices, i < n)
    (once : indices.Nodup) : groupProblems name n indices = [] := by
  rw [groupProblems, if_pos once, List.append_nil, List.map_eq_nil_iff, List.filter_eq_nil_iff]
  intro i member
  simpa using inside i member

theorem validate_eq_nil {requests : List LlmRequest} {pair : List ℕ × List ℕ}
    (dealt : (pair.1 ++ pair.2).Perm (List.range requests.length)) : validate requests pair = [] := by
  have inside : ∀ i ∈ pair.1 ++ pair.2, i < requests.length := fun i member => List.mem_range.mp (dealt.subset member)
  have once := dealt.nodup_iff.mpr List.nodup_range
  obtain ⟨first, second, apart⟩ := List.nodup_append.mp once
  have separate : Disjoint pair.1.toFinset pair.2.toFinset := by
    rw [Finset.disjoint_left]
    intro i left right
    exact apart i (List.mem_toFinset.mp left) i (List.mem_toFinset.mp right) rfl
  rw [validate, groupProblems_eq_nil (fun i member => inside i (List.mem_append_left _ member)) first,
    groupProblems_eq_nil (fun i member => inside i (List.mem_append_right _ member)) second,
    if_pos (Finset.card_union_of_disjoint separate)]
  rfl

/-- What the scheduler object is handed at one call. -/
def stepInput (bridge : RustBackedCapacityScheduler) (nowMs : Millis) (call : ScheduleCall) : DecideInput :=
  bridge.rust.decideInput (callArgs call (arrivalOf bridge.firstSeenMs nowMs) nowMs)

variable {bridge : RustBackedCapacityScheduler} {nowMs : Millis} {call : ScheduleCall}

theorem stepInput_dealt (bridge : RustBackedCapacityScheduler) (nowMs : Millis) (call : ScheduleCall) :
    ((decideIndices (bridge.stepInput nowMs call)).1 ++ (decideIndices (bridge.stepInput nowMs call)).2).Perm
      (List.range call.upstreamFitting.length) := by
  have dealt := @DecideInput.decideIndices_perm_range (bridge.stepInput nowMs call) rfl
  have length : (bridge.stepInput nowMs call).ids.length = call.upstreamFitting.length := List.length_map _
  rwa [length] at dealt

/-- Live mode executes the decision over upstream's fitting list, or raises what the crossing raised. -/
theorem scheduleRequest_live (live : bridge.mode = .live) :
    (bridge.scheduleRequest nowMs call).1 =
      match refusal call with
      | some failure => .error failure
      | none =>
        let (fitting, paused) := unflatten call.upstreamFitting (decideIndices (bridge.stepInput nowMs call))
        .ok ⟨fitting, call.upstreamFittingDisaggGenInit, call.upstreamPaused ++ paused⟩ := by
  rw [scheduleRequest, crossing_eq, live]
  cases refusal call with
  | some failure => rfl
  | none =>
    have valid := validate_eq_nil (stepInput_dealt bridge nowMs call)
    rw [stepInput] at valid
    simp only [liveResult, stepInput, valid, ne_eq, not_true_eq_false, if_false]

/-! ## Shadow mode, over any answer -/

theorem inside_of_groupProblemsRaw {name : String} {n : ℕ} {indices : List ℤ}
    (valid : groupProblemsRaw name n indices = []) : ∀ i ∈ indices, 0 ≤ i ∧ i < n := by
  rw [groupProblemsRaw, List.append_eq_nil_iff, List.map_eq_nil_iff, List.filter_eq_nil_iff] at valid
  intro i member
  simpa using valid.1 i member

theorem pyItem_inside {requests : List LlmRequest} {i : ℤ} (inside : 0 ≤ i ∧ i < requests.length) :
    ∃ request, pyItem requests i = .ok request ∧ requests[i.toNat]? = some request := by
  have place : i.toNat < requests.length := by omega
  refine ⟨requests[i.toNat], ?_, List.getElem?_eq_getElem place⟩
  have positive : ¬ i < 0 := by omega
  simp only [pyItem, positive, if_false, List.getElem?_eq_getElem place]

theorem mapM_pyItem {requests : List LlmRequest} {indices : List ℤ} (inside : ∀ i ∈ indices, 0 ≤ i ∧ i < requests.length) :
    indices.mapM (pyItem requests) = .ok (indices.filterMap fun i => requests[i.toNat]?) := by
  induction indices with
  | nil => rfl
  | cons i indices ih =>
    obtain ⟨request, found, listed⟩ := pyItem_inside (inside i List.mem_cons_self)
    rw [List.mapM_cons, found, ih fun j member => inside j (List.mem_cons_of_mem _ member), List.filterMap_cons, listed]
    rfl

/-- What the check passes can be looked up. -/
theorem unflattenRaw_of_valid {requests : List LlmRequest} {pair : RawPair} (valid : validateRaw requests pair = []) :
    unflattenRaw requests pair = .ok
      (pair.1.filterMap fun i => requests[i.toNat]?, pair.2.filterMap fun i => requests[i.toNat]?) := by
  rw [validateRaw, List.append_eq_nil_iff, List.append_eq_nil_iff] at valid
  rw [unflattenRaw, mapM_pyItem (inside_of_groupProblemsRaw valid.1.1),
    mapM_pyItem (inside_of_groupProblemsRaw valid.1.2)]

/-- The indices of the extension as Python sees them. -/
def rawPair (pair : List ℕ × List ℕ) : RawPair := (pair.1.map Int.ofNat, pair.2.map Int.ofNat)

theorem groupProblemsRaw_cast (name : String) (n : ℕ) (indices : List ℕ) :
    groupProblemsRaw name n (indices.map Int.ofNat) = groupProblems name n indices := by
  have once : (indices.map Int.ofNat).Nodup ↔ indices.Nodup := List.nodup_map_iff Int.ofNat_injective
  have outside : (indices.map Int.ofNat).filter (fun i : ℤ => ¬ (0 ≤ i ∧ i < n)) =
      (indices.filter (n ≤ ·)).map Int.ofNat := by
    rw [List.filter_map]
    congr 1
    refine List.filter_congr fun i _ => ?_
    simp
  rw [groupProblemsRaw, groupProblems, outside, List.map_map]
  simp only [once]
  rfl

theorem validateRaw_cast (requests : List LlmRequest) (pair : List ℕ × List ℕ) :
    validateRaw requests (rawPair pair) = validate requests pair := by
  have toFinset (indices : List ℕ) :
      (indices.map Int.ofNat).toFinset = indices.toFinset.map ⟨Int.ofNat, Int.ofNat_injective⟩ := by
    ext i
    simp
  rw [validateRaw, validate, rawPair, groupProblemsRaw_cast, groupProblemsRaw_cast]
  simp only [toFinset, ← Finset.map_union, Finset.card_map]

theorem unflattenRaw_cast {requests : List LlmRequest} {pair : List ℕ × List ℕ} (valid : validate requests pair = []) :
    unflattenRaw requests (rawPair pair) = .ok (unflatten requests pair) := by
  rw [unflattenRaw_of_valid ((validateRaw_cast requests pair).trans valid), rawPair, List.filterMap_map,
    List.filterMap_map]
  rfl

theorem liveResultRaw_cast (call : ScheduleCall) (pair : List ℕ × List ℕ) :
    liveResultRaw call (.ok (rawPair pair)) = liveResult call (.ok pair) := by
  by_cases valid : validate call.upstreamFitting pair = []
  · simp only [liveResultRaw, liveResult, validateRaw_cast, valid, unflattenRaw_cast valid, ne_eq, not_true_eq_false,
      if_false]
  · simp only [liveResultRaw, liveResult, validateRaw_cast, valid, ne_eq, not_false_eq_true, if_true]

theorem shadowResultRaw_cast (bridge : RustBackedCapacityScheduler) (call : ScheduleCall) (pair : List ℕ × List ℕ) :
    bridge.shadowResultRaw call (.ok (rawPair pair)) = bridge.shadowResult call (.ok pair) := by
  have idle : (rawPair pair).1 = [] ↔ pair.1 = [] := List.map_eq_nil_iff
  by_cases valid : validate call.upstreamFitting pair = []
  · simp only [shadowResultRaw, shadowResult, validateRaw_cast, valid, unflattenRaw_cast valid, ne_eq,
      not_true_eq_false, if_false, idle]
    rfl
  · simp only [shadowResultRaw, shadowResult, validateRaw_cast, valid, ne_eq, not_false_eq_true, if_true]

theorem crossingWith_rust (bridge : RustBackedCapacityScheduler) (nowMs : Millis) (call : ScheduleCall) :
    crossingWith rustDecider bridge nowMs call =
      ((match (bridge.crossing nowMs call).1 with
        | .error (.keyError id) => .error (.keyError id)
        | .error failure => .ok (.error failure)
        | .ok pair => .ok (.ok (rawPair pair))), (bridge.crossing nowMs call).2) := by
  have answer := decide_callArgs bridge.rust call (arrivalOf bridge.firstSeenMs nowMs) nowMs
  rw [crossing_eq]
  simp only [crossingWith, lookups_eq, flatten_eq, refusal]
  cases call.upstreamFitting.find? fun request => !decide (request.requestId ∈ idsOf call.activeRequests) with
  | some request => rfl
  | none =>
    cases call.upstreamFitting.find? fun request => !decide (request.promptLen ≤ request.numTokens) with
    | some request => rfl
    | none =>
      simp only [rustDecider]
      rw [callArgs, idsOf] at answer
      rw [answer]
      rfl

/-- On the extension's own `decide`, the general description of a call is the description above. -/
theorem scheduleRequestWith_rust (bridge : RustBackedCapacityScheduler) (nowMs : Millis) (call : ScheduleCall) :
    scheduleRequestWith rustDecider bridge nowMs call = bridge.scheduleRequest nowMs call := by
  rw [scheduleRequestWith, scheduleRequest, crossingWith_rust]
  generalize bridge.crossing nowMs call = crossed
  obtain ⟨answer, next⟩ := crossed
  cases answer with
  | error failure => cases failure <;> cases bridge.mode <;> rfl
  | ok pair =>
    cases bridge.mode with
    | live => exact congrArg (·, next) (liveResultRaw_cast call pair)
    | shadow => exact shadowResultRaw_cast next call pair

end RustBackedCapacityScheduler

/-- One running request and two prompts, the second of which upstream pauses. -/
def smallCall (kvFreeBlocks : Option ℕ) : ScheduleCall where
  activeRequests := [⟨1, false, 8, 8, 12, 100⟩, ⟨2, true, 40, 0, 40, 100⟩, ⟨3, true, 50, 0, 50, 100⟩]
  upstreamFitting := [⟨1, false, 8, 8, 12, 100⟩, ⟨2, true, 40, 0, 40, 100⟩]
  upstreamFittingDisaggGenInit := []
  upstreamPaused := [⟨3, true, 50, 0, 50, 100⟩]
  kvFreeBlocks

/-- A bridge over a new scheduler object. -/
def freshBridge (kvTotalBlocks : ℕ) (mode : Mode) : RustBackedCapacityScheduler :=
  .new (.new 64 8192 20 kvTotalBlocks none) mode

namespace DecideInput

variable {input : DecideInput} {i : ℕ}

/-- At its turn in arrival order, after every generation request, a prompt finds a slot and enough tokens. -/
def FitsInTurn (input : DecideInput) (i : ℕ) : Prop :=
  ∃ before after, input.contextCandidates = before ++ i :: after ∧
    input.generationCandidates.length + (input.packContext before).length < input.maxBatchSize ∧
    input.generationCandidates.length + ((input.packContext before).map input.remainingAt).sum + input.remainingAt i ≤
      input.maxNumTokens

theorem packed_of_fitsInTurn (flows : ¬ input.Stalls) (fits : input.FitsInTurn i) :
    i ∈ input.packContext input.contextCandidates := by
  obtain ⟨before, after, split, slot, tokens⟩ := fits
  have room : input.generationRoom input.generationCandidates.length = input.generationCandidates.length := by
    have least : input.generationRoom input.generationCandidates.length ≤ input.generationCandidates.length :=
      Nat.min_le_left _ _
    exact Nat.le_antisymm least (not_lt.mp flows)
  have distinct := @contextCandidates_nodup input
  rw [packContext, room] at slot tokens ⊢
  rw [split] at distinct ⊢
  rw [List.mem_firstFit_iff_turn distinct]
  omega

theorem watermark_of_fresh (candidate : input.Candidate true i) (fresh : input.doneAt i = 0)
    (admitted : i ∈ (decideIndices input).1) : input.kvWatermarkBlocks ≤ input.kvFreeBlocks := by
  have packed := ((mem_fitting_context candidate).mp admitted).2
  have free := (List.mem_filter.mp ((List.firstFit_sublist _).subset packed)).2
  simpa [heldBack, fresh] using free

theorem fits_of_no_watermark (flows : ¬ input.Stalls) (fits : input.FitsInTurn i) (none : input.kvWatermarkBlocks = 0) :
    i ∈ (decideIndices input).1 := by
  have candidate : input.Candidate true i := by
    obtain ⟨before, after, split, -⟩ := fits
    exact mem_contextCandidates.mp (split ▸ List.mem_append_right _ List.mem_cons_self)
  have all : input.startable = input.contextCandidates := by
    refine List.filter_eq_self.mpr fun j _ => ?_
    simp [heldBack, none]
  rw [mem_fitting_context candidate, all]
  exact ⟨flows, packed_of_fitsInTurn flows fits⟩

theorem paused_of_stalls (stalls : input.Stalls) : ∃ j ∈ (decideIndices input).2, input.Candidate false j := by
  have parts := List.take_append_drop (input.generationRoom input.generationCandidates.length) input.generationCandidates
  obtain ⟨j, late⟩ : ∃ j, j ∈ input.generationCandidates.drop (input.generationRoom input.generationCandidates.length) := by
    refine List.exists_mem_of_ne_nil _ fun nothing => ?_
    rw [List.drop_eq_nil_iff] at nothing
    rw [Stalls] at stalls
    omega
  have candidate := mem_generationCandidates.mp (List.mem_of_mem_drop late)
  refine ⟨j, mem_paused candidate.1 candidate.2.1 fun admitted => ?_, candidate⟩
  rw [mem_fitting_generation candidate] at admitted
  have distinct := @generationCandidates_nodup input
  rw [← parts, List.nodup_append] at distinct
  exact distinct.2.2 j admitted j late rfl

end DecideInput

namespace RustBackedCapacityScheduler

variable {bridge : RustBackedCapacityScheduler} {nowMs : Millis} {call : ScheduleCall}

theorem stepInput_at {i : ℕ} {request : LlmRequest} (listed : call.upstreamFitting[i]? = some request) :
    (bridge.stepInput nowMs call).Candidate request.isContextInit i ∧
      (bridge.stepInput nowMs call).doneAt i = request.contextCurrentPosition := by
  have inside := (List.getElem?_eq_some_iff.mp listed).1
  refine ⟨⟨?_, List.not_mem_nil, ?_⟩, ?_⟩
  · simpa [stepInput, RustScheduler.decideInput, callArgs, idsOf] using inside
  · simp [stepInput, RustScheduler.decideInput, callArgs, DecideInput.isContextAt, listed]
  · simp [stepInput, RustScheduler.decideInput, callArgs, DecideInput.doneAt, listed]

theorem result_of_live (live : bridge.mode = .live) {result : CapacityResult}
    (returned : (bridge.scheduleRequest nowMs call).1 = .ok result) :
    result.fitting = (decideIndices (bridge.stepInput nowMs call)).1.filterMap (call.upstreamFitting[·]?) ∧
      result.paused = call.upstreamPaused ++
        (decideIndices (bridge.stepInput nowMs call)).2.filterMap (call.upstreamFitting[·]?) := by
  rw [scheduleRequest_live live] at returned
  split at returned
  next => cases returned
  next =>
    cases returned
    exact ⟨rfl, rfl⟩

/-- A prompt that has not started and fits in turn is admitted exactly when the pool is so small that its watermark
is zero: a bridge without a KV accessor reports no free block at every step. -/
theorem fresh_prompt_admitted_iff {ops : List RustScheduler.SchedulerOp}
    (run : Machine.Run RustScheduler.system ops bridge.rust) (live : bridge.mode = .live)
    (blind : call.kvFreeBlocks = none) {result : CapacityResult}
    (returned : (bridge.scheduleRequest nowMs call).1 = .ok result) {i : ℕ} {request : LlmRequest}
    (listed : call.upstreamFitting[i]? = some request) (context : request.isContextInit = true)
    (fresh : request.contextCurrentPosition = 0)
    (running : ∀ other ∈ call.upstreamFitting, other.isContextInit = false → other ∉ result.paused)
    (fits : (bridge.stepInput nowMs call).FitsInTurn i) :
    request ∈ result.fitting ↔ bridge.rust.kvTotalBlocks < 20 := by
  obtain ⟨fitting, paused⟩ := result_of_live live returned
  have watermark : (bridge.stepInput nowMs call).kvWatermarkBlocks = bridge.rust.kvTotalBlocks / 20 :=
    (RustScheduler.sound_of_run run).watermark
  have free : (bridge.stepInput nowMs call).kvFreeBlocks = 0 := by
    simp [stepInput, RustScheduler.decideInput, callArgs, blind]
  constructor
  · intro member
    rw [fitting, List.mem_filterMap] at member
    obtain ⟨j, admitted, found⟩ := member
    obtain ⟨candidate, done⟩ := @stepInput_at bridge nowMs _ _ _ found
    have low := DecideInput.watermark_of_fresh (context ▸ candidate) (done.trans fresh) admitted
    omega
  · intro small
    have flows : ¬ (bridge.stepInput nowMs call).Stalls := by
      intro stalls
      obtain ⟨j, held, candidate⟩ := DecideInput.paused_of_stalls stalls
      have inside : j < call.upstreamFitting.length := by
        simpa [stepInput, RustScheduler.decideInput, callArgs, idsOf] using candidate.1
      have found : call.upstreamFitting[j]? = some call.upstreamFitting[j] := List.getElem?_eq_getElem inside
      obtain ⟨same, -⟩ := @stepInput_at bridge nowMs _ _ _ found
      refine running _ (List.mem_of_getElem? found) (same.2.2.symm.trans candidate.2.2) ?_
      rw [paused, List.mem_append, List.mem_filterMap]
      exact .inr ⟨j, held, found⟩
    rw [fitting, List.mem_filterMap]
    exact ⟨i, DecideInput.fits_of_no_watermark flows fits (by omega), listed⟩

/-- Over a pool of 19 blocks the second request of the small call is admitted. -/
theorem fresh_prompt_admitted_iff_small :
    ⟨2, true, 40, 0, 40, 100⟩ ∈ (smallCall none).upstreamFitting ∧
      ∃ result, ((freshBridge 19 .live).scheduleRequest 0 (smallCall none)).1 = .ok result ∧
        ⟨2, true, 40, 0, 40, 100⟩ ∈ result.fitting := by
  have returned : ((freshBridge 19 .live).scheduleRequest 0 (smallCall none)).1 =
      .ok ⟨(smallCall none).upstreamFitting, [], (smallCall none).upstreamPaused⟩ := by decide +kernel
  have turn : ((freshBridge 19 .live).stepInput 0 (smallCall none)).FitsInTurn 1 :=
    ⟨[], [], by decide +kernel, by decide +kernel, by decide +kernel⟩
  refine ⟨by decide, _, returned, ?_⟩
  exact (fresh_prompt_admitted_iff (.start ⟨64, 8192, 20, 19, none, rfl⟩) rfl rfl returned (i := 1) rfl rfl rfl
    (by decide) turn).mpr (by decide)

/-- Over a pool of 1000 blocks the same request is paused, although nothing else asks for its slot or tokens. -/
theorem fresh_prompt_held_back :
    Machine.Run RustScheduler.system [] (freshBridge 1000 .live).rust ∧
      ((freshBridge 1000 .live).stepInput 0 (smallCall none)).FitsInTurn 1 ∧
      ((freshBridge 1000 .live).scheduleRequest 0 (smallCall none)).1 =
        .ok ⟨[⟨1, false, 8, 8, 12, 100⟩], [], [⟨3, true, 50, 0, 50, 100⟩, ⟨2, true, 40, 0, 40, 100⟩]⟩ :=
  ⟨.start ⟨64, 8192, 20, 1000, none, rfl⟩, ⟨[], [], by decide +kernel, by decide +kernel, by decide +kernel⟩,
    by decide +kernel⟩

end RustBackedCapacityScheduler

end TrtLlm.PyExt
