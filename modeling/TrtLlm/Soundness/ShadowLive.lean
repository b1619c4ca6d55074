import TrtLlm.Model.PyExt.Shadow
import TrtLlm.Soundness.BridgeDecision

/-! # What the shadow shim executes in live mode

The shim decides over all active requests, not over those upstream fitted, and checks the indices of the answer only.
Its answer is one upstream could have given exactly when nobody is in a KV hand-off and no request beyond upstream's
choice gets through the budgets.
-/

namespace TrtLlm.PyExt.Shadow

/-- Nothing fits that upstream did not fit, and nobody is listed twice. -/
structure Schedule.Safe (schedule upstream : Schedule) : Prop where
  within : schedule.fitting ⊆ upstream.fitting
  fitting_disagg : schedule.fitting.Disjoint schedule.fittingDisaggGenInit
  fitting_paused : schedule.fitting.Disjoint schedule.paused
  disagg_paused : schedule.fittingDisaggGenInit.Disjoint schedule.paused

/-- What upstream may answer: three disjoint lists of active requests. -/
structure ShadowCall.Proper (call : ShadowCall) : Prop where
  distinct : (call.activeRequests.map (·.requestId)).Nodup
  fitting : call.upstream.fitting ⊆ call.activeRequests
  disagg : call.upstream.fittingDisaggGenInit ⊆ call.activeRequests
  paused : call.upstream.paused ⊆ call.activeRequests
  fitting_disagg : call.upstream.fitting.Disjoint call.upstream.fittingDisaggGenInit
  fitting_paused : call.upstream.fitting.Disjoint call.upstream.paused
  disagg_paused : call.upstream.fittingDisaggGenInit.Disjoint call.upstream.paused

theorem ShadowCall.Proper.upstream_safe {call : ShadowCall} (proper : call.Proper) : call.upstream.Safe call.upstream :=
  ⟨List.Subset.refl _, proper.fitting_disagg, proper.fitting_paused, proper.disagg_paused⟩

theorem noteArrivals_length (nowMs : Millis) (requests : List EngineRequest) (firstSeen : HashMap ℤ Millis) :
    (ShadowState.noteArrivals nowMs requests firstSeen).1.length = requests.length := by
  induction requests generalizing firstSeen with
  | nil => rfl
  | cons request requests ih =>
    rw [ShadowState.noteArrivals]
    split <;> simp [ih]

namespace ShadowCapacityScheduler

variable {settings : Settings} {sched : ShadowCapacityScheduler} {call : ShadowCall}

/-- The input of the decision: the arrays of the call and the budgets of the scheduler after its own sample. -/
def stepInput (sched : ShadowCapacityScheduler) (call : ShadowCall) : DecideInput :=
  (sched.prepare call).2.rust.decideInput (crossingArgs call (sched.prepare call).1)

theorem decide_crossing (sched : ShadowCapacityScheduler) (call : ShadowCall) :
    ((sched.prepare call).2.rust.decide (crossingArgs call (sched.prepare call).1)).1 =
      .ok (decideIndices (sched.stepInput call)) := by
  have arrivals : (sched.prepare call).1.length = call.activeRequests.length := noteArrivals_length _ _ _
  have valid : validateLengths (crossingArgs call (sched.prepare call).1).ids.length
      (RustScheduler.argLengths (crossingArgs call (sched.prepare call).1)) = .ok call.activeRequests.length := by
    simp [validateLengths, RustScheduler.argLengths, crossingArgs, arrivals]
  rw [RustScheduler.decide, valid]
  rfl

theorem stepInput_dealt (sched : ShadowCapacityScheduler) (call : ShadowCall) :
    ((decideIndices (sched.stepInput call)).1 ++ (decideIndices (sched.stepInput call)).2).Perm
      (List.range call.activeRequests.length) := by
  have dealt := @DecideInput.decideIndices_perm_range (sched.stepInput call) rfl
  have length : (sched.stepInput call).ids.length = call.activeRequests.length := List.length_map _
  rwa [length] at dealt

/-- The schedule behind a decision. -/
def decided (call : ShadowCall) (pair : List ℕ × List ℕ) : Schedule :=
  ⟨pair.1.filterMap (call.activeRequests[·]?), call.upstream.fittingDisaggGenInit,
    pair.2.filterMap (call.activeRequests[·]?)⟩

/-- A decision that deals out all active requests passes the check on indices. -/
theorem judge_dealt (sched : ShadowCapacityScheduler) {pair : List ℕ × List ℕ}
    (dealt : (pair.1 ++ pair.2).Perm (List.range call.activeRequests.length)) :
    (sched.judge call pair).1 = some (decided call pair) := by
  have once := dealt.nodup_iff.mpr List.nodup_range
  have wellFormed : ¬ ((∃ i ∈ pair.1 ++ pair.2, call.activeRequests.length ≤ i) ∨ ∃ i ∈ pair.1, i ∈ pair.2) := by
    rintro (⟨i, member, outside⟩ | ⟨i, left, right⟩)
    · exact absurd (List.mem_range.mp (dealt.subset member)) (not_lt.mpr outside)
    · exact (List.nodup_append.mp once).2.2 i left i right rfl
  obtain ⟨fitting, paused⟩ := pair
  rw [judge]
  simp only [wellFormed, if_false]
  rfl

/-- Live mode returns upstream's answer when the shim is disabled or the crossing raises, and its own otherwise. -/
theorem scheduleRequest_live (live : settings.live = true) :
    (scheduleRequest settings sched call).1 =
      if sched.state.disabled = false ∧ Crosses call then decided call (decideIndices (sched.stepInput call))
      else call.upstream := by
  rw [scheduleRequest]
  cases disabled : sched.state.disabled with
  | true => simp
  | false =>
    by_cases crosses : Crosses call
    · have answer := sched.decide_crossing call
      have judged := @judge_dealt call
        { (sched.prepare call).2 with
          rust := ((sched.prepare call).2.rust.decide (crossingArgs call (sched.prepare call).1)).2 }
        _ (sched.stepInput_dealt call)
      have shadowed : (sched.shadow call).1 = .ok (some (decided call (decideIndices (sched.stepInput call)))) := by
        rw [shadow]
        simp only [crosses, if_true]
        generalize (sched.prepare call).2.rust.decide (crossingArgs call (sched.prepare call).1) = outcome at answer judged
        obtain ⟨reply, rust⟩ := outcome
        simp only at answer judged
        subst answer
        simp only [judged]
      generalize sched.shadow call = outcome at shadowed
      obtain ⟨reply, next⟩ := outcome
      simp only at shadowed
      subst shadowed
      simp [live, crosses]
    · simp [shadow, crosses]

/-- The decided schedule has every active request in its first or its last list. -/
theorem decided_perm (sched : ShadowCapacityScheduler) (call : ShadowCall) :
    ((decided call (decideIndices (sched.stepInput call))).fitting ++
      (decided call (decideIndices (sched.stepInput call))).paused).Perm call.activeRequests := by
  rw [decided, ← List.filterMap_append]
  refine ((sched.stepInput_dealt call).filterMap _).trans (.of_eq ?_)
  exact List.filterMap_getElem?_range _

theorem mem_decided_fitting (sched : ShadowCapacityScheduler) (call : ShadowCall) {request : EngineRequest} :
    request ∈ (decided call (decideIndices (sched.stepInput call))).fitting ↔
      ∃ i, call.activeRequests[i]? = some request ∧ (sched.stepInput call).GetsThrough i := by
  rw [decided, List.mem_filterMap]
  constructor
  · rintro ⟨i, fits, found⟩
    exact ⟨i, found, DecideInput.mem_fitting_iff.mp fits⟩
  · rintro ⟨i, found, through⟩
    exact ⟨i, DecideInput.mem_fitting_iff.mpr through, found⟩

/-- Live mode is safe exactly when it falls back to upstream, or upstream has nobody in a hand-off and no active
request beyond its fitting list gets through the budgets. -/
theorem live_safe_iff (live : settings.live = true) (proper : call.Proper) :
    (scheduleRequest settings sched call).1.Safe call.upstream ↔
      sched.state.disabled = true ∨ ¬ Crosses call ∨
        (call.upstream.fittingDisaggGenInit = [] ∧
          ∀ i request, call.activeRequests[i]? = some request → (sched.stepInput call).GetsThrough i →
            request ∈ call.upstream.fitting) := by
  rw [scheduleRequest_live live]
  by_cases decides : sched.state.disabled = false ∧ Crosses call
  · have dealt := sched.decided_perm call
    have once := dealt.nodup_iff.mpr (List.Nodup.of_map _ proper.distinct)
    rw [if_pos decides, decides.1]
    simp only [Bool.false_eq_true, decides.2, not_true_eq_false, false_or]
    constructor
    · intro safe
      refine ⟨?_, fun i request found through => ?_⟩
      · refine List.eq_nil_iff_forall_not_mem.mpr fun request member => ?_
        have listed : request ∈ (decided call (decideIndices (sched.stepInput call))).fitting ++
            (decided call (decideIndices (sched.stepInput call))).paused := dealt.mem_iff.mpr (proper.disagg member)
        rcases List.mem_append.mp listed with fits | held
        · exact safe.fitting_disagg fits member
        · exact safe.disagg_paused member held
      · exact safe.within ((sched.mem_decided_fitting call).mpr ⟨i, found, through⟩)
    · rintro ⟨nobody, chosen⟩
      refine ⟨fun request member => ?_, ?_, (List.nodup_append'.mp once).2.2, ?_⟩
      · obtain ⟨i, found, through⟩ := (sched.mem_decided_fitting call).mp member
        exact chosen i request found through
      · rw [decided, nobody]
        exact List.disjoint_nil_right _
      · rw [decided, nobody]
        exact List.disjoint_nil_left _
  · rw [if_neg decides]
    refine iff_of_true proper.upstream_safe ?_
    rw [not_and_or, Bool.not_eq_false] at decides
    rcases decides with disabled | wide
    · exact .inl disabled
    · exact .inr (.inl wide)

end ShadowCapacityScheduler

open ShadowCapacityScheduler

/-- Live mode with the default number of errors. -/
def liveSettings : Settings := ⟨true, 20⟩

/-- A shim over a new scheduler object. -/
def freshShim : ShadowCapacityScheduler := .new 64 8192 20 1000 none

/-- One running request that upstream fits, and one in a KV hand-off. -/
def handOffCall (handOff : List EngineRequest) : ShadowCall where
  activeRequests := ⟨1, 8, false, 8, 12, 100⟩ :: handOff
  upstream := ⟨[⟨1, 8, false, 8, 12, 100⟩], handOff, []⟩
  freeBlocks := 500
  nowMs := 0

theorem live_safe_without_hand_off :
    (scheduleRequest liveSettings freshShim (handOffCall [])).1.Safe (handOffCall []).upstream := by
  have proper : (handOffCall []).Proper := by
    refine ⟨by decide, by decide, by decide, by decide, ?_, ?_, ?_⟩ <;> simp [handOffCall]
  refine (live_safe_iff rfl proper).mpr (.inr (.inr ⟨rfl, fun i request found _ => ?_⟩))
  exact List.mem_of_getElem? found

/-- A request in a hand-off is scheduled, and listed twice. -/
theorem live_schedules_hand_off :
    (handOffCall [⟨2, 40, false, 40, 41, 100⟩]).Proper ∧
      ¬ (scheduleRequest liveSettings freshShim (handOffCall [⟨2, 40, false, 40, 41, 100⟩])).1.Safe
        (handOffCall [⟨2, 40, false, 40, 41, 100⟩]).upstream := by
  have schedule : (scheduleRequest liveSettings freshShim (handOffCall [⟨2, 40, false, 40, 41, 100⟩])).1 =
      ⟨[⟨2, 40, false, 40, 41, 100⟩, ⟨1, 8, false, 8, 12, 100⟩], [⟨2, 40, false, 40, 41, 100⟩], []⟩ := by
    decide +kernel
  refine ⟨⟨by decide, by decide, by decide, by decide, ?_, ?_, ?_⟩, fun safe => ?_⟩
  · simp [handOffCall]
  · simp [handOffCall]
  · simp [handOffCall]
  · rw [schedule] at safe
    exact absurd (safe.within List.mem_cons_self) (by decide)

end TrtLlm.PyExt.Shadow
