import Mathlib.Algebra.BigOperators.Group.List.Basic
import Mathlib.Algebra.Order.BigOperators.Group.List
import TrtLlm.Model.PyExt.Decide

/-! # What an admission decision guarantees

Both budget loops put every candidate they are given into exactly one of the two lists. The
generation loop charges one unit of each of three budgets per request, so it admits a leading
segment of its ranking. The context loop tries every candidate against what is left, and a
candidate it pauses had a reason at its own turn.
-/

namespace TrtLlm.PyExt

namespace Admission

variable {step : Admission → ℕ → Admission}

/-- A loop body that puts its index at the end of one of the two lists and leaves the other. -/
def Places (step : Admission → ℕ → Admission) : Prop :=
  ∀ state idx,
    ((step state idx).fitting = state.fitting ++ [idx] ∧ (step state idx).paused = state.paused) ∨
    ((step state idx).fitting = state.fitting ∧ (step state idx).paused = state.paused ++ [idx])

/-- A loop with such a body deals its input out over the two lists, keeping its order in each. -/
theorem Places.foldl (places : Places step) (indices : List ℕ) (state : Admission) :
    ∃ admitted held, (indices.foldl step state).fitting = state.fitting ++ admitted ∧
      (indices.foldl step state).paused = state.paused ++ held ∧
      (admitted ++ held).Perm indices := by
  induction indices generalizing state with
  | nil => exact ⟨[], [], by simp, by simp, .refl _⟩
  | cons idx indices ih =>
    obtain ⟨admitted, held, fits, pauses, dealt⟩ := ih (step state idx)
    rw [List.foldl_cons, fits, pauses]
    rcases places state idx with ⟨one, same⟩ | ⟨same, one⟩
    · refine ⟨idx :: admitted, held, ?_, ?_, dealt.cons idx⟩
      · rw [one]; simp
      · rw [same]
    · refine ⟨admitted, idx :: held, ?_, ?_, List.perm_middle.trans (dealt.cons idx)⟩
      · rw [same]
      · rw [one]; simp

end Admission

namespace DecideInput

variable {input : DecideInput}

/-- All per-request arrays have the length of `ids`. -/
structure Aligned (input : DecideInput) : Prop where
  isContext : input.isContext.length = input.ids.length
  promptLens : input.promptLens.length = input.ids.length
  contextDoneTokens : input.contextDoneTokens.length = input.ids.length
  arrivalMs : input.arrivalMs.length = input.ids.length
  tokensGenerated : input.tokensGenerated.length = input.ids.length
  maxNewTokens : input.maxNewTokens.length = input.ids.length

/-- What one admitted request takes from the token budget. -/
def charge (input : DecideInput) (i : ℕ) : ℕ :=
  if input.isContextAt i then input.remainingAt i else 1

def charges (input : DecideInput) (indices : List ℕ) : ℕ := (indices.map input.charge).sum

/-- Strictly earlier by arrival, then by id. -/
def ArrivesBefore (input : DecideInput) (i j : ℕ) : Prop :=
  input.arrivalAt i < input.arrivalAt j ∨ input.arrivalAt i = input.arrivalAt j ∧ input.idAt i < input.idAt j

instance (input : DecideInput) : DecidableRel input.ArrivesBefore := fun _ _ =>
  inferInstanceAs (Decidable (_ ∨ _))

/-- The configured order of generation requests: less tolerance first, or earlier arrival first. -/
def Precedes (input : DecideInput) (i j : ℕ) : Prop :=
  match input.decodeOrder with
  | .arrival => input.ArrivesBefore i j
  | .slack =>
    input.toleranceAt i < input.toleranceAt j ∨
      input.toleranceAt i = input.toleranceAt j ∧ input.idAt i < input.idAt j

/-- A request that takes part in the decision, in the given phase. -/
def Candidate (input : DecideInput) (context : Bool) (i : ℕ) : Prop :=
  i < input.ids.length ∧ input.idAt i ∉ input.inflight ∧ input.isContextAt i = context

/-- How many of `n` ranked generation requests the three budgets let through. -/
def generationRoom (input : DecideInput) (n : ℕ) : ℕ :=
  min n (min input.generationCap (min input.maxBatchSize input.maxNumTokens))

/-- The admitted requests that were served before the context request `i`: all generation
requests, and the context requests that arrived earlier. -/
def servedBefore (input : DecideInput) (fitting : List ℕ) (i : ℕ) : List ℕ :=
  fitting.filter fun j => input.isContextAt j = false ∨ input.ArrivesBefore j i

end DecideInput

/-- The specification of one admission decision. -/
structure DecideSpec (input : DecideInput) (fitting paused : List ℕ) : Prop where
  placed_once : (fitting ++ paused).Nodup
  placed_iff : ∀ i, i ∈ fitting ++ paused ↔ i < input.ids.length ∧ input.idAt i ∉ input.inflight
  generation_first : ∃ ranking : List ℕ,
    ranking.Nodup ∧ (∀ i, i ∈ ranking ↔ input.Candidate false i) ∧ ranking.Pairwise input.Precedes ∧
    fitting.filter (fun i => !input.isContextAt i) = ranking.take (input.generationRoom ranking.length)
  batch_bound : fitting.length ≤ input.maxBatchSize
  token_bound : input.charges fitting ≤ input.maxNumTokens
  stall_blocks_context : (∃ i ∈ paused, input.isContextAt i = false) →
    ∀ i ∈ fitting, input.isContextAt i = false
  watermark : ∀ i ∈ fitting, input.isContextAt i = true → input.doneAt i = 0 →
    input.kvWatermarkBlocks ≤ input.kvFreeBlocks
  paused_for_a_reason : ∀ i ∈ paused, input.isContextAt i = true →
    (∃ j ∈ paused, input.isContextAt j = false) ∨
    input.doneAt i = 0 ∧ input.kvFreeBlocks < input.kvWatermarkBlocks ∨
    input.maxBatchSize ≤ (input.servedBefore fitting i).length ∨
    input.maxNumTokens < input.charges (input.servedBefore fitting i) + input.charge i

namespace DecideInput

variable {input : DecideInput}

/-! ### The candidate lists -/

theorem mem_candidates {context : Bool} {i : ℕ} :
    i ∈ input.candidates context ↔ input.Candidate context i := by
  simp [candidates, Candidate]

theorem candidates_nodup (context : Bool) : (input.candidates context).Nodup :=
  List.nodup_range.filter _

theorem idAt_injective (distinct : input.ids.Nodup) {i j : ℕ} (hi : i < input.ids.length)
    (hj : j < input.ids.length) (same : input.idAt i = input.idAt j) : i = j := by
  unfold idAt at same
  simp only [List.getD_eq_getElem?_getD, List.getElem?_eq_getElem, hi, hj, Option.getD_some] at same
  exact (distinct.getElem_inj_iff).mp same

instance : Std.Total input.generationLe where
  total i j := by
    unfold generationLe
    split <;> exact le_total _ _

instance : IsTrans ℕ input.generationLe where
  trans i j k := by
    unfold generationLe
    split <;> exact le_trans

/-- Two requests ranked both ways have the same id. -/
theorem generationLe_antisymm {i j : ℕ} (forth : input.generationLe i j) (back : input.generationLe j i) :
    input.idAt i = input.idAt j := by
  unfold generationLe at forth back
  split at forth
  next order =>
    simp only [order] at back
    exact congrArg (fun key => (ofLex key).2) (le_antisymm forth back)
  next order =>
    simp only [order] at back
    exact congrArg (fun key => (ofLex key).2) (le_antisymm forth back)

theorem arrivesBefore_iff {i j : ℕ} : input.ArrivesBefore i j ↔ input.arrivalKey i < input.arrivalKey j := by
  simp [ArrivesBefore, arrivalKey, Prod.Lex.toLex_lt_toLex]

/-- Ranked earlier under a different id means strictly earlier. -/
theorem Precedes.of_generationLe {i j : ℕ} (before : input.generationLe i j)
    (different : input.idAt i ≠ input.idAt j) : input.Precedes i j := by
  have strict : ¬ input.generationLe j i := fun back => different (generationLe_antisymm before back)
  unfold Precedes
  unfold generationLe at strict
  split
  next order =>
    simp only [order, not_le] at strict
    exact arrivesBefore_iff.mpr strict
  next order =>
    simp only [order, not_le] at strict
    simpa [slackKey, Prod.Lex.toLex_lt_toLex] using strict

theorem mem_generationCandidates {i : ℕ} : i ∈ input.generationCandidates ↔ input.Candidate false i := by
  rw [generationCandidates, List.mem_insertionSort, mem_candidates]

theorem mem_contextCandidates {i : ℕ} : i ∈ input.contextCandidates ↔ input.Candidate true i := by
  rw [contextCandidates, List.mem_insertionSort, mem_candidates]

theorem generationCandidates_nodup : input.generationCandidates.Nodup :=
  (List.perm_insertionSort _ _).nodup_iff.mpr (candidates_nodup false)

theorem contextCandidates_nodup : input.contextCandidates.Nodup :=
  (List.perm_insertionSort _ _).nodup_iff.mpr (candidates_nodup true)

theorem generationCandidates_ranked (distinct : input.ids.Nodup) :
    input.generationCandidates.Pairwise input.Precedes := by
  have sorted : input.generationCandidates.Pairwise input.generationLe := List.pairwise_insertionSort _ _
  refine (sorted.and generationCandidates_nodup).imp_of_mem ?_
  rintro i j hi hj ⟨before, different⟩
  have inside := (mem_generationCandidates.mp hi).1
  have inside' := (mem_generationCandidates.mp hj).1
  exact .of_generationLe before fun same => different (idAt_injective distinct inside inside' same)

theorem contextCandidates_ranked (distinct : input.ids.Nodup) :
    input.contextCandidates.Pairwise input.ArrivesBefore := by
  have sorted : input.contextCandidates.Pairwise fun i j => input.arrivalKey i ≤ input.arrivalKey j :=
    List.pairwise_insertionSort _ _
  refine (sorted.and contextCandidates_nodup).imp_of_mem ?_
  rintro i j hi hj ⟨before, different⟩
  have inside := (mem_contextCandidates.mp hi).1
  have inside' := (mem_contextCandidates.mp hj).1
  refine arrivesBefore_iff.mpr (lt_of_le_of_ne before fun same => different ?_)
  exact idAt_injective distinct inside inside' (congrArg (fun key => (ofLex key).2) same)

/-! ### The generation loop -/

/-- The three generation budgets are spent in step, so only the smallest one matters. -/
theorem generationLoop (indices fitting paused : List ℕ) (used : ℕ) :
    indices.foldl input.admitGeneration ⟨fitting, paused, used, used, used⟩ =
      let room := min input.generationCap (min input.maxBatchSize input.maxNumTokens) - used
      let now := used + min indices.length room
      ⟨fitting ++ indices.take room, paused ++ indices.drop room, now, now, now⟩ := by
  induction indices generalizing fitting paused used with
  | nil => simp
  | cons idx indices ih =>
    rw [List.foldl_cons, admitGeneration]
    split
    next free =>
      dsimp only at free
      rw [ih]
      obtain ⟨room, eq⟩ : ∃ room,
          min input.generationCap (min input.maxBatchSize input.maxNumTokens) - used = room + 1 :=
        ⟨_, (Nat.sub_add_cancel (by omega)).symm⟩
      have next : min input.generationCap (min input.maxBatchSize input.maxNumTokens) - (used + 1) = room := by
        omega
      simp only [next, eq, List.take_succ_cons, List.drop_succ_cons, List.length_cons,
        List.append_assoc, List.singleton_append, Admission.mk.injEq, true_and]
      omega
    next full =>
      rw [Admission.pause, ih]
      have none : min input.generationCap (min input.maxBatchSize input.maxNumTokens) - used = 0 := by
        simp only [not_and_or, not_lt] at full
        omega
      simp [none]

theorem generationPass_eq (input : DecideInput) :
    input.generationPass =
      let room := input.generationRoom input.generationCandidates.length
      ⟨input.generationCandidates.take room, input.generationCandidates.drop room, room, room, room⟩ := by
  rw [generationPass, generationLoop]
  simp only [generationRoom, List.nil_append, Nat.sub_zero, Nat.zero_add, Admission.mk.injEq, and_true]
  constructor
  · rw [List.take_eq_take_iff]
    omega
  · rw [List.drop_eq_drop_iff]
    omega

/-! ### The context loop -/

theorem admitContext_places (stalled : Bool) : Admission.Places (input.admitContext stalled) := by
  intro state idx
  unfold admitContext
  split_ifs
  · exact .inr ⟨rfl, rfl⟩
  · exact .inr ⟨rfl, rfl⟩
  · exact .inl ⟨rfl, rfl⟩
  · exact .inr ⟨rfl, rfl⟩

/-- The counters agree with the list of admitted requests and are within both budgets. -/
structure Booked (input : DecideInput) (state : Admission) : Prop where
  batch : state.batchUsed = state.fitting.length
  tokens : state.tokenUsed = input.charges state.fitting
  batch_le : state.fitting.length ≤ input.maxBatchSize
  tokens_le : input.charges state.fitting ≤ input.maxNumTokens

theorem charges_append (left right : List ℕ) :
    input.charges (left ++ right) = input.charges left + input.charges right := by
  simp [charges]

theorem Booked.admitContext {state : Admission} (booked : input.Booked state) {idx : ℕ}
    (context : input.isContextAt idx = true) (stalled : Bool) :
    input.Booked (input.admitContext stalled state idx) := by
  have cost : input.charge idx = input.remainingAt idx := by simp [charge, context]
  unfold DecideInput.admitContext
  split_ifs with stall held fits
  · exact ⟨booked.batch, booked.tokens, booked.batch_le, booked.tokens_le⟩
  · exact ⟨booked.batch, booked.tokens, booked.batch_le, booked.tokens_le⟩
  · obtain ⟨room, budget⟩ := fits
    have sum : input.charges (state.fitting ++ [idx]) = state.tokenUsed + input.remainingAt idx := by
      rw [charges_append, booked.tokens]
      simp [charges, cost]
    refine ⟨?_, sum.symm, ?_, ?_⟩
    · simp [booked.batch]
    · simpa [booked.batch, Nat.succ_le_iff] using room
    · simpa [sum] using budget
  · exact ⟨booked.batch, booked.tokens, booked.batch_le, booked.tokens_le⟩

theorem Booked.contextLoop {indices : List ℕ} (contexts : ∀ i ∈ indices, input.isContextAt i = true)
    (stalled : Bool) {state : Admission} (booked : input.Booked state) :
    input.Booked (indices.foldl (input.admitContext stalled) state) := by
  induction indices generalizing state with
  | nil => exact booked
  | cons idx indices ih =>
    exact ih (fun i member => contexts i (.tail _ member))
      (booked.admitContext (contexts idx (.head _)) stalled)

theorem charges_generation {indices : List ℕ} (generations : ∀ i ∈ indices, input.isContextAt i = false) :
    input.charges indices = indices.length := by
  induction indices with
  | nil => rfl
  | cons idx indices ih =>
    have one : input.charge idx = 1 := by simp [charge, generations idx (.head _)]
    have rest := ih fun i member => generations i (.tail _ member)
    unfold charges at rest ⊢
    simp [one, rest, Nat.add_comm]

theorem Booked.generationPass : input.Booked input.generationPass := by
  have generations : ∀ i ∈ input.generationPass.fitting, input.isContextAt i = false := by
    intro i member
    rw [generationPass_eq] at member
    exact (mem_generationCandidates.mp (List.mem_of_mem_take member)).2.2
  have charged := charges_generation generations
  have room := generationPass_eq input
  have bound : input.generationRoom input.generationCandidates.length ≤
      min input.generationCandidates.length (min input.maxBatchSize input.maxNumTokens) := by
    unfold generationRoom
    omega
  refine ⟨?_, ?_, ?_, ?_⟩
  · rw [room]
    simp only [List.length_take]
    omega
  · rw [charged, room]
    simp only [List.length_take]
    omega
  · rw [room]
    simp only [List.length_take]
    omega
  · rw [charged, room]
    simp only [List.length_take]
    omega

/-- Once a running sequence has stalled, the context loop admits nothing. -/
theorem contextLoop_stalled (indices : List ℕ) (state : Admission) :
    (indices.foldl (input.admitContext true) state).fitting = state.fitting := by
  induction indices generalizing state with
  | nil => rfl
  | cons idx indices ih =>
    rw [List.foldl_cons, ih]
    rfl

/-- What the context loop admits was not held back by the watermark. -/
theorem contextLoop_watermark (indices : List ℕ) (stalled : Bool) (state : Admission) {i : ℕ}
    (admitted : i ∈ (indices.foldl (input.admitContext stalled) state).fitting) :
    i ∈ state.fitting ∨ ¬ input.heldBack i := by
  induction indices generalizing state with
  | nil => exact .inl admitted
  | cons idx indices ih =>
    rcases ih _ admitted with before | free
    · unfold admitContext at before
      split_ifs at before with stall held fits
      · exact .inl before
      · exact .inl before
      · rcases List.mem_append.mp before with before | here
        · exact .inl before
        · rw [List.mem_singleton.mp here]
          exact .inr held
      · exact .inl before
    · exact .inr free

/-- What the context loop pauses was stalled, held back, or too much at its own turn. -/
theorem contextLoop_paused (indices : List ℕ) (stalled : Bool) (state : Admission) {i : ℕ}
    (held : i ∈ (indices.foldl (input.admitContext stalled) state).paused) :
    i ∈ state.paused ∨ stalled = true ∨ input.heldBack i ∨
      ∃ done rest, indices = done ++ i :: rest ∧
        (input.maxBatchSize ≤ (done.foldl (input.admitContext stalled) state).batchUsed ∨
          input.maxNumTokens <
            (done.foldl (input.admitContext stalled) state).tokenUsed + input.remainingAt i) := by
  induction indices generalizing state with
  | nil => exact .inl held
  | cons idx indices ih =>
    rcases ih _ held with now | stall | low | ⟨done, rest, split, full⟩
    · unfold admitContext at now
      split_ifs at now with stall low fits
      · exact .inr (.inl stall)
      · rcases List.mem_append.mp now with before | here
        · exact .inl before
        · exact .inr (.inr (.inl (List.mem_singleton.mp here ▸ low)))
      · exact .inl now
      · rcases List.mem_append.mp now with before | here
        · exact .inl before
        · obtain rfl := List.mem_singleton.mp here
          refine .inr (.inr (.inr ⟨[], indices, rfl, ?_⟩))
          simpa only [not_and_or, not_lt, not_le, List.foldl_nil] using fits
    · exact .inr (.inl stall)
    · exact .inr (.inr (.inl low))
    · exact .inr (.inr (.inr ⟨idx :: done, rest, by rw [split]; rfl, full⟩))

/-! ### The decision as a whole -/

/-- The two loops deal out the ranked candidates: a leading segment of the generation ranking and
some context requests fit, the rest of both are paused. -/
theorem decideIndices_dealt (input : DecideInput) :
    ∃ admitted held, (admitted ++ held).Perm input.contextCandidates ∧
      (decideIndices input).1 = input.generationPass.fitting ++ admitted ∧
      (decideIndices input).2 = input.generationPass.paused ++ held ∧
      input.generationPass.fitting ++ input.generationPass.paused = input.generationCandidates := by
  obtain ⟨admitted, held, fits, pauses, dealt⟩ :=
    (admitContext_places (!input.generationPass.paused.isEmpty)).foldl input.contextCandidates
      input.generationPass
  refine ⟨admitted, held, dealt, fits, pauses, ?_⟩
  rw [generationPass_eq]
  exact List.take_append_drop _ _

theorem decideIndices_perm (input : DecideInput) :
    ((decideIndices input).1 ++ (decideIndices input).2).Perm
      (input.generationCandidates ++ input.contextCandidates) := by
  obtain ⟨admitted, held, dealt, fits, pauses, generation⟩ := decideIndices_dealt input
  rw [fits, pauses, ← generation]
  refine List.Perm.trans ?_ (List.Perm.append_left _ dealt)
  simp only [List.append_assoc]
  refine List.Perm.append_left _ ?_
  rw [← List.append_assoc, ← List.append_assoc]
  exact List.Perm.append_right _ List.perm_append_comm

theorem generation_of_mem_pass {i : ℕ}
    (member : i ∈ input.generationPass.fitting ++ input.generationPass.paused) :
    input.isContextAt i = false := by
  obtain ⟨_, _, _, _, _, generation⟩ := decideIndices_dealt input
  rw [generation] at member
  exact (mem_generationCandidates.mp member).2.2

theorem candidate_or_candidate {i : ℕ} :
    input.Candidate false i ∨ input.Candidate true i ↔
      i < input.ids.length ∧ input.idAt i ∉ input.inflight := by
  unfold Candidate
  cases input.isContextAt i <;> simp

/-- At the turn of a context request, what has been admitted is what the final answer shows as
served before it. -/
theorem contextLoop_servedBefore (distinct : input.ids.Nodup) (stalled : Bool) {done rest : List ℕ} {i : ℕ}
    (split : input.contextCandidates = done ++ i :: rest) :
    input.servedBefore
        (input.contextCandidates.foldl (input.admitContext stalled) input.generationPass).fitting i =
      (done.foldl (input.admitContext stalled) input.generationPass).fitting := by
  have ranked := contextCandidates_ranked distinct
  rw [split, List.pairwise_append] at ranked
  obtain ⟨_, after, before⟩ := ranked
  obtain ⟨late, _, fitsLate, _, dealtLate⟩ := (admitContext_places stalled).foldl (i :: rest)
    (done.foldl (input.admitContext stalled) input.generationPass)
  obtain ⟨early, _, fitsEarly, _, dealtEarly⟩ := (admitContext_places stalled).foldl done input.generationPass
  rw [split, List.foldl_append, fitsLate, servedBefore, List.filter_append]
  have keep : ∀ j ∈ (done.foldl (input.admitContext stalled) input.generationPass).fitting,
      input.isContextAt j = false ∨ input.ArrivesBefore j i := by
    intro j member
    rw [fitsEarly] at member
    rcases List.mem_append.mp member with generation | context
    · exact .inl (generation_of_mem_pass (List.mem_append_left _ generation))
    · have earlier : j ∈ done := dealtEarly.mem_iff.mp (List.mem_append_left _ context)
      exact .inr (before j earlier i (.head _))
  have drop : ∀ j ∈ late, ¬ (input.isContextAt j = false ∨ input.ArrivesBefore j i) := by
    intro j member
    have later : j ∈ i :: rest := dealtLate.mem_iff.mp (List.mem_append_left _ member)
    have context : input.isContextAt j = true :=
      (mem_contextCandidates.mp (split ▸ List.mem_append_right _ later)).2.2
    rw [context, arrivesBefore_iff]
    rcases List.mem_cons.mp later with rfl | later
    · simp
    · have order := arrivesBefore_iff.mp (List.rel_of_pairwise_cons after later)
      simpa using order.le
  rw [List.filter_eq_self.mpr (by simpa using keep), List.filter_eq_nil_iff.mpr (by simpa using drop),
    List.append_nil]

end DecideInput

open DecideInput in
/-- Every decision on aligned arrays with distinct ids meets the specification. -/
theorem decideIndices_meets_spec (input : DecideInput) (_aligned : input.Aligned)
    (distinct : input.ids.Nodup) :
    DecideSpec input (decideIndices input).1 (decideIndices input).2 := by
  obtain ⟨admitted, held, dealt, fits, pauses, generation⟩ := decideIndices_dealt input
  have contexts : ∀ i ∈ admitted ++ held, input.isContextAt i = true := fun i member =>
    (mem_contextCandidates.mp (dealt.mem_iff.mp member)).2.2
  have booked : input.Booked (input.contextPass input.generationPass) :=
    Booked.generationPass.contextLoop (fun i member => (mem_contextCandidates.mp member).2.2) _
  have stalls : (∃ i ∈ (decideIndices input).2, input.isContextAt i = false) ↔
      (!input.generationPass.paused.isEmpty) = true := by
    rw [pauses, Bool.not_eq_true', List.isEmpty_eq_false_iff_exists_mem]
    constructor
    · rintro ⟨i, member, phase⟩
      rcases List.mem_append.mp member with paused | context
      · exact ⟨i, paused⟩
      · simp [contexts i (List.mem_append_right _ context)] at phase
    · rintro ⟨i, paused⟩
      exact ⟨i, List.mem_append_left _ paused, generation_of_mem_pass (List.mem_append_right _ paused)⟩
  refine ⟨?_, ?_, ?_, booked.batch_le, booked.tokens_le, ?_, ?_, ?_⟩
  · rw [(decideIndices_perm input).nodup_iff, List.nodup_append]
    refine ⟨generationCandidates_nodup, contextCandidates_nodup, ?_⟩
    rintro i generation _ context rfl
    have phase := (mem_generationCandidates.mp generation).2.2
    simp [(mem_contextCandidates.mp context).2.2] at phase
  · intro i
    rw [(decideIndices_perm input).mem_iff, List.mem_append, mem_generationCandidates,
      mem_contextCandidates, candidate_or_candidate]
  · refine ⟨input.generationCandidates, generationCandidates_nodup, fun i => mem_generationCandidates,
      generationCandidates_ranked distinct, ?_⟩
    have first : input.generationPass.fitting.filter (fun i => !input.isContextAt i) =
        input.generationPass.fitting := by
      refine List.filter_eq_self.mpr fun i member => ?_
      simp [generation_of_mem_pass (List.mem_append_left _ member)]
    have second : admitted.filter (fun i => !input.isContextAt i) = [] := by
      refine List.filter_eq_nil_iff.mpr fun i member => ?_
      simp [contexts i (List.mem_append_left _ member)]
    rw [fits, List.filter_append, first, second, List.append_nil, generationPass_eq]
  · intro stalled i member
    have none : (decideIndices input).1 = input.generationPass.fitting := by
      have stop := stalls.mp stalled
      simp only [decideIndices, contextPass, stop, contextLoop_stalled]
    rw [none] at member
    exact generation_of_mem_pass (List.mem_append_left _ member)
  · intro i member context fresh
    rcases contextLoop_watermark _ _ _ member with generation | free
    · simp [generation_of_mem_pass (List.mem_append_left _ generation)] at context
    · exact not_lt.mp fun low => free ⟨fresh, low⟩
  · intro i member context
    rcases contextLoop_paused _ _ _ member with generation | stalled | low | ⟨done, rest, split, full⟩
    · simp [generation_of_mem_pass (List.mem_append_right _ generation)] at context
    · exact .inl (stalls.mpr stalled)
    · exact .inr (.inl low)
    · have turn := contextLoop_servedBefore distinct (!input.generationPass.paused.isEmpty) split
      have now : input.Booked (done.foldl (input.admitContext (!input.generationPass.paused.isEmpty))
          input.generationPass) := by
        refine Booked.generationPass.contextLoop (fun j earlier => ?_) _
        exact (mem_contextCandidates.mp (split ▸ List.mem_append_left _ earlier)).2.2
      have cost : input.charge i = input.remainingAt i := by simp [charge, context]
      have served : input.servedBefore (decideIndices input).1 i = _ := turn
      rw [served, cost, ← now.batch, ← now.tokens]
      exact .inr (.inr full)

/-- Three decodes, one of them inflight, and two prompts, of which only the half-done one fits. -/
def mixedInput : DecideInput where
  ids := [7, 3, 9, 4, 5]
  isContext := [false, false, true, true, false]
  promptLens := [8, 8, 40, 40, 8]
  contextDoneTokens := [8, 8, 0, 30, 8]
  arrivalMs := [0, 0, 1, 2, 0]
  inflight := [5]
  maxBatchSize := 8
  maxNumTokens := 20
  tokensGenerated := [5, 5, 0, 0, 5]
  maxNewTokens := [10, 5, 10, 10, 10]
  nowMs := 50
  itlBudgetMs := 20
  decodeOrder := .slack
  kvFreeBlocks := 1
  kvWatermarkBlocks := 4
  generationCap := 4

theorem decideIndices_meets_spec_mixed :
    decideIndices mixedInput = ([0, 1, 3], [2]) ∧
      DecideSpec mixedInput (decideIndices mixedInput).1 (decideIndices mixedInput).2 :=
  ⟨by decide +kernel, decideIndices_meets_spec mixedInput ⟨rfl, rfl, rfl, rfl, rfl, rfl⟩ (by decide)⟩

end TrtLlm.PyExt
