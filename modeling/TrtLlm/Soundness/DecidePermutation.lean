import TrtLlm.Soundness.DecideSpec
import TrtLlm.ToMathlib.ListSort

/-! # The decision does not depend on the listing order

Listing the same requests in another order renames the positions. The candidate lists are
renamed with them, the two sorts undo the renaming because ids tell the candidates apart, and
the budget loops only look at what a position holds.
-/

namespace TrtLlm.PyExt

namespace Admission

/-- Rename the positions in both lists. -/
def rename (f : ℕ → ℕ) (state : Admission) : Admission :=
  { state with fitting := state.fitting.map f, paused := state.paused.map f }

end Admission

namespace DecideInput

variable {input : DecideInput} {order : List ℕ} {inflight : List ℤ}

/-- The same requests listed in another order: position `i` shows what was at `order[i]`. -/
def relist (input : DecideInput) (order : List ℕ) (inflight : List ℤ) : DecideInput :=
  { input with
    ids := order.map input.idAt
    isContext := order.map input.isContextAt
    promptLens := order.map (input.promptLens.getD · 0)
    contextDoneTokens := order.map input.doneAt
    arrivalMs := order.map input.arrivalAt
    tokensGenerated := order.map (input.tokensGenerated.getD · 0)
    maxNewTokens := order.map (input.maxNewTokens.getD · 0)
    inflight }

/-- Where the request now at position `i` was listed before. -/
def origin (order : List ℕ) (i : ℕ) : ℕ := order.getD i 0

theorem getD_map_origin {β : Type*} (f : ℕ → β) (fallback : β) {i : ℕ} (inside : i < order.length) :
    (order.map f).getD i fallback = f (origin order i) := by
  simp [origin, inside]

variable {i j : ℕ}

theorem relist_idAt (inside : i < order.length) :
    (input.relist order inflight).idAt i = input.idAt (origin order i) :=
  getD_map_origin _ _ inside

theorem relist_isContextAt (inside : i < order.length) :
    (input.relist order inflight).isContextAt i = input.isContextAt (origin order i) :=
  getD_map_origin _ _ inside

theorem relist_arrivalAt (inside : i < order.length) :
    (input.relist order inflight).arrivalAt i = input.arrivalAt (origin order i) :=
  getD_map_origin _ _ inside

theorem relist_doneAt (inside : i < order.length) :
    (input.relist order inflight).doneAt i = input.doneAt (origin order i) :=
  getD_map_origin _ _ inside

theorem relist_remainingAt (inside : i < order.length) :
    (input.relist order inflight).remainingAt i = input.remainingAt (origin order i) := by
  have lengths : (input.relist order inflight).promptLens.getD i 0 =
      input.promptLens.getD (origin order i) 0 := getD_map_origin _ _ inside
  rw [remainingAt, remainingAt, lengths, relist_doneAt inside]

theorem relist_toleranceAt (inside : i < order.length) :
    (input.relist order inflight).toleranceAt i = input.toleranceAt (origin order i) := by
  have generated : (input.relist order inflight).tokensGenerated.getD i 0 =
      input.tokensGenerated.getD (origin order i) 0 := getD_map_origin _ _ inside
  have most : (input.relist order inflight).maxNewTokens.getD i 0 =
      input.maxNewTokens.getD (origin order i) 0 := getD_map_origin _ _ inside
  rw [toleranceAt, toleranceAt, relist_arrivalAt inside, generated, most]
  rfl

theorem relist_arrivalKey (inside : i < order.length) :
    (input.relist order inflight).arrivalKey i = input.arrivalKey (origin order i) := by
  rw [arrivalKey, arrivalKey, relist_arrivalAt inside, relist_idAt inside]

theorem relist_generationLe (hi : i < order.length) (hj : j < order.length) :
    (input.relist order inflight).generationLe i j ↔
      input.generationLe (origin order i) (origin order j) := by
  have slack : ∀ {k}, k < order.length →
      (input.relist order inflight).slackKey k = input.slackKey (origin order k) := by
    intro k inside
    rw [slackKey, slackKey, relist_toleranceAt inside, relist_idAt inside]
  unfold generationLe
  rw [relist_arrivalKey hi, relist_arrivalKey hj, slack hi, slack hj]
  rfl

theorem inside_of_mem_candidates {context : Bool} (member : i ∈ (input.relist order inflight).candidates context) :
    i < order.length := by
  have inside := (mem_candidates.mp member).1
  simpa [relist] using inside

theorem admitGeneration_relist (state : Admission) (idx : ℕ) :
    ((input.relist order inflight).admitGeneration state idx).rename (origin order) =
      input.admitGeneration (state.rename (origin order)) (origin order idx) := by
  unfold admitGeneration
  split
  next free =>
    rw [if_pos (by exact free)]
    simp [Admission.rename]
  next full =>
    rw [if_neg (by exact full)]
    simp [Admission.rename, Admission.pause]

theorem admitContext_relist (stalled : Bool) (state : Admission) (inside : i < order.length) :
    ((input.relist order inflight).admitContext stalled state i).rename (origin order) =
      input.admitContext stalled (state.rename (origin order)) (origin order i) := by
  have held : (input.relist order inflight).heldBack i ↔ input.heldBack (origin order i) := by
    unfold heldBack
    rw [relist_doneAt inside]
    rfl
  unfold admitContext
  rw [relist_remainingAt inside]
  split
  · simp [Admission.rename, Admission.pause]
  · simp only [held]
    split
    · simp [Admission.rename, Admission.pause]
    · split
      next fits =>
        rw [if_pos (by exact fits)]
        simp [Admission.rename]
      next full =>
        rw [if_neg (by exact full)]
        simp [Admission.rename, Admission.pause]

theorem generationLoop_relist (indices : List ℕ) (state : Admission) :
    (indices.foldl (input.relist order inflight).admitGeneration state).rename (origin order) =
      (indices.map (origin order)).foldl input.admitGeneration (state.rename (origin order)) := by
  induction indices generalizing state with
  | nil => rfl
  | cons idx indices ih =>
    rw [List.foldl_cons, ih, admitGeneration_relist]
    rfl

theorem contextLoop_relist (stalled : Bool) {indices : List ℕ} (inside : ∀ i ∈ indices, i < order.length)
    (state : Admission) :
    (indices.foldl ((input.relist order inflight).admitContext stalled) state).rename (origin order) =
      (indices.map (origin order)).foldl (input.admitContext stalled) (state.rename (origin order)) := by
  induction indices generalizing state with
  | nil => rfl
  | cons idx indices ih =>
    rw [List.foldl_cons, ih (fun i member => inside i (.tail _ member)),
      admitContext_relist stalled state (inside idx (.head _))]
    rfl

/-- The two hypotheses of this file: another listing of the same positions, and an inflight list
with the same members. -/
structure Relisting (input : DecideInput) (order : List ℕ) (inflight : List ℤ) : Prop where
  perm : order.Perm (List.range input.ids.length)
  inflight_iff : ∀ id, id ∈ inflight ↔ id ∈ input.inflight

namespace Relisting

variable (listing : Relisting input order inflight)

include listing

theorem candidates_perm (context : Bool) :
    (((input.relist order inflight).candidates context).map (origin order)).Perm (input.candidates context) := by
  have back : (List.range order.length).map (origin order) = order := by
    apply List.ext_getElem (by simp)
    intro k _ inside
    simp [origin, inside]
  have renamed : (input.relist order inflight).candidates context =
      (List.range order.length).filter
        ((fun i => decide (input.idAt i ∉ input.inflight ∧ input.isContextAt i = context)) ∘ origin order) := by
    unfold candidates
    have size : (input.relist order inflight).ids.length = order.length := List.length_map _
    rw [size]
    refine List.filter_congr fun i member => ?_
    have inside := List.mem_range.mp member
    rw [Function.comp, relist_idAt inside, relist_isContextAt inside]
    exact decide_eq_decide.mpr (and_congr_left' (not_congr (listing.inflight_iff _)))
  rw [renamed, ← List.filter_map, back]
  exact listing.perm.filter _

theorem generationCandidates_eq (distinct : input.ids.Nodup) :
    (input.relist order inflight).generationCandidates.map (origin order) = input.generationCandidates := by
  rw [generationCandidates, generationCandidates, List.map_insertionSort _ input.generationLe]
  · refine List.insertionSort_eq_of_perm (listing.candidates_perm false) ?_
    intro a ha b hb forth back
    have inside := (mem_candidates.mp ((listing.candidates_perm false).mem_iff.mp ha)).1
    have inside' := (mem_candidates.mp ((listing.candidates_perm false).mem_iff.mp hb)).1
    exact idAt_injective distinct inside inside' (generationLe_antisymm forth back)
  · intro a ha b hb
    exact relist_generationLe (inside_of_mem_candidates ha) (inside_of_mem_candidates hb)

theorem contextCandidates_eq (distinct : input.ids.Nodup) :
    (input.relist order inflight).contextCandidates.map (origin order) = input.contextCandidates := by
  rw [contextCandidates, contextCandidates,
    List.map_insertionSort _ fun i j => input.arrivalKey i ≤ input.arrivalKey j]
  · refine List.insertionSort_eq_of_perm (listing.candidates_perm true) ?_
    intro a ha b hb forth back
    have inside := (mem_candidates.mp ((listing.candidates_perm true).mem_iff.mp ha)).1
    have inside' := (mem_candidates.mp ((listing.candidates_perm true).mem_iff.mp hb)).1
    exact idAt_injective distinct inside inside'
      (congrArg (fun key => (ofLex key).2) (le_antisymm forth back))
  · intro a ha b hb
    rw [relist_arrivalKey (inside_of_mem_candidates ha),
      relist_arrivalKey (inside_of_mem_candidates hb)]

theorem decideIndices_origin (distinct : input.ids.Nodup) :
    (decideIndices (input.relist order inflight)).map (List.map (origin order)) (List.map (origin order)) =
      decideIndices input := by
  have generation : (input.relist order inflight).generationPass.rename (origin order) =
      input.generationPass := by
    rw [generationPass, generationLoop_relist, listing.generationCandidates_eq distinct]
    rfl
  have stalled : (input.relist order inflight).generationPass.paused.isEmpty =
      input.generationPass.paused.isEmpty := by
    rw [← generation]
    exact List.isEmpty_map.symm
  have inside : ∀ i ∈ (input.relist order inflight).contextCandidates, i < order.length := by
    intro i member
    rw [contextCandidates, List.mem_insertionSort] at member
    exact inside_of_mem_candidates member
  have context : ((input.relist order inflight).contextPass
        (input.relist order inflight).generationPass).rename (origin order) =
      input.contextPass input.generationPass := by
    rw [contextPass, contextLoop_relist _ inside, listing.contextCandidates_eq distinct, generation, stalled]
    rfl
  rw [decideIndices, decideIndices, ← context]
  rfl

end Relisting

theorem inside_of_mem_decideIndices
    (member : i ∈ (decideIndices input).1 ++ (decideIndices input).2) : i < input.ids.length := by
  rw [(decideIndices_perm input).mem_iff, List.mem_append, mem_generationCandidates,
    mem_contextCandidates, candidate_or_candidate] at member
  exact member.1

theorem map_idAt_relist {indices : List ℕ} (inside : ∀ i ∈ indices, i < order.length) :
    indices.map (input.relist order inflight).idAt = (indices.map (origin order)).map input.idAt := by
  rw [List.map_map]
  exact List.map_congr_left fun i member => relist_idAt (inside i member)

end DecideInput

open DecideInput in
/-- Any consistent reordering of the arrays, and any inflight list with the same members, give the
same ids in the same order in both lists. -/
theorem decision_independent_of_listing (input : DecideInput) (_aligned : input.Aligned)
    (distinct : input.ids.Nodup) (order : List ℕ) (perm : order.Perm (List.range input.ids.length))
    (inflight : List ℤ) (same : ∀ id, id ∈ inflight ↔ id ∈ input.inflight) :
    let again := input.relist order inflight
    (decideIndices again).1.map again.idAt = (decideIndices input).1.map input.idAt ∧
      (decideIndices again).2.map again.idAt = (decideIndices input).2.map input.idAt := by
  have listing : Relisting input order inflight := ⟨perm, same⟩
  have renamed := listing.decideIndices_origin distinct
  have inside : ∀ i ∈ (decideIndices (input.relist order inflight)).1 ++
      (decideIndices (input.relist order inflight)).2, i < order.length := by
    intro i member
    simpa [relist] using inside_of_mem_decideIndices member
  constructor
  · rw [map_idAt_relist fun i member => inside i (List.mem_append_left _ member), ← renamed]
    rfl
  · rw [map_idAt_relist fun i member => inside i (List.mem_append_right _ member), ← renamed]
    rfl

theorem decision_independent_of_listing_mixed :
    let again := mixedInput.relist [4, 2, 0, 3, 1] [5, 5]
    (decideIndices again).1.map again.idAt = [7, 3, 4] ∧
      (decideIndices again).1.map again.idAt = (decideIndices mixedInput).1.map mixedInput.idAt ∧
      (decideIndices again).2.map again.idAt = (decideIndices mixedInput).2.map mixedInput.idAt :=
  ⟨by decide +kernel, decision_independent_of_listing mixedInput ⟨rfl, rfl, rfl, rfl, rfl, rfl⟩ (by decide)
    [4, 2, 0, 3, 1] (by decide) [5, 5] (by intro id; simp [mixedInput])⟩

end TrtLlm.PyExt
