import Mathlib.Data.List.Nodup
import TrtLlm.Model.Engine.Mock
import TrtLlm.ToMathlib.AListLookup

/-! # What one decode step of the mock engine emits

Whatever the order of the visit, each attached sequence emits one token, at its next position, and is
reported finished exactly when that position reaches its budget.
-/

namespace TrtLlm.Engine.MockEngine

variable {engine : MockEngine}

/-- Sequences sit under their own ids. -/
def Keyed (engine : MockEngine) : Prop := ∀ id seq, engine.decode.lookup id = some seq → seq.spec.id = id

/-- A sequence one token further. -/
def next (seq : MockSeq) : MockSeq := { seq with emitted := seq.emitted + 1 }

/-- The token a sequence emits in the step. -/
def emits (seq : MockSeq) : RequestId × TokenId := (seq.spec.id, fakeToken seq.spec.id (seq.emitted + 1))

/-- The step uses up the sequence's budget. -/
def Finishes (seq : MockSeq) : Prop := seq.spec.maxTokens ≤ seq.emitted + 1

instance (seq : MockSeq) : Decidable (Finishes seq) := inferInstanceAs (Decidable (_ ≤ _))

theorem visit_lookup (outcome : DecodeStepOutcome) (id other : RequestId) :
    (visit (outcome, engine) id).2.decode.lookup other =
      if other = id then (engine.decode.lookup other).map next else engine.decode.lookup other := by
  unfold visit
  cases found : engine.decode.lookup id with
  | none =>
    simp only
    split
    next here => rw [here, found, Option.map_none]
    next => rfl
  | some seq =>
    refine (AList.lookup_insert_eq_ite other id _ _).trans ?_
    split
    next here =>
      rw [here, found]
      rfl
    next => rfl

/-- Visiting distinct ids emits one token for each attached one and moves exactly those. -/
theorem visit_all (ids : List RequestId) (distinct : ids.Nodup) (outcome : DecodeStepOutcome) (engine : MockEngine) :
    (ids.foldl visit (outcome, engine)).1.tokens =
        outcome.tokens ++ (ids.filterMap fun id => engine.decode.lookup id).map emits ∧
      (ids.foldl visit (outcome, engine)).1.finished = outcome.finished ++
        ((ids.filterMap fun id => engine.decode.lookup id).filter (Finishes ·)).map (·.spec.id) ∧
      ∀ other, (ids.foldl visit (outcome, engine)).2.decode.lookup other =
        if other ∈ ids then (engine.decode.lookup other).map next else engine.decode.lookup other := by
  induction ids generalizing outcome engine with
  | nil => simp
  | cons id ids ih =>
    rw [List.nodup_cons] at distinct
    obtain ⟨tokens, finished, lookups⟩ := ih distinct.2 (visit (outcome, engine) id).1 (visit (outcome, engine) id).2
    have same : ids.filterMap (fun other => (visit (outcome, engine) id).2.decode.lookup other) =
        ids.filterMap fun other => engine.decode.lookup other := by
      refine List.filterMap_congr fun other member => ?_
      rw [visit_lookup, if_neg]
      rintro rfl
      exact distinct.1 member
    rw [same] at tokens finished
    refine ⟨?_, ?_, fun other => ?_⟩
    · rw [List.foldl_cons, tokens, List.filterMap_cons]
      unfold visit
      cases engine.decode.lookup id with
      | none => rfl
      | some seq => simp [emits]
    · rw [List.foldl_cons, finished, List.filterMap_cons]
      unfold visit
      cases engine.decode.lookup id with
      | none => rfl
      | some seq =>
        by_cases ended : seq.spec.maxTokens ≤ seq.emitted + 1
        · simp [Finishes, ended]
        · simp [Finishes, ended]
    · rw [List.foldl_cons, lookups, visit_lookup]
      by_cases here : other = id
      · subst here
        simp [distinct.1]
      · simp [here]

theorem removeAll_lookup (ids : List RequestId) (engine : MockEngine) (other : RequestId) :
    (ids.foldl removeSeq engine).decode.lookup other =
      if other ∈ ids then none else engine.decode.lookup other := by
  rw [← AList.lookup_foldl_erase, List.foldl_hom MockEngine.decode]
  exact fun _ _ => rfl

/-- Among the tokens of distinct sequences, one request has at most its own. -/
theorem filter_emits (keyed : engine.Keyed) {ids : List RequestId} (distinct : ids.Nodup) (r : RequestId) :
    ((ids.filterMap fun id => engine.decode.lookup id).map emits).filter (fun emitted => emitted.1 = r) =
      if r ∈ ids then ((engine.decode.lookup r).map emits).toList else [] := by
  induction ids with
  | nil => rfl
  | cons id ids ih =>
    rw [List.nodup_cons] at distinct
    rw [List.filterMap_cons]
    cases found : engine.decode.lookup id with
    | none =>
      rw [ih distinct.2]
      by_cases here : r = id
      · subst here
        simp [found]
      · simp [here]
    | some seq =>
      have name : (emits seq).1 = id := keyed id seq found
      rw [List.map_cons, List.filter_cons, name, ih distinct.2]
      by_cases here : r = id
      · subst here
        simp [found, distinct.1]
      · simp [here, Ne.symm here]

theorem mem_finishes (keyed : engine.Keyed) (ids : List RequestId) (r : RequestId) :
    r ∈ ((ids.filterMap fun id => engine.decode.lookup id).filter (Finishes ·)).map (·.spec.id) ↔
      r ∈ ids ∧ ∃ seq, engine.decode.lookup r = some seq ∧ Finishes seq := by
  rw [List.mem_map]
  constructor
  · rintro ⟨seq, member, rfl⟩
    obtain ⟨listed, ended⟩ := List.mem_filter.mp member
    obtain ⟨id, inside, found⟩ := List.mem_filterMap.mp listed
    obtain rfl := keyed id seq found
    exact ⟨inside, seq, found, of_decide_eq_true ended⟩
  · rintro ⟨inside, seq, found, ended⟩
    refine ⟨seq, List.mem_filter.mpr ⟨List.mem_filterMap.mpr ⟨r, inside, found⟩, decide_eq_true ended⟩, ?_⟩
    exact keyed r seq found

/-- What the step does for one request: its token, whether it is reported finished, and where it stands after. -/
structure Stepped (engine : MockEngine) (out : DecodeStepOutcome × MockEngine) (r : RequestId) : Prop where
  tokens : out.1.tokens.filter (fun emitted => emitted.1 = r) = ((engine.decode.lookup r).map emits).toList
  finished : r ∈ out.1.finished ↔ ∃ seq, engine.decode.lookup r = some seq ∧ Finishes seq
  lookup : out.2.decode.lookup r =
    (engine.decode.lookup r).bind fun seq => if Finishes seq then none else some (next seq)

theorem decodeStep_spec (keyed : engine.Keyed) {arrange : List RequestId → List RequestId}
    (arranged : ∀ ids, (arrange ids).Perm ids) (elapsedMs : Millis) (r : RequestId) :
    Stepped engine (engine.decodeStep arrange elapsedMs) r := by
  unfold decodeStep
  split
  next empty =>
    have none : engine.decode.lookup r = none := by
      rw [AList.lookup_eq_none, AList.mem_keys, AList.keys, empty]
      exact List.not_mem_nil
    exact ⟨by rw [none]; rfl, by rw [none]; simp, by rw [none]; rfl⟩
  next =>
    have distinct : (arrange engine.decode.keys).Nodup := (arranged _).nodup_iff.mpr engine.decode.keys_nodup
    obtain ⟨tokens, finished, lookups⟩ := visit_all _ distinct { elapsedMs } engine
    have listed : r ∈ arrange engine.decode.keys ↔ (engine.decode.lookup r).isSome := by
      rw [(arranged _).mem_iff, ← AList.mem_keys, AList.lookup_isSome]
    refine ⟨?_, ?_, ?_⟩
    · rw [tokens]
      simp only [List.nil_append]
      rw [filter_emits keyed distinct]
      split
      next => rfl
      next absent =>
        rw [listed, Option.not_isSome_iff_eq_none] at absent
        rw [absent]
        rfl
    · rw [finished]
      simp only [List.nil_append]
      rw [mem_finishes keyed, listed]
      constructor
      · exact And.right
      · rintro ⟨seq, found, ended⟩
        exact ⟨Option.isSome_of_eq_some found, seq, found, ended⟩
    · simp only
      rw [removeAll_lookup, lookups, finished]
      simp only [List.nil_append]
      rw [if_congr (mem_finishes keyed _ _) rfl rfl, if_congr listed rfl rfl, if_congr (and_congr_left' listed) rfl rfl]
      cases found : engine.decode.lookup r with
      | none => simp
      | some seq => by_cases ended : Finishes seq <;> simp [ended]

/-- Attaching sequences. -/
theorem attach_lookup (added : List DecodeSeqSpec) (engine : MockEngine) (r : RequestId) :
    (r ∉ added.map (·.id) → (added.foldl addDecodeSeq engine).decode.lookup r = engine.decode.lookup r) ∧
      (r ∈ added.map (·.id) → ∃ spec ∈ added, spec.id = r ∧
        (added.foldl addDecodeSeq engine).decode.lookup r = some ⟨spec, 1⟩) := by
  induction added generalizing engine with
  | nil => simp
  | cons spec added ih =>
    obtain ⟨kept, placed⟩ := ih (engine.addDecodeSeq spec)
    rw [List.map_cons, List.mem_cons, not_or, List.foldl_cons]
    constructor
    · rintro ⟨apart, later⟩
      rw [kept later]
      exact AList.lookup_insert_ne apart
    · intro member
      by_cases later : r ∈ added.map (·.id)
      · obtain ⟨other, listed, facts⟩ := placed later
        exact ⟨other, .tail _ listed, facts⟩
      · obtain rfl := member.resolve_right later
        refine ⟨spec, .head _, rfl, ?_⟩
        rw [kept later]
        exact AList.lookup_insert _

theorem Keyed.attach (keyed : engine.Keyed) (added : List DecodeSeqSpec) :
    (added.foldl addDecodeSeq engine).Keyed := by
  intro id seq found
  obtain ⟨kept, placed⟩ := attach_lookup added engine id
  by_cases member : id ∈ added.map (·.id)
  · obtain ⟨spec, _, same, here⟩ := placed member
    rw [here] at found
    rw [← Option.some.inj found]
    exact same
  · rw [kept member] at found
    exact keyed id seq found

end TrtLlm.Engine.MockEngine
