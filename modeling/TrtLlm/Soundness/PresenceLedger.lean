import TrtLlm.Soundness.AdmissionRoom
import TrtLlm.ToMathlib.AListInverse
import TrtLlm.ToMathlib.ListLast

/-! # What the cross-step ledger knows

The ledger of the scheduler object is a function of the decisions taken so far: an id has an entry exactly while
one of the last decisions listed it, and the entry names the last of them. A decision that is refused for its
array lengths leaves no trace.
-/

namespace TrtLlm.PyExt

open List (LastWith)

/-! ### Candidates of a decision -/

namespace DecideInput

variable {input : DecideInput}

theorem countP_range_idAt (p : ℤ → Bool) :
    (List.range input.ids.length).countP (fun i => p (input.idAt i)) = input.ids.countP p := by
  have listed : (List.range input.ids.length).map input.idAt = input.ids := by
    refine List.ext_getElem (by simp) fun i _ inside => ?_
    simp [idAt, inside]
  conv_rhs => rw [← listed]
  rw [List.countP_map]
  rfl

/-- Every candidate that is not inflight is admitted or paused. -/
theorem length_answer (input : DecideInput) :
    (decideIndices input).1.length + (decideIndices input).2.length =
      (input.ids.filter fun id => id ∉ input.inflight).length := by
  have placed := (decideIndices_perm input).length_eq
  have generation : input.generationCandidates.length = (input.candidates false).length :=
    List.length_insertionSort _ _
  have context : input.contextCandidates.length = (input.candidates true).length := List.length_insertionSort _ _
  rw [List.length_append, List.length_append, generation, context] at placed
  rw [placed, ← List.countP_eq_length_filter, ← countP_range_idAt]
  unfold candidates
  induction List.range input.ids.length with
  | nil => rfl
  | cons i indices ih =>
    rw [List.countP_cons, ← ih]
    cases phase : input.isContextAt i <;> by_cases idle : input.idAt i ∈ input.inflight <;>
      simp [phase, idle] <;> omega

end DecideInput

namespace RustScheduler

variable {sched : RustScheduler} {id : ℤ}

/-! ### One decision -/

/-- Every array has the length of `ids`. -/
def Aligned (args : DecideArgs) : Prop := ∀ entry ∈ argLengths args, entry.2 = args.ids.length

instance (args : DecideArgs) : Decidable (Aligned args) := inferInstanceAs (Decidable (∀ _ ∈ _, _))

theorem validateLengths_cases (n : ℕ) (lens : List (String × ℕ)) :
    (validateLengths n lens = .ok n ∧ ∀ entry ∈ lens, entry.2 = n) ∨
      (∃ message, validateLengths n lens = .error message) ∧ ¬∀ entry ∈ lens, entry.2 = n := by
  induction lens with
  | nil => exact .inl ⟨rfl, fun entry member => absurd member List.not_mem_nil⟩
  | cons entry lens ih =>
    obtain ⟨name, len⟩ := entry
    rw [validateLengths]
    split
    next differ => exact .inr ⟨⟨_, rfl⟩, fun all => differ (all _ List.mem_cons_self)⟩
    next same =>
      rw [not_not] at same
      simpa only [List.forall_mem_cons, same, true_and] using ih

theorem decide_of_not_aligned {args : DecideArgs} (ragged : ¬Aligned args) :
    ∃ message, sched.decide args = (.error message, sched) := by
  rcases validateLengths_cases args.ids.length (argLengths args) with ⟨-, all⟩ | ⟨⟨message, failed⟩, -⟩
  · exact absurd all ragged
  · exact ⟨message, by rw [decide, failed]⟩

/-- What an accepted decision does to the books. -/
theorem decide_of_aligned {args : DecideArgs} (aligned : Aligned args) :
    ∃ fitting paused, (sched.decide args).1 = .ok (fitting, paused) ∧
      (sched.decide args).2.ledger = (sched.updateLedger args.ids args.nowMs).ledger ∧
      (sched.decide args).2.admittedTotal = sched.admittedTotal + fitting.length ∧
      (sched.decide args).2.pausedTotal = sched.pausedTotal + paused.length ∧
      fitting.length + paused.length = (args.ids.filter fun id => id ∉ args.inflight).length := by
  rcases validateLengths_cases args.ids.length (argLengths args) with ⟨valid, -⟩ | ⟨-, ragged⟩
  · rw [decide, valid]
    exact ⟨_, _, rfl, rfl, rfl, rfl, (sched.decideInput args).length_answer⟩
  · exact absurd aligned ragged

theorem error_iff (sched : RustScheduler) (args : DecideArgs) :
    (∃ message, (sched.decide args).1 = .error message) ↔ ¬Aligned args := by
  by_cases aligned : Aligned args
  · obtain ⟨fitting, paused, answered, -⟩ := sched.decide_of_aligned aligned
    simp [answered, aligned]
  · obtain ⟨message, failed⟩ := sched.decide_of_not_aligned aligned
    simp [failed, aligned]

theorem lookup_foldl_seen (ids : List ℤ) (entry : LedgerEntry) (ledger : HashMap ℤ LedgerEntry) :
    (ids.foldl (fun ledger id => ledger.insert id entry) ledger).lookup id =
      if id ∈ ids then some entry else ledger.lookup id := by
  induction ids generalizing ledger with
  | nil => simp
  | cons first ids ih =>
    rw [List.foldl_cons, ih, AList.lookup_insert_eq_ite]
    by_cases later : id ∈ ids
    · rw [if_pos later, if_pos (List.mem_cons_of_mem _ later)]
    · rw [if_neg later]
      exact if_congr (by simp [later]) rfl rfl

/-- A listed id starts over; any other is a step older, or forgotten. -/
theorem updateLedger_lookup (ids : List ℤ) (nowMs : Millis) :
    (sched.updateLedger ids nowMs).ledger.lookup id =
      if id ∈ ids then some ⟨nowMs, 0⟩
      else (sched.ledger.lookup id).bind fun entry =>
        if entry.stepsAbsent + 1 ≤ ledgerForgetSteps then some { entry with stepsAbsent := entry.stepsAbsent + 1 }
        else none := by
  rw [updateLedger]
  dsimp only
  rw [AList.lookup_retain, lookup_foldl_seen]
  by_cases listed : id ∈ ids
  · simp [listed]
  · simp [listed]

/-! ### The history of a run -/

/-- The decisions among the calls that were not refused, oldest first. -/
def decided (ops : List SchedulerOp) : List DecideArgs :=
  ops.filterMap fun
    | .decide args => if Aligned args then some args else none
    | .observe _ _ => none

/-- The books hold what the decisions `calls` leave behind. -/
structure Recorded (calls : List DecideArgs) (sched : RustScheduler) : Prop where
  lookup : ∀ id entry, sched.ledger.lookup id = some entry ↔
    ∃ call after, LastWith (fun call => id ∈ call.ids) calls call after ∧ after.length ≤ ledgerForgetSteps ∧
      entry = ⟨call.nowMs, after.length⟩
  total : sched.admittedTotal + sched.pausedTotal =
    (calls.map fun call => (call.ids.filter fun id => id ∉ call.inflight).length).sum

variable {calls : List DecideArgs}

theorem Recorded.decide (recorded : sched.Recorded calls) {args : DecideArgs} (aligned : Aligned args) :
    (sched.decide args).2.Recorded (calls ++ [args]) := by
  obtain ⟨fitting, paused, -, ledger, admitted, refused, sizes⟩ := sched.decide_of_aligned aligned
  refine ⟨fun id entry => ?_, ?_⟩
  · rw [ledger, updateLedger_lookup]
    split
    next listed =>
      simp only [List.lastWith_concat_of_pos (P := fun call : DecideArgs => id ∈ call.ids) listed, Option.some_inj]
      constructor
      · rintro rfl
        exact ⟨args, [], ⟨rfl, rfl⟩, Nat.zero_le _, rfl⟩
      · rintro ⟨call, after, ⟨rfl, rfl⟩, -, rfl⟩
        rfl
    next unlisted =>
      simp only [List.lastWith_concat_of_neg (P := fun call : DecideArgs => id ∈ call.ids) unlisted,
        Option.bind_eq_some_iff]
      constructor
      · rintro ⟨old, found, kept⟩
        obtain ⟨call, after, last, -, rfl⟩ := (recorded.lookup id old).mp found
        split at kept
        next recent =>
          obtain rfl := Option.some.inj kept
          refine ⟨call, after ++ [args], ⟨after, rfl, last⟩, ?_, ?_⟩
          · rwa [List.length_append]
          · rw [List.length_append, List.length_singleton]
        next => cases kept
      · rintro ⟨call, _, ⟨after, rfl, last⟩, recent, rfl⟩
        rw [List.length_append, List.length_singleton] at recent ⊢
        refine ⟨_, (recorded.lookup id _).mpr ⟨call, after, last, by omega, rfl⟩, ?_⟩
        rw [if_pos recent]
  · rw [admitted, refused, List.map_append, List.sum_append, ← recorded.total, List.map_singleton,
      List.sum_singleton, ← sizes]
    omega

theorem decided_concat (ops : List SchedulerOp) (op : SchedulerOp) :
    decided (ops ++ [op]) = decided ops ++ decided [op] := List.filterMap_append

theorem Recorded.apply {ops : List SchedulerOp} (recorded : sched.Recorded (decided ops)) (op : SchedulerOp) :
    (sched.apply op).Recorded (decided (ops ++ [op])) := by
  rw [decided_concat]
  cases op with
  | observe stepMs concurrency =>
    rw [show decided [.observe stepMs concurrency] = [] from rfl, List.append_nil]
    exact ⟨recorded.lookup, recorded.total⟩
  | decide args =>
    by_cases aligned : Aligned args
    · rw [show decided [.decide args] = [args] by simp [decided, aligned]]
      exact recorded.decide aligned
    · obtain ⟨message, failed⟩ := sched.decide_of_not_aligned aligned
      rw [show decided [.decide args] = [] by simp [decided, aligned], List.append_nil, RustScheduler.apply, failed]
      exact recorded

theorem recorded_new (maxBatchSize maxNumTokens : ℕ) (itlBudgetMs : Millis) (kvTotalBlocks : ℕ)
    (orderSetting : Option String) :
    (new maxBatchSize maxNumTokens itlBudgetMs kvTotalBlocks orderSetting).Recorded [] := by
  refine ⟨fun id entry => ?_, rfl⟩
  simp [new, List.not_lastWith_nil]

theorem recorded_of_run {ops : List SchedulerOp} (run : Machine.Run system ops sched) :
    sched.Recorded (decided ops) := by
  refine run.induct (P := fun ops sched => sched.Recorded (decided ops)) ?_ ?_
  · rintro _ ⟨maxBatchSize, maxNumTokens, itlBudgetMs, kvTotalBlocks, orderSetting, rfl⟩
    exact recorded_new _ _ _ _ _
  · rintro ops sched op _ recorded ⟨-, rfl⟩
    exact recorded.apply op

/-! ### What the books say -/

theorem Recorded.tracked_iff (recorded : sched.Recorded calls) (id : ℤ) :
    id ∈ sched.ledger ↔ ∃ call ∈ calls.rtake (ledgerForgetSteps + 1), id ∈ call.ids := by
  rw [← List.exists_lastWith_iff, ← AList.lookup_isSome, Option.isSome_iff_exists]
  simp only [recorded.lookup]
  constructor
  · rintro ⟨_, call, after, last, recent, rfl⟩
    exact ⟨call, after, last, Nat.lt_succ_of_le recent⟩
  · rintro ⟨call, after, last, recent⟩
    exact ⟨_, call, after, last, Nat.le_of_lt_succ recent, rfl⟩

/-- An entry is of age zero exactly when the latest decision listed the id. -/
theorem Recorded.away_iff (recorded : sched.Recorded calls) {id : ℤ} {entry : LedgerEntry}
    (found : sched.ledger.lookup id = some entry) :
    0 < entry.stepsAbsent ↔ ∀ latest ∈ calls.getLast?, id ∉ latest.ids := by
  obtain ⟨call, after, ⟨before, rfl, listed, none⟩, -, rfl⟩ := (recorded.lookup id entry).mp found
  cases after using List.reverseRecOn with
  | nil => simp [listed]
  | append_singleton after last =>
    have away := none last (List.mem_append_right _ (List.mem_singleton_self _))
    rw [← List.cons_append, ← List.append_assoc, List.getLast?_concat]
    simp [away]

theorem Recorded.absent (recorded : sched.Recorded calls) (nowMs : Millis) :
    (sched.absent nowMs).1 =
      (sched.ledger.keys.filter fun id => ∀ latest ∈ calls.getLast?, id ∉ latest.ids).length := by
  rw [RustScheduler.absent, AList.keys, List.keys, ← List.countP_eq_length_filter, ← List.countP_eq_length_filter,
    List.countP_map, List.countP_map]
  refine List.countP_congr fun entry member => ?_
  have found : sched.ledger.lookup entry.1 = some entry.2 := AList.mem_lookup_iff.mpr member
  simpa using recorded.away_iff found

theorem stats_lookup (sched : RustScheduler) :
    sched.stats.lookup "absent" = some ((sched.absent sched.lastNowMs).1 : ℚ) ∧
      sched.stats.lookup "admitted" = some (sched.admittedTotal : ℚ) ∧
      sched.stats.lookup "refused" = some (sched.pausedTotal : ℚ) := by
  refine ⟨?_, ?_, ?_⟩ <;> simp [stats, -AList.insert_empty]

/-- After any calls at all: a refused decision changes nothing; an id is tracked exactly when one of the last
`LEDGER_FORGET_STEPS + 1` accepted decisions listed it, with the time of the last of these and the number of
decisions since; and the reported counts are those of the ids away and of the candidates answered. -/
theorem ledger_is_exact (maxBatchSize maxNumTokens : ℕ) (itlBudgetMs : Millis) (kvTotalBlocks : ℕ)
    (orderSetting : Option String) (ops : List SchedulerOp) :
    let sched := ops.foldl apply (new maxBatchSize maxNumTokens itlBudgetMs kvTotalBlocks orderSetting)
    let calls := decided ops
    (∀ args, (∃ message, (sched.decide args).1 = .error message) ↔ ¬Aligned args) ∧
      (∀ args message, (sched.decide args).1 = .error message → (sched.decide args).2 = sched) ∧
      (∀ id, id ∈ sched.ledger ↔ ∃ call ∈ calls.rtake (ledgerForgetSteps + 1), id ∈ call.ids) ∧
      (∀ id entry, sched.ledger.lookup id = some entry → ∃ before call after, calls = before ++ call :: after ∧
        id ∈ call.ids ∧ (∀ later ∈ after, id ∉ later.ids) ∧ entry.lastSeenMs = call.nowMs ∧
        entry.stepsAbsent = after.length) ∧
      sched.stats.lookup "absent" =
        some ((sched.ledger.keys.filter fun id => ∀ latest ∈ calls.getLast?, id ∉ latest.ids).length : ℚ) ∧
      ∃ admitted refused, sched.stats.lookup "admitted" = some admitted ∧
        sched.stats.lookup "refused" = some refused ∧
        admitted + refused =
          ((calls.map fun call => (call.ids.filter fun id => id ∉ call.inflight).length).sum : ℕ) := by
  intro sched calls
  have start : Machine.Run system [] (new maxBatchSize maxNumTokens itlBudgetMs kvTotalBlocks orderSetting) :=
    .start ⟨_, _, _, _, _, rfl⟩
  have recorded : sched.Recorded calls := recorded_of_run (start.foldl (fun _ _ => trivial) ops)
  obtain ⟨absent, admitted, refused⟩ := sched.stats_lookup
  refine ⟨sched.error_iff, fun args message failed => ?_, recorded.tracked_iff, fun id entry found => ?_, ?_,
    _, _, admitted, refused, ?_⟩
  · obtain ⟨other, unchanged⟩ := sched.decide_of_not_aligned ((sched.error_iff args).mp ⟨message, failed⟩)
    rw [unchanged]
  · obtain ⟨call, after, ⟨before, split, listed, none⟩, -, rfl⟩ := (recorded.lookup id entry).mp found
    exact ⟨before, call, after, split, listed, none, rfl, rfl⟩
  · rw [absent, recorded.absent]
  · exact_mod_cast recorded.total

end RustScheduler

end TrtLlm.PyExt
