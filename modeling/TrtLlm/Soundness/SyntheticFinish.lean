import Mathlib.Data.Nat.ModEq
import TrtLlm.Soundness.DecodeBooks
import TrtLlm.Soundness.OrderFree

/-! # When the simulator's step finishes a sequence

The simulated step picks the finished sequences before it books, as those one token short of their request, and then
books `tokens_per_step` tokens. The two agree for sequences whose tokens still to come are one more than a multiple of
`tokens_per_step`; the residue is kept by every step. Other sequences run one step past their last token.
-/

namespace TrtLlm.Sched

namespace DecodeScheduler

variable {sched : DecodeScheduler}

/-! ### One simulated step -/

/-- The tokens one step books. -/
def perStep (sched : DecodeScheduler) : ℕ := max sched.tokensPerStep 1

/-- The ids that the simulated step reports as finished. -/
def nearlyDone (sched : DecodeScheduler) : List RequestId :=
  (sched.runningSeqs.filter fun seq => seq.requestedTokens ≤ seq.tokensEmitted + 1).map (·.id)

theorem Keyed.mem_nearlyDone (keyed : sched.Keyed) {id : RequestId} {seq : RunningSeq}
    (found : sched.running.lookup id = some seq) :
    id ∈ sched.nearlyDone ↔ seq.requestedTokens ≤ seq.tokensEmitted + 1 := by
  simp only [nearlyDone, List.mem_map, List.mem_filter, decide_eq_true_eq, and_assoc]
  rw [keyed.exists_runningSeqs, found]
  constructor
  · rintro ⟨other, same, short⟩
    rwa [Option.some.inj same]
  · exact fun short => ⟨seq, rfl, short⟩

theorem count_keys_eq_one {id : RequestId} {seq : RunningSeq} (found : sched.running.lookup id = some seq) :
    sched.running.keys.count id = 1 := by
  rw [AList.count_keys, if_pos (AList.mem_iff_exists_lookup.mpr ⟨_, found⟩)]

/-- In whatever orders it iterates, a simulated step is a step with the engine's two lists filled in. -/
theorem onStepSyntheticIn_alike (orders : StepOrders) (sched : DecodeScheduler) (now stepMs : Millis) :
    (sched.onStepSyntheticIn orders now stepMs).1.Perm
        (sched.onStep now stepMs sched.running.keys sched.nearlyDone).1 ∧
      Alike (sched.onStepSyntheticIn orders now stepMs).2
        (sched.onStep now stepMs sched.running.keys sched.nearlyDone).2 :=
  (Alike.refl sched).onStepSynthetic orders .stored now stepMs

/-- A simulated step books its tokens on every sequence and keeps those that were not reported. -/
theorem onStepSyntheticIn_lookup (orders : StepOrders) (keyed : sched.Keyed) (now stepMs : Millis) {id : RequestId}
    {seq : RunningSeq} (found : sched.running.lookup id = some seq) :
    (sched.onStepSyntheticIn orders now stepMs).2.running.lookup id =
      if seq.requestedTokens ≤ seq.tokensEmitted + 1 then none else some (seq.advance sched.perStep now) := by
  rw [(onStepSyntheticIn_alike orders sched now stepMs).2.same id, onStep_lookup, found, count_keys_eq_one found]
  simp only [keyed.mem_nearlyDone found, Option.map_some, RunningSeq.advanceTimes, perStep]

/-- The step returns the reported sequences as booked. -/
theorem mem_onStepSyntheticIn (orders : StepOrders) (keyed : sched.Keyed) (now stepMs : Millis) {later : RunningSeq} :
    later ∈ (sched.onStepSyntheticIn orders now stepMs).1 ↔ ∃ id seq, sched.running.lookup id = some seq ∧
      seq.requestedTokens ≤ seq.tokensEmitted + 1 ∧ later = seq.advance sched.perStep now := by
  rw [(onStepSyntheticIn_alike orders sched now stepMs).1.mem_iff, onStep_fst, List.mem_filterMap]
  constructor
  · rintro ⟨id, listed, booked⟩
    obtain ⟨seq, found, rfl⟩ := Option.map_eq_some_iff.mp booked
    rw [List.mem_eraseDups, keyed.mem_nearlyDone found] at listed
    rw [count_keys_eq_one found]
    exact ⟨id, seq, found, listed, rfl⟩
  · rintro ⟨id, seq, found, short, rfl⟩
    refine ⟨id, List.mem_eraseDups.mpr ((keyed.mem_nearlyDone found).mpr short), ?_⟩
    rw [found, count_keys_eq_one found]
    rfl

/-- A step that leaves no sequence running with everything booked raises no flag. -/
theorem onStepSyntheticIn_books (orders : StepOrders) (keyed : sched.Keyed) (now stepMs : Millis)
    (clean : sched.flagged = ∅)
    (unfinished : ∀ id seq, (sched.onStepSyntheticIn orders now stepMs).2.running.lookup id = some seq →
      seq.isDone = false) :
    (sched.onStepSyntheticIn orders now stepMs).2.flagged = ∅ ∧
      (sched.onStepSyntheticIn orders now stepMs).2.finishDisagreements = sched.finishDisagreements := by
  have stored := (onStepSyntheticIn_alike orders sched now stepMs).2
  generalize sched.onStepSyntheticIn orders now stepMs = result at stored unfinished ⊢
  have books := onStep_books keyed (by simp [clean]) now stepMs sched.running.keys sched.nearlyDone
  generalize (sched.onStep now stepMs sched.running.keys sched.nearlyDone).2 = after at stored books
  obtain ⟨flags, count, -⟩ := books
  obtain ⟨same⟩ := stored
  have none : result.2.flagged = ∅ := by
    refine Finset.eq_empty_of_forall_notMem fun id member => ?_
    obtain ⟨-, before | ⟨seq, found, done⟩⟩ := (flags id).mp member
    · rw [clean] at before
      exact absurd before (Finset.notMem_empty id)
    · rw [unfinished id seq ((same id).trans found)] at done
      cases done
  refine ⟨none, ?_⟩
  simp only [none, clean] at count
  simpa using count

theorem retire_tokensPerStep (finished : List RequestId) (sched : DecodeScheduler) :
    (retire finished sched).2.tokensPerStep = sched.tokensPerStep := by
  induction finished generalizing sched with
  | nil => rfl
  | cons id finished ih =>
    rw [retire]
    split <;> exact ih _

/-- No step changes how many tokens a step books. -/
theorem onStepSyntheticIn_tokensPerStep (orders : StepOrders) (sched : DecodeScheduler) (now stepMs : Millis) :
    (sched.onStepSyntheticIn orders now stepMs).2.tokensPerStep = sched.tokensPerStep := by
  have advanced : ∀ (ids : List RequestId) (before : DecodeScheduler),
      (ids.foldl (advance now) before).tokensPerStep = before.tokensPerStep := by
    intro ids
    induction ids with
    | nil => exact fun _ => rfl
    | cons id ids ih => exact fun before => (ih _).trans (advance_tokensPerStep now before id).1
  have flagged : ∀ (seqs : List RunningSeq) (before : DecodeScheduler),
      (seqs.foldl flagDone before).tokensPerStep = before.tokensPerStep := by
    intro seqs
    induction seqs with
    | nil => exact fun _ => rfl
    | cons seq seqs ih =>
      intro before
      rw [List.foldl_cons, ih, flagDone]
      split <;> rfl
  simp only [onStepSyntheticIn, onStepIn]
  rw [flagged, retire_tokensPerStep, advanced]

/-! ### The residue -/

/-- What still has to be booked is one more than a multiple of what a step books, and nothing is flagged. -/
structure Paced (sched : DecodeScheduler) : Prop where
  keyed : sched.Keyed
  clean : sched.flagged = ∅
  agreed : sched.finishDisagreements = 0
  begun : ∀ id seq, sched.running.lookup id = some seq → 2 ≤ seq.requestedTokens → seq.tokensEmitted < seq.requestedTokens
  residue : ∀ id seq, sched.running.lookup id = some seq → sched.perStep ∣ seq.requestedTokens - seq.tokensEmitted - 1

theorem perStep_pos (sched : DecodeScheduler) : 0 < sched.perStep := lt_max_of_lt_right Nat.one_pos

/-- With more than one token to go, a step of a paced sequence books all its tokens and leaves one to go at least. -/
theorem advance_of_dvd {perStep : ℕ} {seq : RunningSeq} (residue : perStep ∣ seq.requestedTokens - seq.tokensEmitted - 1)
    (more : seq.tokensEmitted + 1 < seq.requestedTokens) (now : Millis) :
    (seq.advance perStep now).tokensEmitted = seq.tokensEmitted + perStep ∧
      seq.tokensEmitted + perStep < seq.requestedTokens ∧
      perStep ∣ seq.requestedTokens - (seq.tokensEmitted + perStep) - 1 := by
  have least : perStep ≤ seq.requestedTokens - seq.tokensEmitted - 1 := Nat.le_of_dvd (by omega) residue
  refine ⟨min_eq_left (by omega), by omega, ?_⟩
  have shifted : seq.requestedTokens - (seq.tokensEmitted + perStep) - 1 =
      seq.requestedTokens - seq.tokensEmitted - 1 - perStep := by omega
  rw [shifted]
  exact Nat.dvd_sub residue dvd_rfl

/-- A running sequence of at least two tokens has some left to book, and a simulated step returns it if and only if the
step books the last of them. -/
def RetiresWhenBooked (sched : DecodeScheduler) : Prop :=
  ∀ id seq, sched.running.lookup id = some seq → 2 ≤ seq.requestedTokens →
    seq.tokensEmitted < seq.requestedTokens ∧
      ∀ (orders : StepOrders) (now stepMs : Millis),
        let booked := seq.advance sched.perStep now
        let (done, after) := sched.onStepSyntheticIn orders now stepMs
        (booked.requestedTokens ≤ booked.tokensEmitted → booked ∈ done ∧ id ∉ after.running) ∧
          (booked.tokensEmitted < booked.requestedTokens →
            id ∉ done.map (·.id) ∧ after.running.lookup id = some booked)

namespace Paced

theorem onStepSyntheticIn (paced : sched.Paced) (orders : StepOrders) (now stepMs : Millis) :
    (sched.onStepSyntheticIn orders now stepMs).2.Paced := by
  have rate := onStepSyntheticIn_tokensPerStep orders sched now stepMs
  obtain ⟨finished, retired⟩ := onStepSyntheticIn_spec orders paced.keyed now stepMs
  have kept : ∀ id later, (sched.onStepSyntheticIn orders now stepMs).2.running.lookup id = some later →
      later.tokensEmitted < later.requestedTokens ∧
        sched.perStep ∣ later.requestedTokens - later.tokensEmitted - 1 := by
    intro id later after
    have present := (retired.running id).mp (AList.mem_iff_exists_lookup.mpr ⟨_, after⟩)
    obtain ⟨seq, found⟩ := AList.mem_iff_exists_lookup.mp present.1
    rw [onStepSyntheticIn_lookup orders paced.keyed now stepMs found] at after
    split at after
    next => cases after
    next more =>
      rw [← Option.some.inj after]
      obtain ⟨booked, short, residue⟩ := advance_of_dvd (paced.residue id seq found) (by omega) now
      rw [booked]
      exact ⟨short, residue⟩
  obtain ⟨clean, agreed⟩ := onStepSyntheticIn_books orders paced.keyed now stepMs paced.clean fun id later after =>
    decide_eq_false (not_le.mpr (kept id later after).1)
  refine ⟨retired.keyed, clean, agreed.trans paced.agreed, fun id later after _ => (kept id later after).1, ?_⟩
  intro id later after
  rw [perStep, rate]
  exact (kept id later after).2

theorem retiresWhenBooked (paced : sched.Paced) : sched.RetiresWhenBooked := by
  intro id seq found asked
  have left := paced.begun id seq found asked
  refine ⟨left, fun orders now stepMs => ?_⟩
  have after := onStepSyntheticIn_lookup orders paced.keyed now stepMs found
  have returned := fun later => @mem_onStepSyntheticIn _ orders paced.keyed now stepMs later
  have positive := sched.perStep_pos
  dsimp only
  by_cases short : seq.requestedTokens ≤ seq.tokensEmitted + 1
  · rw [if_pos short] at after
    have last : (seq.advance sched.perStep now).tokensEmitted = seq.requestedTokens := min_eq_right (by omega)
    refine ⟨fun _ => ⟨(returned _).mpr ⟨id, seq, found, short, rfl⟩, AList.lookup_eq_none.mp after⟩, fun open' => ?_⟩
    exact absurd open' (by rw [last]; exact lt_irrefl _)
  · rw [if_neg short] at after
    obtain ⟨booked, room, -⟩ := advance_of_dvd (paced.residue id seq found) (by omega) now
    refine ⟨fun full => absurd full (by rw [booked]; exact not_le.mpr room), fun _ => ⟨fun listed => short ?_, after⟩⟩
    obtain ⟨later, member, same⟩ := List.mem_map.mp listed
    obtain ⟨other, old, before, ending, rfl⟩ := (returned later).mp member
    obtain rfl : other = id := (paced.keyed other old before).symm.trans same
    rwa [Option.some.inj (before.symm.trans found)] at ending

theorem note (paced : sched.Paced) (decision : AdmitDecision) : (sched.note decision).Paced := by
  cases decision <;> exact ⟨paced.keyed, paced.clean, paced.agreed, paced.begun, paced.residue⟩

/-- A new sequence joins with one token booked. -/
theorem admitSeq (paced : sched.Paced) {seq : RunningSeq} (first : seq.tokensEmitted = 1)
    (residue : sched.perStep ∣ seq.requestedTokens - 2) : (sched.admitSeq seq).Paced := by
  have found : ∀ id other, (sched.admitSeq seq).running.lookup id = some other →
      other = seq ∨ sched.running.lookup id = some other := by
    intro id other found
    change (sched.running.insert seq.id seq).lookup id = some other at found
    rw [AList.lookup_insert_eq_ite] at found
    split at found
    · exact .inl (Option.some.inj found).symm
    · exact .inr found
  refine ⟨paced.keyed.admitted seq, paced.clean, paced.agreed, fun id other present asked => ?_,
    fun id other present => ?_⟩
  · obtain rfl | before := found id other present
    · omega
    · exact paced.begun id other before asked
  · obtain rfl | before := found id other present
    · rwa [first, Nat.sub_sub]
    · exact paced.residue id other before

theorem remove (paced : sched.Paced) (id : RequestId) : (sched.remove id).2.Paced := by
  have found : ∀ other seq, (sched.remove id).2.running.lookup other = some seq →
      sched.running.lookup other = some seq := by
    intro other seq found
    change (sched.running.erase id).lookup other = some seq at found
    exact AList.lookup_of_erase found
  refine ⟨paced.keyed.erase id _, ?_, paced.agreed, fun other seq present => paced.begun other seq (found other seq present),
    fun other seq present => paced.residue other seq (found other seq present)⟩
  change sched.flagged.erase id = ∅
  rw [paced.clean, Finset.erase_empty]

end Paced

/-! ### Runs -/

/-- The calls a simulator makes; the only steps are simulated ones. -/
inductive SyntheticOp where
  | consult (kvHeadroom : Bool)
  | note (decision : AdmitDecision)
  | admitSeq (seq : RunningSeq)
  | admitAt (seq : RunningSeq) (now : Millis)
  | onStepSynthetic (orders : StepOrders) (now stepMs : Millis)
  | remove (id : RequestId)

namespace SyntheticOp

def apply (sched : DecodeScheduler) : SyntheticOp → DecodeScheduler
  | .consult kvHeadroom => sched.note (sched.canAdmit kvHeadroom)
  | .note decision => sched.note decision
  | .admitSeq seq => sched.admitSeq seq
  | .admitAt seq now => sched.admitAt seq now
  | .onStepSynthetic orders now stepMs => (sched.onStepSyntheticIn orders now stepMs).2
  | .remove id => (sched.remove id).2

/-- Sequences are admitted with their first token, and ask for one of the given counts. -/
def Enabled (asked : ℕ → Prop) : SyntheticOp → Prop
  | .admitSeq seq => seq.tokensEmitted = 1 ∧ asked seq.requestedTokens
  | .admitAt seq _ => seq.tokensEmitted = 1 ∧ asked seq.requestedTokens
  | _ => True

end SyntheticOp

/-- A new scheduler that is only stepped by the simulator. -/
def syntheticSystem (itlBudgetMs : Millis) (controller : ItlController) (tokensPerStep : ℕ) (asked : ℕ → Prop) :
    Machine.System DecodeScheduler SyntheticOp :=
  .ofFun (· = (new itlBudgetMs controller).setTokensPerStep tokensPerStep) (fun _ op => op.Enabled asked)
    SyntheticOp.apply

section Runs

variable {itlBudgetMs : Millis} {controller : ItlController} {tokensPerStep : ℕ} {asked : ℕ → Prop}

theorem perStep_apply (sched : DecodeScheduler) (op : SyntheticOp) : (op.apply sched).perStep = sched.perStep := by
  have noted : ∀ decision, (sched.note decision).perStep = sched.perStep := fun decision => by cases decision <;> rfl
  cases op with
  | consult kvHeadroom => exact noted _
  | note decision => exact noted decision
  | onStepSynthetic orders now stepMs =>
    exact congrArg (max · 1) (onStepSyntheticIn_tokensPerStep orders sched now stepMs)
  | admitSeq seq => rfl
  | admitAt seq now => rfl
  | remove id => rfl

theorem perStep_run {ops : List SyntheticOp} {sched : DecodeScheduler}
    (run : Machine.Run (syntheticSystem itlBudgetMs controller tokensPerStep asked) ops sched) :
    sched.perStep = max tokensPerStep 1 := by
  refine run.invariant (P := fun sched => sched.perStep = max tokensPerStep 1) ?_ ?_
  · rintro _ rfl
    exact max_eq_left (le_max_right _ _)
  · rintro before op _ same ⟨-, rfl⟩
    exact (perStep_apply before op).trans same

theorem Paced.apply (paced : sched.Paced) {op : SyntheticOp} (enabled : op.Enabled asked)
    (residues : ∀ requested, asked requested → sched.perStep ∣ requested - 2) : (op.apply sched).Paced := by
  cases op with
  | consult kvHeadroom => exact paced.note _
  | note decision => exact paced.note decision
  | admitSeq seq => exact paced.admitSeq enabled.1 (residues _ enabled.2)
  | admitAt seq now =>
    exact @Paced.admitSeq _ paced { seq with admittedMs := now, lastTokenMs := max seq.lastTokenMs now } enabled.1
      (residues _ enabled.2)
  | onStepSynthetic orders now stepMs => exact paced.onStepSyntheticIn orders now stepMs
  | remove id => exact paced.remove id

theorem paced_run (residues : ∀ requested, asked requested → max tokensPerStep 1 ∣ requested - 2)
    {ops : List SyntheticOp} {sched : DecodeScheduler}
    (run : Machine.Run (syntheticSystem itlBudgetMs controller tokensPerStep asked) ops sched) : sched.Paced := by
  induction run with
  | start first =>
    rw [show _ = _ from first]
    have empty : ∀ id, ((new itlBudgetMs controller).setTokensPerStep tokensPerStep).running.lookup id = none :=
      fun _ => rfl
    refine ⟨fun id seq found => ?_, rfl, rfl, fun id seq found => ?_, fun id seq found => ?_⟩ <;>
    · rw [empty id] at found
      cases found
  | snoc before taken paced =>
    rw [taken.2]
    exact paced.apply taken.1 fun requested listed => perStep_run before ▸ residues requested listed

/-- A sequence that is simulated from its admission on has a step's tokens booked for each step, as long as more than
one is still to come. -/
theorem exists_run_booked {requested : ℕ} (listed : asked requested) (steps : ℕ)
    (more : steps = 0 ∨ steps * max tokensPerStep 1 + 2 ≤ requested) :
    ∃ ops sched seq, Machine.Run (syntheticSystem itlBudgetMs controller tokensPerStep asked) ops sched ∧
      sched.Keyed ∧ sched.running.lookup 0 = some seq ∧ seq.requestedTokens = requested ∧
      seq.tokensEmitted = 1 + steps * max tokensPerStep 1 := by
  induction steps with
  | zero =>
    have start : Machine.Run (syntheticSystem itlBudgetMs controller tokensPerStep asked) [] _ := .start rfl
    have empty : Keyed ((new itlBudgetMs controller).setTokensPerStep tokensPerStep) := fun id seq found => by
      simp [setTokensPerStep, DecodeScheduler.new] at found
    refine ⟨_, _, .new 0 0 requested, start.apply (.admitSeq (.new 0 0 requested)) ⟨rfl, listed⟩, empty.admitted _, ?_, rfl,
      by rw [Nat.zero_mul]; rfl⟩
    exact AList.lookup_insert _
  | succ steps ih =>
    have positive : 0 < max tokensPerStep 1 := lt_max_of_lt_right Nat.one_pos
    rw [Nat.succ_mul] at more
    obtain ⟨ops, sched, seq, run, keyed, found, same, booked⟩ := ih (.inr (by omega))
    have rate := perStep_run run
    refine ⟨_, _, seq.advance sched.perStep 0, run.apply (.onStepSynthetic .stored 0 0) trivial, ?_, ?_, same, ?_⟩
    · obtain ⟨finished, retired⟩ := onStepSyntheticIn_spec .stored keyed 0 0
      exact retired.keyed
    · have after := onStepSyntheticIn_lookup .stored keyed 0 0 found
      rwa [if_neg (by omega)] at after
    · rw [rate, Nat.succ_mul]
      exact (min_eq_left (by omega)).trans (by omega)

/-- In every run the simulated steps return the sequences they finish and the books never disagree, if and only if each
count that may be asked for is two more than a multiple of what a step books, or less than two. -/
theorem retires_when_booked_iff (itlBudgetMs : Millis) (controller : ItlController) (tokensPerStep : ℕ)
    (asked : ℕ → Prop) :
    (∀ ops sched, Machine.Run (syntheticSystem itlBudgetMs controller tokensPerStep asked) ops sched →
        sched.finishDisagreements = 0 ∧ sched.RetiresWhenBooked) ↔
      ∀ requested, asked requested → max tokensPerStep 1 ∣ requested - 2 := by
  constructor
  · intro always requested listed
    by_contra odd
    have positive : 0 < max tokensPerStep 1 := lt_max_of_lt_right Nat.one_pos
    have split := Nat.div_add_mod' (requested - 2) (max tokensPerStep 1)
    have rest : (requested - 2) % max tokensPerStep 1 ≠ 0 := fun zero => odd (Nat.dvd_of_mod_eq_zero zero)
    have small := Nat.mod_lt (requested - 2) positive
    obtain ⟨ops, sched, seq, run, keyed, found, same, booked⟩ := @exists_run_booked itlBudgetMs controller tokensPerStep
      asked requested listed ((requested - 2) / max tokensPerStep 1) (.inr (by omega))
    obtain ⟨-, steps⟩ := (always ops sched run).2 0 seq found (by omega)
    have last : (seq.advance sched.perStep 0).tokensEmitted = seq.requestedTokens := by
      rw [perStep_run run]
      exact min_eq_right (by omega)
    obtain ⟨-, gone⟩ := (steps .stored 0 0).1 last.ge
    have after := onStepSyntheticIn_lookup .stored keyed 0 0 found
    rw [if_neg (by omega)] at after
    exact gone (AList.mem_iff_exists_lookup.mpr ⟨_, after⟩)
  · intro residues ops sched run
    have paced := paced_run residues run
    exact ⟨paced.agreed, paced.retiresWhenBooked⟩

end Runs

/-- Under speculation with one draft token, a request for three tokens is overdue after one step. -/
theorem speculative_sequence_overdue :
    ¬∀ tokensPerStep : ℕ, 1 ≤ tokensPerStep → ∀ ops sched,
      Machine.Run (syntheticSystem 20 (.new 20 4 1 4) tokensPerStep (2 ≤ ·)) ops sched →
        sched.finishDisagreements = 0 ∧ sched.RetiresWhenBooked := by
  intro always
  have start : Machine.Run (syntheticSystem 20 (.new 20 4 1 4) 2 (2 ≤ ·)) [] _ := .start rfl
  have run := (start.apply (.admitAt (.new 1 0 3) 5) ⟨rfl, by decide⟩).apply (.onStepSynthetic .stored 15 10) trivial
  have disagreement := (always 2 (by decide) _ _ run).1
  revert disagreement
  decide +kernel

end DecodeScheduler

end TrtLlm.Sched
