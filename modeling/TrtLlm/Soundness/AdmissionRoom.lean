import TrtLlm.Machine.Path
import TrtLlm.Model.PyExt.RustScheduler
import TrtLlm.Soundness.ControllerCap
import TrtLlm.Soundness.DecideSpec
import TrtLlm.ToMathlib.FirstFit

/-! # Who finds room in an admission decision

The answer of `decide_indices` in closed form: the first generation requests the three budgets let through, and,
if none of those had to wait, a first-fit packing of the context requests that the watermark does not hold
back. A whole remaining prompt is charged at once, so a prompt longer than the token budget never fits.
-/

namespace TrtLlm.PyExt

open Sched

namespace DecideInput

variable {input : DecideInput}

/-- Slots and tokens left to the context requests, when as many generation requests run as fit. -/
def packContext (input : DecideInput) (indices : List ℕ) : List ℕ :=
  let room := input.generationRoom input.generationCandidates.length
  List.firstFit input.remainingAt (input.maxBatchSize - room) (input.maxNumTokens - room) indices

/-- Some generation request is left without room. -/
def Stalls (input : DecideInput) : Prop :=
  input.generationRoom input.generationCandidates.length < input.generationCandidates.length

instance : Decidable input.Stalls := inferInstanceAs (Decidable (_ < _))

/-- The context requests that the watermark lets through, in arrival order. -/
def startable (input : DecideInput) : List ℕ := input.contextCandidates.filter fun i => ¬ input.heldBack i

theorem contextLoop_packs (indices : List ℕ) (state : Admission) (within : state.tokenUsed ≤ input.maxNumTokens) :
    (indices.foldl (input.admitContext false) state).fitting =
      state.fitting ++ List.firstFit input.remainingAt (input.maxBatchSize - state.batchUsed)
        (input.maxNumTokens - state.tokenUsed) (indices.filter fun i => ¬ input.heldBack i) := by
  induction indices generalizing state with
  | nil => simp
  | cons idx indices ih =>
    rw [List.foldl_cons, admitContext, if_neg Bool.false_ne_true]
    split
    next held =>
      rw [ih (state.pause idx) within, List.filter_cons_of_neg (by simpa using held)]
      rfl
    next free =>
      rw [List.filter_cons_of_pos (by simpa using free)]
      split
      next fits =>
        rw [ih _ fits.2, List.firstFit_cons_of_fits ⟨by omega, by omega⟩, Nat.sub_sub, Nat.sub_sub,
          List.append_assoc, List.singleton_append]
      next full =>
        rw [List.firstFit_cons_of_not (by omega), ih (state.pause idx) within]
        rfl

theorem fitting_eq (input : DecideInput) :
    (decideIndices input).1 =
      input.generationCandidates.take (input.generationRoom input.generationCandidates.length) ++
        if input.Stalls then [] else input.packContext input.startable := by
  have generation := generationPass_eq input
  have paused : (!input.generationPass.paused.isEmpty) = decide input.Stalls := by
    rw [generation, Bool.eq_iff_iff, decide_eq_true_iff]
    simp [Stalls]
  have within : input.generationPass.tokenUsed ≤ input.maxNumTokens := by
    rw [generation, generationRoom]
    dsimp only
    omega
  rw [decideIndices, contextPass, paused]
  split
  next stalls => rw [decide_eq_true stalls, contextLoop_stalled, generation, List.append_nil]
  next flows =>
    rw [decide_eq_false flows, contextLoop_packs _ _ within, generation]
    rfl

theorem mem_fitting_generation {i : ℕ} (candidate : input.Candidate false i) :
    i ∈ (decideIndices input).1 ↔
      i ∈ input.generationCandidates.take (input.generationRoom input.generationCandidates.length) := by
  rw [fitting_eq, List.mem_append, or_iff_left]
  split
  next => exact List.not_mem_nil
  next =>
    intro packed
    have context := mem_contextCandidates.mp (List.mem_of_mem_filter ((List.firstFit_sublist _).subset packed))
    exact absurd (candidate.2.2.symm.trans context.2.2) Bool.false_ne_true

theorem mem_fitting_context {i : ℕ} (candidate : input.Candidate true i) :
    i ∈ (decideIndices input).1 ↔ ¬ input.Stalls ∧ i ∈ input.packContext input.startable := by
  have other : i ∉ input.generationCandidates.take (input.generationRoom input.generationCandidates.length) := by
    intro generation
    have phase := (mem_generationCandidates.mp (List.mem_of_mem_take generation)).2.2
    exact absurd (phase.symm.trans candidate.2.2) Bool.false_ne_true
  rw [fitting_eq, List.mem_append, or_iff_right other]
  split
  next stalls => simp [stalls]
  next flows => simp [flows]

/-- The budgets let a candidate through: a generation request by its place in the order, a context request when no
generation request waits, the watermark lets it start, and it finds a slot and enough tokens at its turn. -/
def GetsThrough (input : DecideInput) (i : ℕ) : Prop :=
  let room := input.generationRoom input.generationCandidates.length
  (input.Candidate false i ∧ input.generationCandidates.idxOf i < room) ∨
    (¬ input.Stalls ∧ ∃ before after, input.startable = before ++ i :: after ∧
      (input.packContext before).length < input.maxBatchSize - room ∧
      ((input.packContext before).map input.remainingAt).sum + input.remainingAt i ≤ input.maxNumTokens - room)

theorem mem_fitting_iff {i : ℕ} : i ∈ (decideIndices input).1 ↔ input.GetsThrough i := by
  rw [fitting_eq, List.mem_append, GetsThrough]
  refine or_congr ?_ ?_
  · constructor
    · intro early
      have member := List.mem_of_mem_take early
      exact ⟨mem_generationCandidates.mp member, (List.mem_take_iff_idxOf_lt member).mp early⟩
    · rintro ⟨candidate, place⟩
      exact (List.mem_take_iff_idxOf_lt (mem_generationCandidates.mpr candidate)).mpr place
  · split
    next stalls => simp [stalls]
    next flows =>
      have distinct : input.startable.Nodup := contextCandidates_nodup.filter _
      rw [and_iff_right flows]
      constructor
      · intro packed
        obtain ⟨before, after, split⟩ := List.append_of_mem ((List.firstFit_sublist _).subset packed)
        rw [split] at distinct
        rw [packContext, split, List.mem_firstFit_iff_turn distinct] at packed
        exact ⟨before, after, split, packed⟩
      · rintro ⟨before, after, split, turn⟩
        rw [split] at distinct
        rw [packContext, split, List.mem_firstFit_iff_turn distinct]
        exact turn

theorem mem_paused {i : ℕ} (inside : i < input.ids.length) (free : input.idAt i ∉ input.inflight)
    (unfit : i ∉ (decideIndices input).1) : i ∈ (decideIndices input).2 := by
  have placed : i ∈ (decideIndices input).1 ++ (decideIndices input).2 := by
    rw [(decideIndices_perm input).mem_iff, List.mem_append, mem_generationCandidates, mem_contextCandidates,
      candidate_or_candidate]
    exact ⟨inside, free⟩
  exact (List.mem_append.mp placed).resolve_left unfit

/-- A prompt with more left to do than the token budget is paused. -/
theorem oversized_paused {i : ℕ} (candidate : input.Candidate true i)
    (oversized : input.maxNumTokens < input.remainingAt i) :
    i ∈ (decideIndices input).2 := by
  refine mem_paused candidate.1 candidate.2.1 fun fits => ?_
  have packed := ((mem_fitting_context candidate).mp fits).2
  have total := @List.sum_firstFit_le _ input.remainingAt
    (input.maxBatchSize - input.generationRoom input.generationCandidates.length)
    (input.maxNumTokens - input.generationRoom input.generationCandidates.length) input.startable
  have share := List.single_le_sum (by simp) _ (List.mem_map_of_mem (f := input.remainingAt) packed)
  rw [packContext] at share
  omega

/-- With the watermark met and every budget positive, nothing fits only when all that is offered is prompts longer
than the token budget. -/
theorem fitting_ne_nil_iff (cap : 1 ≤ input.generationCap) (batch : 1 ≤ input.maxBatchSize)
    (tokens : 1 ≤ input.maxNumTokens) (free : input.kvWatermarkBlocks ≤ input.kvFreeBlocks) :
    (decideIndices input).1 ≠ [] ↔
      (∃ i, input.Candidate false i) ∨ ∃ i, input.Candidate true i ∧ input.remainingAt i ≤ input.maxNumTokens := by
  by_cases generation : input.generationCandidates = []
  · have none : ¬ ∃ i, input.Candidate false i := by
      rintro ⟨i, candidate⟩
      exact List.not_mem_nil (generation ▸ mem_generationCandidates.mpr candidate)
    have room : input.generationRoom 0 = 0 := Nat.zero_min _
    have all : input.startable = input.contextCandidates := by
      refine List.filter_eq_self.mpr fun i _ => ?_
      simp only [heldBack, not_and, not_lt, decide_eq_true_eq]
      exact fun _ => free
    have flows : ¬ input.Stalls := by simp [Stalls, generation, room]
    rw [fitting_eq, if_neg flows, packContext, all, generation, List.length_nil, room, Nat.sub_zero, Nat.sub_zero,
      List.take_nil, List.nil_append, List.firstFit_ne_nil_iff batch, or_iff_right none]
    simp only [mem_contextCandidates]
  · obtain ⟨first, rest, split⟩ := List.exists_cons_of_ne_nil generation
    have some : ∃ i, input.Candidate false i :=
      ⟨first, mem_generationCandidates.mp (split ▸ List.mem_cons_self)⟩
    have room : 0 < input.generationRoom input.generationCandidates.length := by
      rw [generationRoom, split, List.length_cons]
      omega
    refine iff_of_true (fun nothing => ?_) (.inl some)
    rw [fitting_eq, List.append_eq_nil_iff, List.take_eq_nil_iff] at nothing
    exact nothing.1.elim room.ne' generation

end DecideInput

namespace RustScheduler

/-! ## The scheduler object over a run -/

/-- What the engine loop calls. -/
inductive SchedulerOp where
  | decide (args : DecideArgs)
  | observe (stepMs : Millis) (concurrency : ℕ)
deriving DecidableEq, Repr

def apply (sched : RustScheduler) : SchedulerOp → RustScheduler
  | .decide args => (sched.decide args).2
  | .observe stepMs concurrency => sched.observe stepMs concurrency

/-- Any scheduler object under any sequence of calls. -/
def system : Machine.System RustScheduler SchedulerOp :=
  .ofFun (fun sched => ∃ maxBatchSize maxNumTokens itlBudgetMs kvTotalBlocks orderSetting,
    sched = new maxBatchSize maxNumTokens itlBudgetMs kvTotalBlocks orderSetting) (fun _ _ => True) apply

/-- What no call changes: the watermark is a twentieth of the pool, and the cap stays at one or more. -/
structure Sound (sched : RustScheduler) : Prop where
  watermark : sched.kvWatermarkBlocks = sched.kvTotalBlocks / 20
  cap : sched.controller.Ranged 1 (max sched.maxBatchSize 1 : ℕ)

variable {sched : RustScheduler}

theorem sound_new (maxBatchSize maxNumTokens : ℕ) (itlBudgetMs : Millis) (kvTotalBlocks : ℕ)
    (orderSetting : Option String) : (new maxBatchSize maxNumTokens itlBudgetMs kvTotalBlocks orderSetting).Sound :=
  ⟨rfl, ItlController.ranged_new _ _ _ _⟩

theorem decide_frame (sched : RustScheduler) (args : DecideArgs) :
    (sched.decide args).2.kvWatermarkBlocks = sched.kvWatermarkBlocks ∧
      (sched.decide args).2.kvTotalBlocks = sched.kvTotalBlocks ∧
      (sched.decide args).2.controller = sched.controller ∧
      (sched.decide args).2.maxBatchSize = sched.maxBatchSize := by
  rw [decide]
  split <;> exact ⟨rfl, rfl, rfl, rfl⟩

theorem Sound.apply (sound : sched.Sound) (op : SchedulerOp) : (sched.apply op).Sound := by
  cases op with
  | decide args =>
    obtain ⟨watermark, total, controller, batch⟩ := sched.decide_frame args
    refine ⟨?_, ?_⟩
    · rw [RustScheduler.apply, watermark, total, sound.watermark]
    · rw [RustScheduler.apply, controller, batch]
      exact sound.cap
  | observe stepMs concurrency =>
    refine ⟨sound.watermark, sound.cap.observe ?_ stepMs concurrency⟩
    exact_mod_cast le_max_right _ _

theorem sound_of_run {ops : List SchedulerOp} (run : Machine.Run system ops sched) : sched.Sound := by
  refine run.invariant ?_ ?_
  · rintro _ ⟨maxBatchSize, maxNumTokens, itlBudgetMs, kvTotalBlocks, orderSetting, rfl⟩
    exact sound_new _ _ _ _ _
  · rintro sched op _ sound ⟨-, rfl⟩
    exact sound.apply op

theorem Sound.generationCap (sound : sched.Sound) : 1 ≤ sched.generationCap := by
  refine Nat.le_floor ?_
  exact_mod_cast sound.cap.floor.trans (le_max_left _ _)

theorem decide_answer {args : DecideArgs} {fitting paused : List ℕ}
    (answered : (sched.decide args).1 = .ok (fitting, paused)) :
    decideIndices (sched.decideInput args) = (fitting, paused) := by
  rw [decide] at answered
  split at answered
  next => cases answered
  next => exact Except.ok.inj answered

/-- A decision admits something exactly when a generation request is on offer, or a prompt whose remainder fits
the token budget. A longer prompt is paused whenever it is offered. -/
theorem admits_iff_some_fit {ops : List SchedulerOp} (run : Machine.Run system ops sched)
    (batch : 1 ≤ sched.maxBatchSize) (tokens : 1 ≤ sched.maxNumTokens) {args : DecideArgs} {fitting paused : List ℕ}
    (answered : (sched.decide args).1 = .ok (fitting, paused)) (free : sched.kvWatermarkBlocks ≤ args.kvFreeBlocks) :
    (fitting ≠ [] ↔ ∃ i < args.ids.length, args.ids.getD i 0 ∉ args.inflight ∧ (args.isContext.getD i false = true →
        args.promptLens.getD i 0 - args.contextDoneTokens.getD i 0 ≤ sched.maxNumTokens)) ∧
      ∀ i < args.ids.length, args.ids.getD i 0 ∉ args.inflight → args.isContext.getD i false = true →
        sched.maxNumTokens < args.promptLens.getD i 0 - args.contextDoneTokens.getD i 0 → i ∈ paused := by
  have sound := sound_of_run run
  have answer := decide_answer answered
  have fits := @DecideInput.fitting_ne_nil_iff (sched.decideInput args) sound.generationCap batch tokens free
  rw [answer] at fits
  refine ⟨fits.trans ?_, fun i inside idle context oversized => ?_⟩
  · constructor
    · rintro (⟨i, inside, idle, generation⟩ | ⟨i, ⟨inside, idle, -⟩, small⟩)
      · exact ⟨i, inside, idle, fun context => absurd (generation.symm.trans context) Bool.false_ne_true⟩
      · exact ⟨i, inside, idle, fun _ => small⟩
    · rintro ⟨i, inside, idle, small⟩
      cases phase : args.isContext.getD i false with
      | false => exact .inl ⟨i, inside, idle, phase⟩
      | true => exact .inr ⟨i, ⟨inside, idle, phase⟩, small phase⟩
  · have waits := @DecideInput.oversized_paused (sched.decideInput args) i ⟨inside, idle, context⟩ oversized
    rwa [answer] at waits

/-- One prompt of 9000 tokens against a budget of 8192. -/
def longPrompt (contextDoneTokens : ℕ) : DecideArgs :=
  ⟨[7], [true], [9000], [contextDoneTokens], [0], [100], [0], [], 100, 0⟩

theorem admits_iff_some_fit_long :
    ((new 64 8192 20 1000 none).decide (longPrompt 1000)).1 = .ok ([0], []) ∧ [0] ≠ ([] : List ℕ) := by
  have answered : ((new 64 8192 20 1000 none).decide (longPrompt 1000)).1 = .ok ([0], []) := by decide +kernel
  have run : Machine.Run system [] (new 64 8192 20 1000 none) := .start ⟨64, 8192, 20, 1000, none, rfl⟩
  refine ⟨answered, (admits_iff_some_fit run (by decide) (by decide) answered (by decide)).1.mpr ?_⟩
  exact ⟨0, by decide, by decide, fun _ => by decide⟩

/-- On its own and in a fresh scheduler with free blocks, the long prompt is paused and nothing is admitted. -/
theorem long_prompt_starves :
    ∃ (sched : RustScheduler) (args : DecideArgs), Machine.Run system [] sched ∧ 1 ≤ sched.maxBatchSize ∧
      1 ≤ sched.maxNumTokens ∧ sched.kvWatermarkBlocks ≤ args.kvFreeBlocks ∧
      (∃ i < args.ids.length, args.ids.getD i 0 ∉ args.inflight) ∧ (sched.decide args).1 = .ok ([], [0]) := by
  refine ⟨new 64 8192 20 1000 none, longPrompt 0, .start ⟨64, 8192, 20, 1000, none, rfl⟩, ?_⟩
  decide +kernel

end RustScheduler

end TrtLlm.PyExt
