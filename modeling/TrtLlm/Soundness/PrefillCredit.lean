import TrtLlm.Machine.Path
import TrtLlm.Soundness.PrefillRound

/-! # Prefill credit against prefill work

A run of the prefill worker records each pass: the worker it started from, its inputs, the work of a call
that returned `Ok`, and the worker it left. Resolving may cut the planned batch short, yet the whole batch
is booked. Credit therefore matches work in exactly those runs in which no answered pass was cut short
part of the way.
-/

namespace TrtLlm.Worker

open KvCache Sched Engine

/-- One pass of the loop as an observer sees it. -/
structure RoundRecord where
  start : PrefillWorker
  input : PrefillRound
  passed : PrefillWork
  after : PrefillWorker

namespace RoundRecord

/-- The worker after the pass has taken its jobs. -/
def queued (record : RoundRecord) : PrefillWorker := record.start.accept record.input.jobs

def planned (record : RoundRecord) : List PrefillChunk := (record.start.planned record.input).1.chunks

/-- The pass took a request out of the queue, dropped its prompt or gave up its pages. -/
def Lost (record : RoundRecord) (id : RequestId) : Prop :=
  id ∈ record.queued.sched.queue ∧ id ∉ record.after.sched.queue ∨
    id ∈ record.queued.prompts ∧ id ∉ record.after.prompts ∨ id ∈ record.queued.kv ∧ id ∉ record.after.kv

/-- A request leaves only if its completing chunk was passed to a call that returned `Ok`. -/
def Departed (record : RoundRecord) : Prop :=
  ∀ id, record.Lost id → ∃ spec ∈ record.passed, spec.id = id ∧ spec.completes = true

/-- A planned chunk that was not passed on leaves its request queued as it was, to be planned again. -/
def Retained (record : RoundRecord) : Prop :=
  ∀ chunk ∈ record.planned, chunk.id ∉ record.passed.map (·.id) →
    record.after.sched.queue.lookup chunk.id = record.queued.sched.queue.lookup chunk.id

/-- If the engine answers the pass's call with `Ok`, then the pool covers the pages of the whole planned
batch, or not even those of its first chunk. -/
def Covered (record : RoundRecord) : Prop :=
  (∃ outcome, record.input.answer (record.start.resolved record.input).1 = .ok outcome) →
    (record.start.planned record.input).2.Covers record.planned ∨
      ∃ first, record.planned.head? = some first ∧ ¬(record.start.planned record.input).2.Covers [first]

end RoundRecord

/-- A worker with the history of its passes. -/
structure PrefillTrace where
  worker : PrefillWorker
  running : Bool
  seen : List RequestId
  rounds : List RoundRecord

namespace PrefillTrace

def new (worker : PrefillWorker) : PrefillTrace := ⟨worker, true, [], []⟩

/-- Jobs bring fresh distinct ids and non-empty prompts; a loop that has returned takes no more passes. -/
def Allowed (s : PrefillTrace) (input : PrefillRound) : Prop :=
  s.running = true ∧ (input.jobs.map (·.id)).Nodup ∧ ∀ job ∈ input.jobs, job.id ∉ s.seen ∧ job.prompt ≠ []

/-- The record a step appends. -/
def record (s : PrefillTrace) (input : PrefillRound) : RoundRecord :=
  ⟨s.worker, input, (s.worker.round input).1.passed, (s.worker.round input).2⟩

def step (s : PrefillTrace) (input : PrefillRound) : PrefillTrace where
  worker := (s.worker.round input).2
  running := !(s.worker.round input).1.returned
  seen := s.seen ++ input.jobs.map (·.id)
  rounds := s.rounds ++ [s.record input]

/-- The prefill worker of any pool and tuning, under any jobs, clock and engine. -/
def system (tuning : PrefillTuning) (numBlocks blockSize : ℕ) (watermark : ℚ) :
    Machine.System PrefillTrace PrefillRound :=
  .ofFun (fun s => s = new (.new tuning numBlocks blockSize watermark)) Allowed step

/-- Prompt tokens of one request in the chunks passed to calls that returned `Ok`. -/
def computed (s : PrefillTrace) (id : RequestId) : ℕ :=
  (((s.rounds.flatMap (·.passed)).filter fun spec => spec.id = id).map (·.tokens.length)).sum

/-- A queued request is credited with exactly the tokens computed for it, a request leaves only in a pass
that passed its completing chunk to the engine, and a planned chunk that was not passed on leaves its
request queued as it was. -/
structure CreditMatches (s : PrefillTrace) : Prop where
  credited : ∀ id p, s.worker.sched.queue.lookup id = some p → p.doneTokens = s.computed id
  departed : ∀ record ∈ s.rounds, record.Departed
  retained : ∀ record ∈ s.rounds, record.Retained

/-- What covered passes preserve. -/
structure Good (s : PrefillTrace) : Prop where
  stocked : s.worker.Stocked
  matched : s.CreditMatches
  queue_seen : ∀ id ∈ s.worker.sched.queue, id ∈ s.seen
  passed_seen : ∀ record ∈ s.rounds, ∀ spec ∈ record.passed, spec.id ∈ s.seen

variable {s : PrefillTrace} {input : PrefillRound}

theorem good_new (tuning : PrefillTuning) (numBlocks blockSize : ℕ) (watermark : ℚ) :
    (new (.new tuning numBlocks blockSize watermark)).Good where
  stocked := PrefillWorker.stocked_new tuning numBlocks blockSize watermark
  matched := by
    refine ⟨fun id p found => ?_, fun _ member => (nomatch member), fun _ member => (nomatch member)⟩
    simp [new, PrefillWorker.new, PrefillScheduler.new] at found
  queue_seen _ member := absurd member (AList.notMem_empty _)
  passed_seen _ member := nomatch member

theorem computed_step (id : RequestId) : (s.step input).computed id =
    s.computed id + PrefillScheduler.tokensFor id ((s.worker.round input).1.passed.map PrefillWorker.asChunk) := by
  simp only [computed, step, PrefillScheduler.tokensFor, List.flatMap_append, List.flatMap_singleton,
    List.filter_append, List.map_append, List.sum_append, List.filter_map, List.map_map]
  rfl

theorem computed_eq_zero {id : RequestId} (fresh : id ∉ s.seen)
    (seen : ∀ record ∈ s.rounds, ∀ spec ∈ record.passed, spec.id ∈ s.seen) : s.computed id = 0 := by
  have none : (s.rounds.flatMap (·.passed)).filter (fun spec => spec.id = id) = [] := by
    rw [List.filter_eq_nil_iff]
    intro spec member
    obtain ⟨record, listed, passed⟩ := List.mem_flatMap.mp member
    rw [decide_eq_true_iff]
    rintro rfl
    exact fresh (seen record listed spec passed)
  rw [computed, none]
  rfl

theorem Good.credited_accept (good : s.Good) (allowed : s.Allowed input) {id : RequestId} {p : PendingPrefill}
    (found : (s.worker.accept input.jobs).sched.queue.lookup id = some p) : p.doneTokens = s.computed id := by
  rcases PrefillWorker.accept_lookup input.jobs found with before | ⟨member, zero⟩
  · exact good.matched.credited id p before
  · obtain ⟨job, listed, rfl⟩ := List.mem_map.mp member
    rw [zero, computed_eq_zero (allowed.2.2 job listed).1 good.passed_seen]

theorem Good.snoc (good : s.Good) (credited : ∀ id p, (s.step input).worker.sched.queue.lookup id = some p →
      p.doneTokens = (s.step input).computed id)
    (departed : (s.record input).Departed) (retained : (s.record input).Retained)
    (passed : ∀ spec ∈ (s.record input).passed, spec.id ∈ (s.worker.accept input.jobs).sched.queue)
    (queued : ∀ id ∈ (s.step input).worker.sched.queue, id ∈ (s.worker.accept input.jobs).sched.queue) :
    (s.step input).Good := by
  have known : ∀ id ∈ (s.worker.accept input.jobs).sched.queue, id ∈ (s.step input).seen := by
    intro id member
    rcases (PrefillWorker.mem_accept input.jobs s.worker id).mp member with fresh | before
    · exact List.mem_append_right _ fresh
    · exact List.mem_append_left _ (good.queue_seen id before)
  have each : ∀ other ∈ (s.step input).rounds, other ∈ s.rounds ∨ other = s.record input := by
    intro other member
    rcases List.mem_append.mp member with before | last
    · exact .inl before
    · exact .inr (List.mem_singleton.mp last)
  refine ⟨good.stocked.round input, ⟨credited, ?_, ?_⟩, fun id member => known id (queued id member), ?_⟩
  · intro other member
    rcases each other member with before | rfl
    · exact good.matched.departed other before
    · exact departed
  · intro other member
    rcases each other member with before | rfl
    · exact good.matched.retained other before
    · exact retained
  · intro other member spec listed
    rcases each other member with before | rfl
    · exact List.mem_append_left _ (good.passed_seen other before spec listed)
    · exact known _ (passed spec listed)

theorem Good.step_idle (good : s.Good) (allowed : s.Allowed input)
    (unchanged : s.worker.round input = ({}, (s.worker.resolved input).2)) : (s.step input).Good := by
  have queue : ∀ id, (s.step input).worker.sched.queue.lookup id =
      (s.worker.accept input.jobs).sched.queue.lookup id := by
    intro id
    change (s.worker.round input).2.sched.queue.lookup id = _
    rw [unchanged]
    exact PrefillWorker.resolved_lookup input id
  have passed : (s.worker.round input).1.passed = [] := by rw [unchanged]
  refine good.snoc ?_ ?_ ?_ ?_ ?_
  · intro id p found
    rw [queue] at found
    rw [computed_step, passed, good.credited_accept allowed found]
    rfl
  · have prompts : (s.worker.round input).2.prompts = (s.worker.accept input.jobs).prompts := by
      rw [unchanged]
      exact PrefillWorker.resolved_prompts input
    rintro id (⟨before, gone⟩ | ⟨before, gone⟩ | ⟨before, gone⟩)
    · refine absurd ?_ gone
      rw [← AList.lookup_isSome] at before ⊢
      exact (queue id).symm ▸ before
    · exact absurd (prompts.symm ▸ before) gone
    · refine absurd ?_ gone
      change id ∈ (s.worker.round input).2.kv
      rw [unchanged]
      exact (PrefillWorker.resolve_frame (s.worker.planned input).1.chunks (s.worker.planned input).2).2.2 id before
  · exact fun chunk _ _ => queue chunk.id
  · intro spec member
    change spec ∈ (s.worker.round input).1.passed at member
    rw [passed] at member
    cases member
  · intro id member
    rw [← AList.lookup_isSome] at member ⊢
    exact queue id ▸ member

/-- When the whole planned batch was passed on, booking it keeps credit and work together. -/
theorem Good.step_whole (good : s.Good) (allowed : s.Allowed input) {outcome : PrefillOutcome}
    (booking : s.worker.Booking input outcome (s.worker.round input))
    (whole : (s.worker.resolved input).1.map PrefillWorker.asChunk = (s.worker.planned input).1.chunks) :
    (s.step input).Good := by
  have plan := good.stocked.plan input
  have passed : (s.record input).passed.map PrefillWorker.asChunk = (s.worker.planned input).1.chunks := by
    change (s.worker.round input).1.passed.map _ = _
    rw [booking.passed, whole]
  have finished : ∀ id ∈ s.worker.finishes input, ∃ spec ∈ (s.record input).passed,
      spec.id = id ∧ spec.completes = true := by
    intro id member
    obtain ⟨chunk, listed, rfl⟩ := List.mem_map.mp member
    obtain ⟨planned, completes⟩ := List.mem_filter.mp listed
    rw [← passed] at planned
    obtain ⟨spec, inside, rfl⟩ := List.mem_map.mp planned
    exact ⟨spec, inside, rfl, completes⟩
  have listed : ∀ chunk ∈ (s.worker.planned input).1.chunks, chunk.id ∈ (s.record input).passed.map (·.id) := by
    intro chunk member
    rw [← passed] at member
    obtain ⟨spec, inside, rfl⟩ := List.mem_map.mp member
    exact List.mem_map_of_mem inside
  refine good.snoc ?_ ?_ ?_ ?_ ?_
  · intro id p found
    have lookup := booking.queue id
    rw [show (s.worker.round input).2.sched.queue.lookup id = some p from found] at lookup
    split at lookup
    · cases lookup
    · obtain ⟨q, before, rfl⟩ := Option.map_eq_some_iff.mp lookup.symm
      have room := (good.stocked.accept input.jobs).consistent.done_le before
      have within : q.doneTokens + PrefillScheduler.tokensFor id (s.worker.planned input).1.chunks ≤
          q.computeTokens := by
        by_cases member : id ∈ (s.worker.planned input).1.chunks.map (·.id)
        · obtain ⟨chunk, planned, rfl⟩ := List.mem_map.mp member
          obtain ⟨p, queued, _, _, fits, _⟩ := plan.fits chunk planned
          rw [PrefillWorker.planned_lookup, before] at queued
          obtain rfl := Option.some.inj queued
          rw [PrefillScheduler.tokensFor_mem plan.distinct planned]
          rw [PendingPrefill.remaining] at fits
          omega
        · rw [PrefillScheduler.tokensFor_eq_zero member]
          exact room
      rw [computed_step, ← good.credited_accept allowed before, booking.passed, whole]
      exact min_eq_left within
  · rintro id (⟨before, gone⟩ | ⟨before, gone⟩ | ⟨before, gone⟩)
    · refine finished id (by_contra fun unfinished => gone ?_)
      rw [← AList.lookup_isSome] at before ⊢
      change ((s.worker.round input).2.sched.queue.lookup id).isSome
      rw [booking.queue, if_neg unfinished, Option.isSome_map]
      exact before
    · exact finished id (by_contra fun unfinished => gone (booking.prompts id before unfinished))
    · exact finished id (by_contra fun unfinished => gone (booking.kv id before unfinished))
  · intro chunk member missing
    exact absurd (listed chunk member) missing
  · intro spec member
    have planned : PrefillWorker.asChunk spec ∈ (s.worker.planned input).1.chunks := by
      rw [← passed]
      exact List.mem_map_of_mem member
    obtain ⟨p, queued, _⟩ := plan.fits _ planned
    rw [PrefillWorker.planned_lookup] at queued
    exact AList.mem_iff_exists_lookup.mpr ⟨_, queued⟩
  · intro id member
    rw [← AList.lookup_isSome] at member ⊢
    change ((s.worker.round input).2.sched.queue.lookup id).isSome at member
    rw [booking.queue] at member
    split at member
    · cases member
    · rwa [Option.isSome_map] at member

/-- A covered pass keeps credit and work together. -/
theorem Good.step (good : s.Good) (allowed : s.Allowed input) (covered : (s.record input).Covered) :
    (s.step input).Good := by
  rcases good.stocked.round_cases input with ⟨_, unchanged⟩ | ⟨outcome, nonempty, answered, booking⟩
  · exact good.step_idle allowed unchanged
  · obtain ⟨rest, split⟩ := good.stocked.resolved_front input
    rcases covered ⟨outcome, answered⟩ with covers | ⟨first, head, uncovered⟩
    · have reached := (good.stocked.resolved_reaches _ (List.append_nil _).symm).mpr covers
      have none : rest = [] := by
        change (s.worker.planned input).1.chunks.length ≤ (s.worker.resolved input).1.length at reached
        rw [split, List.length_append, List.length_map] at reached
        exact List.eq_nil_of_length_eq_zero (by omega)
      refine good.step_whole allowed booking ?_
      rw [split, none, List.append_nil]
    · obtain ⟨tail, planned⟩ := List.head?_eq_some_iff.mp head
      refine absurd ((good.stocked.resolved_reaches [first] planned).mp ?_) uncovered
      exact List.length_pos_iff.mpr nonempty

/-- A pass that retains what it did not pass on was covered. -/
theorem Good.covered (good : s.Good) (retained : (s.record input).Retained) : (s.record input).Covered := by
  rintro ⟨outcome, answered⟩
  change input.answer (s.worker.resolved input).1 = .ok outcome at answered
  change (s.worker.planned input).2.Covers (s.worker.planned input).1.chunks ∨ ∃ first,
    (s.worker.planned input).1.chunks.head? = some first ∧ ¬(s.worker.planned input).2.Covers [first]
  have plan := good.stocked.plan input
  obtain ⟨rest, split⟩ := good.stocked.resolved_front input
  rcases good.stocked.round_cases input with ⟨unanswered, _⟩ | ⟨outcome, _, _, booking⟩
  · rcases unanswered with none | ⟨error, failed⟩
    · cases planned : (s.worker.planned input).1.chunks with
      | nil => exact .inl (.inl rfl)
      | cons first tail =>
        refine .inr ⟨first, rfl, fun covers => ?_⟩
        have reached := (good.stocked.resolved_reaches [first] planned).mpr covers
        rw [none] at reached
        cases reached
    · rw [failed] at answered
      cases answered
  · cases rest with
    | nil =>
      refine .inl ((good.stocked.resolved_reaches _ (List.append_nil _).symm).mp ?_)
      rw [split, List.append_nil, List.length_map]
    | cons chunk rest =>
      -- The first chunk that was cut off is credited all the same.
      have planned : chunk ∈ (s.worker.planned input).1.chunks := by
        rw [split]
        exact List.mem_append_right _ (.head _)
      have missing : chunk.id ∉ (s.record input).passed.map (·.id) := by
        have distinct := plan.distinct
        rw [split, List.map_append, List.map_map, List.map_cons] at distinct
        intro member
        change chunk.id ∈ (s.worker.round input).1.passed.map (·.id) at member
        rw [booking.passed] at member
        exact (List.nodup_append.mp distinct).2.2 chunk.id member chunk.id (.head _) rfl
      obtain ⟨p, queued, _, positive, fits, _⟩ := plan.fits chunk planned
      rw [PrefillWorker.planned_lookup] at queued
      have kept := retained chunk planned missing
      change (s.worker.round input).2.sched.queue.lookup chunk.id = (s.worker.accept input.jobs).sched.queue.lookup
        chunk.id at kept
      rw [booking.queue, queued] at kept
      split at kept
      · cases kept
      · rw [Option.map_some, PrefillScheduler.tokensFor_mem plan.distinct planned] at kept
        have same := congrArg PendingPrefill.doneTokens (Option.some.inj kept)
        simp only [PendingPrefill.credit, PendingPrefill.remaining] at same fits
        omega

/-- Covered runs are good, and only covered runs retain every chunk that was cut off. -/
theorem run_good {tuning : PrefillTuning} {numBlocks blockSize : ℕ} {watermark : ℚ} {inputs : List PrefillRound}
    {s : PrefillTrace} (run : Machine.Run (system tuning numBlocks blockSize watermark) inputs s) :
    ((∀ record ∈ s.rounds, record.Covered) → s.Good) ∧
      ((∀ record ∈ s.rounds, record.Retained) → ∀ record ∈ s.rounds, record.Covered) := by
  refine run.invariant
    (P := fun s => ((∀ record ∈ s.rounds, record.Covered) → s.Good) ∧
      ((∀ record ∈ s.rounds, record.Retained) → ∀ record ∈ s.rounds, record.Covered)) ?_ ?_
  · rintro s rfl
    exact ⟨fun _ => good_new tuning numBlocks blockSize watermark, fun _ _ member => (nomatch member)⟩
  · rintro s input t before ⟨allowed, rfl⟩
    constructor
    · intro covered
      have good := before.1 fun record member => covered record (List.mem_append_left _ member)
      exact good.step allowed (covered _ (List.mem_append_right _ (.head _)))
    · intro retained record member
      have earlier := before.2 fun record member => retained record (List.mem_append_left _ member)
      rcases List.mem_append.mp member with member | last
      · exact earlier record member
      · rw [List.mem_singleton.mp last]
        exact (before.1 earlier).covered (retained _ (List.mem_append_right _ (.head _)))

/-- **Prefill credit equals prefill work in exactly the covered runs.** For every pool, tuning, engine and
stream of jobs, credit and departures follow the work passed to successful calls if and only if each pass
whose call returned `Ok` had pages for its whole planned batch or for none of it. -/
theorem credit_matches_work_iff_covered (tuning : PrefillTuning) (numBlocks blockSize : ℕ) (watermark : ℚ)
    (inputs : List PrefillRound) (s : PrefillTrace)
    (run : Machine.Run (system tuning numBlocks blockSize watermark) inputs s) :
    s.CreditMatches ↔ ∀ record ∈ s.rounds, record.Covered := by
  obtain ⟨good, covered⟩ := run_good run
  exact ⟨fun matched => covered matched.retained, fun met => (good met).matched⟩

/-- Two requests for one token each, answered by an engine that samples token 9 for completed sequences. -/
def twoPrompts : PrefillRound where
  jobs := [⟨1, [5], 10, 0⟩, ⟨2, [6], 10, 0⟩]
  now := 0
  answer work := .ok ⟨1, (work.filter (·.completes)).map fun spec => (spec.id, 9)⟩
  doneAt := 1
  outOpen := true

/-- With a single page both requests are planned, one is passed on, and both leave the queue. -/
theorem cut_short_batch_is_credited_whole :
    ∃ (tuning : PrefillTuning) (numBlocks blockSize : ℕ) (watermark : ℚ) (inputs : List PrefillRound)
      (s : PrefillTrace), Machine.Run (system tuning numBlocks blockSize watermark) inputs s ∧ ¬s.CreditMatches := by
  let tuning : PrefillTuning := ⟨8, 4, .fcfs, false, 1, 1 / 5⟩
  have start : Machine.Run (system tuning 1 1 0) [] (new (.new tuning 1 1 0)) := .start rfl
  refine ⟨tuning, 1, 1, 0, _, _, start.apply twoPrompts ⟨rfl, by decide, by decide⟩, fun matched => ?_⟩
  have departed := matched.departed _ (List.mem_append_right _ (.head _)) 2
    (.inl ⟨by decide +kernel, by decide +kernel⟩)
  exact absurd departed (by decide +kernel)

/-- With two pages the same pass is covered. -/
theorem credit_matches_work_iff_covered_two_pages :
    ((new (.new ⟨8, 4, .fcfs, false, 1, 1 / 5⟩ 2 1 0)).step twoPrompts).CreditMatches := by
  let tuning : PrefillTuning := ⟨8, 4, .fcfs, false, 1, 1 / 5⟩
  have start : Machine.Run (system tuning 2 1 0) [] (new (.new tuning 2 1 0)) := .start rfl
  have run := start.apply twoPrompts ⟨rfl, by decide, by decide⟩
  refine (credit_matches_work_iff_covered tuning 2 1 0 _ _ run).mpr fun record member _ => ?_
  rw [List.mem_singleton.mp member]
  exact .inl (by decide +kernel)

end PrefillTrace

end TrtLlm.Worker
