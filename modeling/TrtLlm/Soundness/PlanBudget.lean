import TrtLlm.Soundness.PrefillProgress

/-! # The budgets of a planned batch

Both passes of the assembly keep one invariant. The tokens are counted and within the budget, a chunk that leaves its
request unfinished has used the budget up, and once a second chunk is in, the whole batch finishes by the binding
deadline, which is no later than any member's that the ordering put on time.
-/

namespace TrtLlm.Sched

namespace PrefillScheduler

variable {sched : PrefillScheduler} {now : Millis} {onTime : RequestId → Prop} {assembly : Assembly}

/-! ### One pass -/

/-- A batch under construction: its counts, its last chunk, and its deadline for the members in `onTime`. -/
structure Assembled (sched : PrefillScheduler) (now : Millis) (onTime : RequestId → Prop) (assembly : Assembly) :
    Prop where
  seqs : assembly.batch.chunks.length ≤ sched.tuning.maxSeqs
  total : assembly.batch.totalTokens = (assembly.batch.chunks.map (·.tokens)).sum
  budget : assembly.batch.totalTokens ≤ sched.tuning.chunkTokens
  whole : ∀ chunk ∈ assembly.batch.chunks.dropLast, chunk.completes = true
  full : ∀ chunk ∈ assembly.batch.chunks, chunk.completes = false →
    sched.tuning.chunkTokens ≤ assembly.batch.totalTokens
  finish : 2 ≤ assembly.batch.chunks.length →
    ((now + assembly.batch.totalTokens / sched.rate : ℚ) : WithTop ℚ) ≤ assembly.bindingDeadline
  binding : ∀ chunk ∈ assembly.batch.chunks, onTime chunk.id → ∀ p, sched.queue.lookup chunk.id = some p →
    assembly.bindingDeadline ≤ p.deadlineMs

theorem assembled_empty (sched : PrefillScheduler) (now : Millis) (onTime : RequestId → Prop) :
    sched.Assembled now onTime {} where
  seqs := Nat.zero_le _
  total := rfl
  budget := Nat.zero_le _
  whole _ member := absurd member List.not_mem_nil
  full _ member := absurd member List.not_mem_nil
  finish two := absurd two (by decide)
  binding _ member := absurd member List.not_mem_nil

/-- Adding a chunk that passed the tests of the loop. -/
theorem Assembled.push (assembled : sched.Assembled now onTime assembly) {id : RequestId} {p : PendingPrefill}
    {late : Bool} (found : sched.queue.lookup id = some p) (early : onTime id → late = false)
    (slot : assembly.batch.chunks.length < sched.tuning.maxSeqs)
    (left : assembly.batch.totalTokens < sched.tuning.chunkTokens) {want : ℕ}
    (size : want = min p.remaining (sched.tuning.chunkTokens - assembly.batch.totalTokens)) {deadline : WithTop ℚ}
    (tightened : deadline = if late then assembly.bindingDeadline else min assembly.bindingDeadline p.deadlineMs)
    (inTime : assembly.batch.chunks ≠ [] →
      ((now + (assembly.batch.totalTokens + want : ℕ) / sched.rate : ℚ) : WithTop ℚ) ≤ deadline) :
    sched.Assembled now onTime
      { batch := { assembly.batch with
          chunks := assembly.batch.chunks ++ [⟨id, p.doneTokens, want, decide (want = p.remaining)⟩]
          totalTokens := assembly.batch.totalTokens + want }
        bindingDeadline := deadline } := by
  have kept : deadline ≤ assembly.bindingDeadline := by
    rw [tightened]
    split
    · exact le_rfl
    · exact min_le_left _ _
  refine ⟨?_, ?_, ?_, ?_, ?_, ?_, ?_⟩
  · rw [List.length_append]
    exact slot
  · simp only [List.map_append, List.sum_append, List.map_singleton, List.sum_singleton]
    rw [assembled.total]
  · change assembly.batch.totalTokens + want ≤ _
    omega
  · rw [List.dropLast_concat]
    intro chunk member
    by_contra unfinished
    have used := assembled.full chunk member (Bool.eq_false_iff.mpr unfinished)
    omega
  · intro chunk member unfinished
    change sched.tuning.chunkTokens ≤ assembly.batch.totalTokens + want
    rcases List.mem_append.mp member with before | last
    · have used := assembled.full chunk before unfinished
      omega
    · rw [List.mem_singleton.mp last] at unfinished
      have short := of_decide_eq_false unfinished
      omega
  · intro two
    refine inTime fun none => ?_
    simp [none] at two
  · intro chunk member timed q queued
    rcases List.mem_append.mp member with before | last
    · exact kept.trans (assembled.binding chunk before timed q queued)
    · rw [List.mem_singleton.mp last] at timed queued
      obtain rfl := Option.some.inj (found.symm.trans queued)
      rw [tightened, early timed]
      exact min_le_right _ _

theorem Assembled.fill (late : Bool) (ids : List RequestId) (assembled : sched.Assembled now onTime assembly)
    (early : ∀ id ∈ ids, onTime id → late = false) : sched.Assembled now onTime (sched.fill now late ids assembly) := by
  induction ids generalizing assembly with
  | nil => exact assembled
  | cons id ids ih =>
    have later : ∀ other ∈ ids, onTime other → late = false := fun other member => early other (.tail _ member)
    rw [PrefillScheduler.fill]
    split
    next => exact assembled
    next slot =>
      simp only
      split
      next => exact assembled
      next left =>
        cases found : sched.queue.lookup id with
        | none => exact ih assembled later
        | some p =>
          simp only
          generalize tightened : (if late = true then assembly.bindingDeadline else
            min assembly.bindingDeadline (p.deadlineMs : WithTop ℚ)) = deadline
          split
          next => exact ih assembled later
          next =>
            split
            next =>
              have limited : sched.Assembled now onTime
                  { assembly with batch := { assembly.batch with deadlineLimited := true } } :=
                ⟨assembled.seqs, assembled.total, assembled.budget, assembled.whole, assembled.full, assembled.finish,
                  assembled.binding⟩
              split
              · exact limited
              · exact ih limited later
            next passes =>
              refine ih (assembled.push found (early id (.head _)) (not_le.mp slot) (by omega) rfl tightened.symm ?_)
                later
              intro nonempty
              exact not_lt.mp fun misses => passes ⟨nonempty, misses⟩

/-! ### The whole plan -/

theorem plan_assembled (listed : sched.Listed) (now : Millis) :
    ∃ assembly, sched.Assembled now (· ∈ (orderJobs sched.jobs now sched.tuning.policy).onTime) assembly ∧
      (sched.plan now).1.chunks = assembly.batch.chunks ∧
      (sched.plan now).1.totalTokens = assembly.batch.totalTokens := by
  unfold PrefillScheduler.plan
  split
  · exact ⟨{}, assembled_empty _ _ _, rfl, rfl⟩
  · simp only
    generalize orderingEq : orderJobs sched.jobs now sched.tuning.policy = ordering
    have dealt := orderJobs_perm sched.jobs now sched.tuning.policy
    rw [orderingEq, listed.jobs_ids] at dealt
    obtain ⟨-, -, apart⟩ := List.nodup_append.mp (dealt.nodup_iff.mpr listed.order_nodup)
    generalize demotedEq : (if sched.tuning.demoteHopeless = true then ordering.demoted else []) = demoted
    have within : ∀ id ∈ demoted, id ∉ ordering.onTime := by
      intro id member timed
      rw [← demotedEq] at member
      split at member
      · exact apart id timed id member rfl
      · exact absurd member List.not_mem_nil
    let planned : PrefillScheduler := { sched with demoted := demoted.toFinset }
    have first : planned.Assembled now (· ∈ ordering.onTime) (planned.fill now false ordering.onTime {}) :=
      (assembled_empty planned now _).fill false _ fun _ _ _ => rfl
    have second := first.fill true demoted fun id member timed => absurd timed (within id member)
    refine ⟨_, ⟨second.seqs, second.total, second.budget, second.whole, second.full, second.finish, second.binding⟩,
      rfl, rfl⟩

theorem listed_of_calls (tuning : PrefillTuning) (ops : List SchedOp) : (ops.foldl apply (new tuning)).Listed := by
  induction ops using List.reverseRecOn with
  | nil => exact listed_new tuning
  | append_singleton ops op ih =>
    rw [List.foldl_concat]
    cases op with
    | enqueue p => exact ih.enqueue p
    | remove id => exact ih.remove id
    | plan now => exact (ih.plan now).2.2.1
    | complete batch elapsedMs => exact ih.complete batch elapsedMs

/-- After any calls, a planned batch names distinct requests and continues each where it stands with some of its
remaining tokens, all of them in every chunk but the last. It has at most `max_seqs` chunks and `chunk_tokens` tokens,
and with two chunks or more it finishes, at the rate it was planned with, by the deadline of each on-time member. -/
theorem plan_within_budgets (tuning : PrefillTuning) (ops : List SchedOp) (now : Millis) :
    let sched := ops.foldl apply (new tuning)
    let batch := (sched.plan now).1
    (batch.chunks.map (·.id)).Nodup ∧
      (∀ chunk ∈ batch.chunks, ∃ p, sched.queue.lookup chunk.id = some p ∧ chunk.start = p.doneTokens ∧
        0 < chunk.tokens ∧ chunk.tokens ≤ p.remaining ∧ (chunk.completes = true ↔ chunk.tokens = p.remaining) ∧
        (chunk ∈ batch.chunks.dropLast → chunk.tokens = p.remaining) ∧
        (2 ≤ batch.chunks.length → chunk.id ∈ (orderJobs sched.jobs now sched.tuning.policy).onTime →
          now + batch.totalTokens / sched.rate ≤ p.deadlineMs)) ∧
      batch.chunks.length ≤ sched.tuning.maxSeqs ∧ batch.totalTokens = (batch.chunks.map (·.tokens)).sum ∧
      batch.totalTokens ≤ sched.tuning.chunkTokens := by
  intro sched batch
  have listed : sched.Listed := listed_of_calls tuning ops
  obtain ⟨distinct, fits, -⟩ := listed.plan now
  obtain ⟨assembly, assembled, chunks, total⟩ := plan_assembled listed now
  obtain ⟨seqs, sum, budget, whole, -, finish, binding⟩ := assembled
  rw [← chunks] at seqs sum whole finish binding
  rw [← total] at sum budget finish
  refine ⟨distinct, fun chunk member => ?_, seqs, sum, budget⟩
  obtain ⟨p, found, start, positive, within, completes⟩ := fits chunk member
  refine ⟨p, found, start, positive, within, completes, fun inner => completes.mp (whole chunk inner),
    fun two timed => ?_⟩
  exact WithTop.coe_le_coe.mp ((finish two).trans (binding chunk member timed p found))

end PrefillScheduler

end TrtLlm.Sched
