import TrtLlm.Machine.Path
import TrtLlm.Soundness.MooreHodgson

/-! # When planning makes progress

A batch is empty exactly when nothing can be put into it. That is the case when no queued request has work
left, and also when Moore-Hodgson gives up on every request while `demote_hopeless` is off: the demoted list
is dropped then instead of being run behind the others. The last section follows the alternation of `plan` and
`complete` until the queue is empty.
-/

namespace TrtLlm.Sched.PrefillScheduler

variable {sched : PrefillScheduler}

/-- The id names a queued request with work left. -/
def busy (sched : PrefillScheduler) (id : RequestId) : Bool :=
  (sched.queue.lookup id).any fun p => decide (0 < p.remaining)

/-- The ids a batch is filled from, in order. -/
def candidates (sched : PrefillScheduler) (now : Millis) : List RequestId :=
  (orderJobs sched.jobs now sched.tuning.policy).onTime ++
    if sched.tuning.demoteHopeless then (orderJobs sched.jobs now sched.tuning.policy).demoted else []

/-- The first candidate with work left. -/
def leader (sched : PrefillScheduler) (now : Millis) : Option RequestId := (sched.candidates now).find? sched.busy

/-- The chunk that continues a request with a whole batch to itself. -/
def nextChunk (sched : PrefillScheduler) (id : RequestId) (p : PendingPrefill) : PrefillChunk :=
  ⟨id, p.doneTokens, min p.remaining sched.tuning.chunkTokens,
    decide (min p.remaining sched.tuning.chunkTokens = p.remaining)⟩

theorem busy_iff {id : RequestId} : sched.busy id = true ↔ ∃ p, sched.queue.lookup id = some p ∧ 0 < p.remaining := by
  rw [busy, Option.any_eq_true]
  simp only [decide_eq_true_eq]

/-! ### One pass over ordered ids -/

/-- A pass over ids without work leaves the batch as it is. -/
theorem fill_idle (now : Millis) (late : Bool) {ids : List RequestId} (idle : ∀ id ∈ ids, sched.busy id = false)
    (assembly : Assembly) : sched.fill now late ids assembly = assembly := by
  induction ids with
  | nil => rfl
  | cons id ids ih =>
    have rest := ih fun other member => idle other (.tail _ member)
    rw [fill]
    split
    next => rfl
    next =>
      simp only
      split
      next => rfl
      next =>
        cases found : sched.queue.lookup id with
        | none => exact rest
        | some p =>
          have done : p.remaining = 0 := by
            by_contra work
            exact Bool.eq_false_iff.mp (idle id (.head _)) (busy_iff.mpr ⟨p, found, Nat.pos_of_ne_zero work⟩)
          simp only [done, Nat.zero_min, if_true]
          exact rest

/-- The first id with work left goes into an empty batch, with as many tokens as the batch may have. -/
theorem fill_leads (room : 1 ≤ sched.tuning.chunkTokens) (seats : 1 ≤ sched.tuning.maxSeqs) (now : Millis)
    (late : Bool) {front back : List RequestId} {id : RequestId} (idle : ∀ other ∈ front, sched.busy other = false)
    {p : PendingPrefill} (found : sched.queue.lookup id = some p) (work : 0 < p.remaining) {assembly : Assembly}
    (empty : assembly.batch.chunks = []) (unused : assembly.batch.totalTokens = 0) :
    ∃ added, (sched.fill now late (front ++ id :: back) assembly).batch.chunks = sched.nextChunk id p :: added := by
  induction front with
  | nil =>
    rw [List.nil_append, fill, empty, unused, List.length_nil, if_neg (by omega)]
    simp only [Nat.sub_zero, found]
    rw [if_neg (by omega), if_neg (by omega), if_neg (by simp)]
    obtain ⟨added, chunks, _⟩ := sched.fill_spec now late back
      { batch := { assembly.batch with
          chunks := [] ++ [sched.nextChunk id p]
          totalTokens := 0 + min p.remaining sched.tuning.chunkTokens }
        bindingDeadline := if late then assembly.bindingDeadline else min assembly.bindingDeadline p.deadlineMs }
    exact ⟨added, chunks⟩
  | cons first front ih =>
    have rest := ih fun other member => idle other (.tail _ member)
    rw [List.cons_append, fill, empty, unused, List.length_nil, if_neg (by omega)]
    simp only [Nat.sub_zero]
    rw [if_neg (by omega)]
    cases known : sched.queue.lookup first with
    | none => exact rest
    | some q =>
      have done : q.remaining = 0 := by
        by_contra left
        exact Bool.eq_false_iff.mp (idle first (.head _)) (busy_iff.mpr ⟨q, known, Nat.pos_of_ne_zero left⟩)
      simp only [done, Nat.zero_min, if_true]
      exact rest

/-- A batch that has a first chunk keeps it. -/
theorem fill_keeps {now : Millis} {late : Bool} {ids : List RequestId} {assembly : Assembly} {chunk : PrefillChunk}
    (first : ∃ added, assembly.batch.chunks = chunk :: added) :
    ∃ added, (sched.fill now late ids assembly).batch.chunks = chunk :: added := by
  obtain ⟨before, same⟩ := first
  obtain ⟨added, chunks, _⟩ := sched.fill_spec now late ids assembly
  exact ⟨before ++ added, by rw [chunks, same, List.cons_append]⟩

/-! ### The whole plan -/

/-- The demoted set is for reporting only. -/
theorem fill_demoted (demoted : Finset RequestId) (now : Millis) (late : Bool) (ids : List RequestId)
    (assembly : Assembly) :
    ({ sched with demoted } : PrefillScheduler).fill now late ids assembly = sched.fill now late ids assembly := by
  induction ids generalizing assembly with
  | nil => rfl
  | cons id ids ih =>
    rw [fill, fill]
    simp only [ih]
    rfl

theorem plan_chunks (nonempty : sched.queue.entries ≠ []) (now : Millis) : (sched.plan now).1.chunks =
    (sched.fill now true
      (if sched.tuning.demoteHopeless then (orderJobs sched.jobs now sched.tuning.policy).demoted else [])
      (sched.fill now false (orderJobs sched.jobs now sched.tuning.policy).onTime {})).batch.chunks := by
  unfold plan
  rw [if_neg nonempty]
  simp only [fill_demoted]

/-- With nothing to do the batch is empty. -/
theorem plan_idle {now : Millis} (none : sched.leader now = none) : (sched.plan now).1.chunks = [] := by
  have idle : ∀ id ∈ sched.candidates now, sched.busy id = false := by
    intro id member
    exact Bool.eq_false_iff.mpr (List.find?_eq_none.mp none id member)
  rw [candidates] at idle
  by_cases empty : sched.queue.entries = []
  · unfold plan
    rw [if_pos empty]
  · rw [plan_chunks empty, fill_idle now false fun id member => idle id (List.mem_append_left _ member),
      fill_idle now true fun id member => idle id (List.mem_append_right _ member)]

/-- Otherwise its first chunk continues the leader. -/
theorem plan_leads (room : 1 ≤ sched.tuning.chunkTokens) (seats : 1 ≤ sched.tuning.maxSeqs) {now : Millis}
    {id : RequestId} (leads : sched.leader now = some id) :
    ∃ p, sched.queue.lookup id = some p ∧ 0 < p.remaining ∧
      ∃ added, (sched.plan now).1.chunks = sched.nextChunk id p :: added := by
  obtain ⟨works, front, back, split, others⟩ := List.find?_eq_some_iff_append.mp leads
  obtain ⟨p, found, work⟩ := busy_iff.mp works
  have idle : ∀ other ∈ front, sched.busy other = false := fun other member => by simpa using others other member
  have nonempty : sched.queue.entries ≠ [] := by
    intro none
    have absent : id ∉ sched.queue := by
      rw [AList.mem_keys, AList.keys, none]
      exact List.not_mem_nil
    rw [AList.lookup_eq_none.mpr absent] at found
    cases found
  refine ⟨p, found, work, ?_⟩
  rw [plan_chunks nonempty]
  rw [candidates] at split
  rcases List.append_eq_append_iff.mp split with ⟨rest, rfl, behind⟩ | ⟨rest, early, behind⟩
  · -- The on-time list is idle and the leader is demoted.
    rw [fill_idle now false fun other member => idle other (List.mem_append_left _ member), behind]
    exact fill_leads room seats now true (fun other member => idle other (List.mem_append_right _ member)) found work
      rfl rfl
  · cases rest with
    | nil =>
      rw [List.append_nil] at early
      rw [early, fill_idle now false idle]
      rw [List.nil_append] at behind
      rw [← behind]
      have nobody : ∀ other ∈ ([] : List RequestId), sched.busy other = false := by simp
      exact fill_leads room seats now true nobody found work rfl rfl
    | cons first rest =>
      obtain ⟨rfl, _⟩ := List.cons.inj behind
      rw [early]
      exact fill_keeps (fill_leads room seats now false idle found work rfl rfl)

/-- Unless hopeless requests are dropped, every queued request is a candidate. -/
theorem mem_candidates (consistent : sched.Consistent)
    (kept : sched.tuning.policy ≠ .mooreHodgson ∨ sched.tuning.demoteHopeless = true) (now : Millis) (id : RequestId) :
    id ∈ sched.candidates now ↔ id ∈ sched.queue := by
  have dealt := orderJobs_perm sched.jobs now sched.tuning.policy
  rw [consistent.listed.jobs_ids] at dealt
  rw [← consistent.order_iff, ← dealt.mem_iff, candidates]
  split
  next => rfl
  next off =>
    have plain := kept.resolve_right off
    cases policy : sched.tuning.policy with
    | mooreHodgson => exact absurd policy plain
    | fcfs => simp [orderJobs]
    | edf => simp [orderJobs]

/-- One `plan` and its `complete`. -/
def round (sched : PrefillScheduler) (now elapsedMs : Millis) : PrefillScheduler :=
  ((sched.plan now).2.complete (sched.plan now).1 elapsedMs).2

theorem queuedTokens_creditChunk {chunk : PrefillChunk} (fits : sched.Fits chunk) :
    (sched.creditChunk chunk).2.queuedTokens + chunk.tokens = sched.queuedTokens := by
  obtain ⟨p, found, _, _, within, _⟩ := fits
  have before : sched.queuedTokens = p.remaining + (sched.queue.erase chunk.id).sum fun _ p => p.remaining :=
    AList.sum_of_lookup _ found
  have after : (sched.creditChunk chunk).2.queuedTokens = (p.credit chunk.tokens).remaining +
      (sched.queue.erase chunk.id).sum fun _ p => p.remaining := by
    rw [creditChunk, found]
    exact AList.sum_insert _ _ _ _
  rw [before, after]
  simp only [PendingPrefill.credit, PendingPrefill.remaining] at within ⊢
  omega

theorem queuedTokens_remove_le (id : RequestId) : (sched.remove id).queuedTokens ≤ sched.queuedTokens := by
  change (sched.queue.erase id).sum _ ≤ sched.queue.sum _
  cases found : sched.queue.lookup id with
  | none => rw [AList.erase_of_notMem (AList.lookup_eq_none.mp found)]
  | some p =>
    rw [AList.sum_of_lookup _ found]
    exact Nat.le_add_left _ _

theorem Fits.creditChunk {first other : PrefillChunk} (fits : sched.Fits other) (apart : other.id ≠ first.id) :
    (sched.creditChunk first).2.Fits other := by
  obtain ⟨p, found, rest⟩ := fits
  refine ⟨p, ?_, rest⟩
  rw [creditChunk_lookup, if_neg (Ne.symm apart)]
  exact found

theorem queuedTokens_creditLoop {chunks : List PrefillChunk} {sched : PrefillScheduler}
    (distinct : (chunks.map (·.id)).Nodup) (fits : ∀ chunk ∈ chunks, sched.Fits chunk) :
    (creditLoop chunks sched).2.queuedTokens + (chunks.map (·.tokens)).sum = sched.queuedTokens := by
  induction chunks generalizing sched with
  | nil => rfl
  | cons chunk chunks ih =>
    rw [List.map_cons, List.nodup_cons] at distinct
    have rest := ih distinct.2 fun other member => (fits other (.tail _ member)).creditChunk fun same =>
      distinct.1 (same ▸ List.mem_map_of_mem member)
    have first := queuedTokens_creditChunk (fits chunk (.head _))
    rw [List.map_cons, List.sum_cons]
    change (creditLoop chunks (sched.creditChunk chunk).2).2.queuedTokens + _ = _
    omega

theorem queuedTokens_removeAll_le (ids : List RequestId) (sched : PrefillScheduler) :
    (ids.foldl remove sched).queuedTokens ≤ sched.queuedTokens := by
  induction ids generalizing sched with
  | nil => exact le_rfl
  | cons id ids ih => exact (ih _).trans (queuedTokens_remove_le id)

/-- Completing a batch that continues the queue computes its tokens. -/
theorem queuedTokens_complete_lt {batch : PrefillBatch} (elapsedMs : Millis) (distinct : (batch.chunks.map (·.id)).Nodup)
    (fits : ∀ chunk ∈ batch.chunks, sched.Fits chunk) (nonempty : batch.chunks ≠ []) :
    (sched.complete batch elapsedMs).2.queuedTokens < sched.queuedTokens := by
  obtain ⟨first, rest, split⟩ := List.exists_cons_of_ne_nil nonempty
  have rated := (sched.observeRate_frame batch elapsedMs).1
  have fitting : ∀ chunk ∈ batch.chunks, (sched.observeRate batch elapsedMs).Fits chunk := by
    intro chunk member
    unfold Fits
    rw [rated]
    exact fits chunk member
  have credited := queuedTokens_creditLoop distinct fitting
  have positive : 0 < (batch.chunks.map (·.tokens)).sum := by
    obtain ⟨p, _, _, work, _⟩ := fits first (split ▸ .head _)
    rw [split, List.map_cons, List.sum_cons]
    exact Nat.add_pos_left work _
  have same : (sched.observeRate batch elapsedMs).queuedTokens = sched.queuedTokens :=
    congrArg (AList.sum fun _ p => PendingPrefill.remaining p) rated
  have removed := queuedTokens_removeAll_le (creditLoop batch.chunks (sched.observeRate batch elapsedMs)).1
    (creditLoop batch.chunks (sched.observeRate batch elapsedMs)).2
  change (List.foldl remove _ _).queuedTokens < _
  omega

theorem Consistent.round (consistent : sched.Consistent) (now elapsedMs : Millis) :
    (sched.round now elapsedMs).Consistent := ((consistent.plan now).2.2.complete _ elapsedMs).1

inductive SchedOp where
  | enqueue (p : PendingPrefill)
  | remove (id : RequestId)
  | plan (now : Millis)
  | complete (batch : PrefillBatch) (elapsedMs : Millis)
deriving DecidableEq, Repr

def apply (sched : PrefillScheduler) : SchedOp → PrefillScheduler
  | .enqueue p => sched.enqueue p
  | .remove id => sched.remove id
  | .plan now => (sched.plan now).2
  | .complete batch elapsedMs => (sched.complete batch elapsedMs).2

/-- Any calls in any order; a request joins with no more computed than it has to compute. -/
def system (tuning : PrefillTuning) : Machine.System PrefillScheduler SchedOp :=
  .ofFun (· = new tuning) (fun _ op => ∀ p, op = .enqueue p → p.doneTokens ≤ p.computeTokens) apply

/-- The scheduler after `k` rounds at the given times. -/
def rounds (sched : PrefillScheduler) (times : ℕ → Millis × Millis) : ℕ → PrefillScheduler
  | 0 => sched
  | k + 1 => (sched.rounds times k).round (times k).1 (times k).2

/-- A request without work stays in the queue and is never planned. -/
example : (((new ⟨4, 2, .fcfs, true, 1, 0⟩).enqueue ⟨1, 0, 10, 0, 0⟩).plan 0).1.chunks = [] := by decide +kernel

end TrtLlm.Sched.PrefillScheduler
