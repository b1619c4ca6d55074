import TrtLlm.Model.Worker.PrefillWorker
import TrtLlm.Soundness.PrefillPlan

/-! # What one pass of the prefill worker does

A pass resolves a front part of its planned batch, as far as the pool reaches: `Covers` says when that is
all of a list of chunks. Queue, prompts and pages then change only for the requests the booked batch
finishes.
-/

namespace TrtLlm.KvCache.BlockPool

theorem allocLoop_frame (n : ℕ) (pool : BlockPool) :
    (allocLoop n pool).2.available = pool.available - n ∧ (allocLoop n pool).2.reserve = pool.reserve := by
  induction n generalizing pool with
  | zero => exact ⟨rfl, rfl⟩
  | succ n ih =>
    rw [allocLoop]
    split
    next id free split =>
      obtain ⟨available, reserve⟩ := ih ({ pool with free }.setRefs id 1)
      refine ⟨available.trans ?_, reserve.trans ?_⟩
      · simp only [BlockPool.available, setRefs, split, List.length_cons]
        omega
      · simp [BlockPool.reserve, total, setRefs]
    next id cached empty split =>
      obtain ⟨available, reserve⟩ := ih ({ pool with cached }.setRefs id 1)
      refine ⟨available.trans ?_, reserve.trans ?_⟩
      · simp only [BlockPool.available, setRefs, empty, split, List.length_cons]
        omega
      · simp [BlockPool.reserve, total, setRefs]
    next empty none =>
      refine ⟨?_, rfl⟩
      simp [BlockPool.available, empty, none]

/-- An allocation the watermark admits succeeds and takes exactly its pages. -/
theorem alloc_of_canAdmit {pool : BlockPool} {n : ℕ} (admitted : pool.canAdmit n = true) :
    ∃ blocks next, pool.alloc n = (.ok blocks, next) ∧ next.available = pool.available - n ∧
      next.reserve = pool.reserve := by
  have room : n + pool.reserve ≤ pool.available := of_decide_eq_true admitted
  refine ⟨(allocLoop n pool).1, (allocLoop n pool).2, ?_, allocLoop_frame n pool⟩
  rw [alloc, if_neg (by omega)]

end TrtLlm.KvCache.BlockPool

namespace TrtLlm.Worker

open KvCache Sched Engine

namespace PrefillWorker

variable {worker : PrefillWorker}

/-- The queue is consistent and every queued request has its whole prompt at hand. -/
structure Stocked (worker : PrefillWorker) : Prop where
  consistent : worker.sched.Consistent
  prompt : ∀ {id p}, worker.sched.queue.lookup id = some p →
    ∃ prompt, worker.prompts.lookup id = some prompt ∧ prompt.length = p.computeTokens

theorem stocked_new (tuning : PrefillTuning) (numBlocks blockSize : ℕ) (watermark : ℚ) :
    (new tuning numBlocks blockSize watermark).Stocked where
  consistent := PrefillScheduler.consistent_new tuning
  prompt found := by simp [new, PrefillScheduler.new] at found

/-! ### Taking jobs -/

theorem enqueue_lookup (job : PrefillJob) (id : RequestId) :
    (worker.enqueue job).sched.queue.lookup id =
        (if id = job.id then some ⟨job.id, job.arrivalMs, job.deadlineMs, job.prompt.length, 0⟩
          else worker.sched.queue.lookup id) ∧
      (worker.enqueue job).prompts.lookup id = if id = job.id then some job.prompt else worker.prompts.lookup id :=
  ⟨AList.lookup_insert_eq_ite .., AList.lookup_insert_eq_ite ..⟩

theorem Stocked.enqueue (stocked : worker.Stocked) (job : PrefillJob) : (worker.enqueue job).Stocked := by
  refine ⟨stocked.consistent.enqueue (Nat.zero_le _), ?_⟩
  intro id p found
  obtain ⟨queue, prompts⟩ := worker.enqueue_lookup job id
  rw [queue] at found
  rw [prompts]
  split at found
  next here => exact ⟨job.prompt, if_pos here, by rw [← Option.some.inj found]⟩
  next other =>
    rw [if_neg other]
    exact stocked.prompt found

theorem Stocked.accept (jobs : List PrefillJob) {worker : PrefillWorker} (stocked : worker.Stocked) :
    (worker.accept jobs).Stocked := by
  induction jobs generalizing worker with
  | nil => exact stocked
  | cons job jobs ih => exact ih (stocked.enqueue job)

/-- What is queued after taking jobs was queued before or starts from nothing. -/
theorem accept_lookup (jobs : List PrefillJob) {worker : PrefillWorker} {id : RequestId} {p : PendingPrefill}
    (found : (worker.accept jobs).sched.queue.lookup id = some p) :
    worker.sched.queue.lookup id = some p ∨ id ∈ jobs.map (·.id) ∧ p.doneTokens = 0 := by
  induction jobs generalizing worker with
  | nil => exact .inl found
  | cons job jobs ih =>
    rw [List.map_cons, List.mem_cons]
    rcases ih found with before | ⟨member, zero⟩
    · rw [(worker.enqueue_lookup job id).1] at before
      split at before
      next here => exact .inr ⟨.inl here, by rw [← Option.some.inj before]⟩
      next => exact .inl before
    · exact .inr ⟨.inr member, zero⟩

theorem mem_accept (jobs : List PrefillJob) (worker : PrefillWorker) (id : RequestId) :
    id ∈ (worker.accept jobs).sched.queue ↔ id ∈ jobs.map (·.id) ∨ id ∈ worker.sched.queue := by
  induction jobs generalizing worker with
  | nil => simp [accept]
  | cons job jobs ih =>
    rw [List.map_cons, List.mem_cons, or_assoc]
    refine (ih (worker.enqueue job)).trans ?_
    have first : id ∈ (worker.enqueue job).sched.queue ↔ id = job.id ∨ id ∈ worker.sched.queue :=
      AList.mem_insert _
    rw [first]
    exact or_left_comm

/-! ### Resolving a batch against the pool -/

/-- Pages a planned chunk needs beyond those its request holds. -/
def chunkPages (worker : PrefillWorker) (chunk : PrefillChunk) : ℕ :=
  ((worker.prompts.lookup chunk.id).map fun prompt => worker.extraPages prompt chunk).getD 0

/-- The pool can serve all of these chunks: they need no page, or it admits the pages of all of them. -/
def Covers (worker : PrefillWorker) (chunks : List PrefillChunk) : Prop :=
  (chunks.map worker.chunkPages).sum = 0 ∨ worker.pool.canAdmit (chunks.map worker.chunkPages).sum = true

instance (worker : PrefillWorker) (chunks : List PrefillChunk) : Decidable (worker.Covers chunks) :=
  inferInstanceAs (Decidable (_ ∨ _))

theorem covers_iff {chunks : List PrefillChunk} :
    worker.Covers chunks ↔ (chunks.map worker.chunkPages).sum = 0 ∨
      (chunks.map worker.chunkPages).sum + worker.pool.reserve ≤ worker.pool.available := by
  rw [Covers, BlockPool.canAdmit, decide_eq_true_iff]

theorem Covers.front {front back : List PrefillChunk} (covers : worker.Covers (front ++ back)) :
    worker.Covers front := by
  rw [covers_iff, List.map_append, List.sum_append] at covers
  rw [covers_iff]
  omega

theorem acquire_eq_none {id : RequestId} {extra : ℕ} (refused : worker.acquire id extra = none) :
    0 < extra ∧ ¬extra + worker.pool.reserve ≤ worker.pool.available := by
  unfold acquire at refused
  split at refused
  · cases refused
  next positive =>
    refine ⟨Nat.pos_of_ne_zero positive, fun room => ?_⟩
    have admitted : worker.pool.canAdmit extra = true := decide_eq_true room
    obtain ⟨blocks, next, granted, _⟩ := BlockPool.alloc_of_canAdmit admitted
    rw [if_pos admitted, granted] at refused
    cases refused

/-- What a successful acquisition leaves: nothing changes but the pages of one request. -/
structure Acquired (before : PrefillWorker) (id : RequestId) (extra : ℕ) (after : PrefillWorker) : Prop where
  room : extra = 0 ∨ extra + before.pool.reserve ≤ before.pool.available
  available : after.pool.available = before.pool.available - extra
  reserve : after.pool.reserve = before.pool.reserve
  sched : after.sched = before.sched
  prompts : after.prompts = before.prompts
  blockSize : after.blockSize = before.blockSize
  others : ∀ other, other ≠ id → after.kv.lookup other = before.kv.lookup other
  keeps : ∀ other ∈ before.kv, other ∈ after.kv

theorem acquire_eq_some {id : RequestId} {extra : ℕ} {after : PrefillWorker}
    (granted : worker.acquire id extra = some after) : worker.Acquired id extra after := by
  unfold acquire at granted
  split at granted
  next zero =>
    obtain rfl := Option.some.inj granted
    exact ⟨.inl zero, by omega, rfl, rfl, rfl, rfl, fun _ _ => rfl, fun _ member => member⟩
  next =>
    split at granted
    next admitted =>
      obtain ⟨blocks, next, allocated, available, reserve⟩ := BlockPool.alloc_of_canAdmit admitted
      rw [allocated] at granted
      obtain rfl := Option.some.inj granted
      refine ⟨.inr (of_decide_eq_true admitted), available, reserve, rfl, rfl, rfl, ?_, ?_⟩
      · intro other apart
        exact AList.lookup_insert_ne apart
      · intro other member
        exact (AList.mem_insert _).mpr (.inr member)
    next => cases granted

theorem Acquired.chunkPages {before after : PrefillWorker} {id : RequestId} {extra : ℕ}
    (acquired : before.Acquired id extra after) {chunk : PrefillChunk} (apart : chunk.id ≠ id) :
    after.chunkPages chunk = before.chunkPages chunk := by
  unfold PrefillWorker.chunkPages PrefillWorker.extraPages PrefillWorker.held
  rw [acquired.prompts, acquired.others _ apart, acquired.blockSize]

/-- The chunk a resolved slice stands for. -/
def asChunk (spec : PrefillChunkSpec) : PrefillChunk := ⟨spec.id, spec.start, spec.tokens.length, spec.completes⟩

/-- Every chunk lies inside a prompt the worker holds. -/
def Inside (worker : PrefillWorker) (chunks : List PrefillChunk) : Prop :=
  ∀ chunk ∈ chunks, ∃ prompt, worker.prompts.lookup chunk.id = some prompt ∧
    chunk.start + chunk.tokens ≤ prompt.length

theorem asChunk_chunkSpec (worker : PrefillWorker) {prompt : List TokenId} {chunk : PrefillChunk}
    (fits : chunk.start + chunk.tokens ≤ prompt.length) : asChunk (worker.chunkSpec prompt chunk) = chunk := by
  have length : ((prompt.take (stop prompt chunk)).drop chunk.start).length = chunk.tokens := by
    rw [List.length_drop, List.length_take, stop]
    omega
  simp only [asChunk, chunkSpec, length]

theorem resolve_frame (chunks : List PrefillChunk) (worker : PrefillWorker) :
    (resolve chunks worker).2.sched = worker.sched ∧ (resolve chunks worker).2.prompts = worker.prompts ∧
      ∀ id ∈ worker.kv, id ∈ (resolve chunks worker).2.kv := by
  induction chunks generalizing worker with
  | nil => exact ⟨rfl, rfl, fun _ member => member⟩
  | cons chunk chunks ih =>
    rw [resolve]
    split
    · exact ih worker
    · split
      · exact ⟨rfl, rfl, fun _ member => member⟩
      next paged granted =>
        have acquired := acquire_eq_some granted
        obtain ⟨sched, prompts, keeps⟩ := ih paged
        exact ⟨sched.trans acquired.sched, prompts.trans acquired.prompts,
          fun id member => keeps id (acquired.keeps id member)⟩

/-- The loop resolves a front part of the batch, slice by slice. -/
theorem resolve_front {chunks : List PrefillChunk} {worker : PrefillWorker} (inside : worker.Inside chunks) :
    ∃ rest, chunks = (resolve chunks worker).1.map asChunk ++ rest := by
  induction chunks generalizing worker with
  | nil => exact ⟨[], rfl⟩
  | cons chunk chunks ih =>
    obtain ⟨prompt, found, fits⟩ := inside chunk (.head _)
    rw [resolve, found]
    simp only
    split
    · exact ⟨chunk :: chunks, rfl⟩
    next paged granted =>
      have acquired := acquire_eq_some granted
      have later : paged.Inside chunks := by
        intro other member
        rw [acquired.prompts]
        exact inside other (.tail _ member)
      obtain ⟨rest, split⟩ := ih later
      refine ⟨rest, ?_⟩
      rw [List.map_cons, asChunk_chunkSpec paged fits, List.cons_append, ← split]

/-- The loop gets past a front part of the batch exactly when the pool covers it. -/
theorem resolve_reaches {front back : List PrefillChunk} {worker : PrefillWorker}
    (inside : worker.Inside (front ++ back)) (distinct : ((front ++ back).map (·.id)).Nodup) :
    front.length ≤ (resolve (front ++ back) worker).1.length ↔ worker.Covers front := by
  induction front generalizing worker with
  | nil => exact ⟨fun _ => .inl rfl, fun _ => Nat.zero_le _⟩
  | cons chunk front ih =>
    obtain ⟨prompt, found, fits⟩ := inside chunk (.head _)
    rw [List.cons_append, List.map_cons, List.nodup_cons] at distinct
    have pages : worker.chunkPages chunk = worker.extraPages prompt chunk := by rw [chunkPages, found]; rfl
    rw [List.cons_append, resolve, found, covers_iff, List.map_cons, List.sum_cons, pages]
    simp only
    split
    next refused =>
      have short := acquire_eq_none refused
      constructor
      · intro reached
        cases reached
      · omega
    next paged granted =>
      have acquired := acquire_eq_some granted
      have later : paged.Inside (front ++ back) := by
        intro other member
        rw [acquired.prompts]
        exact inside other (.tail _ member)
      have same : front.map paged.chunkPages = front.map worker.chunkPages := by
        refine List.map_congr_left fun other member => acquired.chunkPages ?_
        intro same
        exact distinct.1 (same ▸ List.mem_map_of_mem (List.mem_append_left _ member))
      have rest := ih later distinct.2
      rw [covers_iff, same, acquired.available, acquired.reserve] at rest
      have room := acquired.room
      rw [List.length_cons, List.length_cons, Nat.add_le_add_iff_right, rest]
      omega

/-! ### The planned batch and how far it resolves -/

theorem planned_lookup (input : PrefillRound) (id : RequestId) :
    (worker.planned input).2.sched.queue.lookup id = (worker.accept input.jobs).sched.queue.lookup id := by
  change ((worker.accept input.jobs).sched.plan input.now).2.queue.lookup id = _
  rw [PrefillScheduler.plan_queue]

/-- A planned batch names distinct queued requests, continues each where it stands, and lies inside the
prompts at hand. -/
structure Stocked.Plan (worker : PrefillWorker) (input : PrefillRound) : Prop where
  stocked : (worker.planned input).2.Stocked
  distinct : ((worker.planned input).1.chunks.map (·.id)).Nodup
  fits : ∀ chunk ∈ (worker.planned input).1.chunks, (worker.planned input).2.sched.Fits chunk
  inside : (worker.planned input).2.Inside (worker.planned input).1.chunks

theorem Stocked.plan (stocked : worker.Stocked) (input : PrefillRound) : Stocked.Plan worker input := by
  have accepted := stocked.accept input.jobs
  obtain ⟨distinct, fits, consistent⟩ := accepted.consistent.plan input.now
  have ready : (worker.planned input).2.Stocked := by
    refine ⟨consistent, fun {id p} found => ?_⟩
    rw [planned_lookup] at found
    exact accepted.prompt found
  have fitting : ∀ chunk ∈ (worker.planned input).1.chunks, (worker.planned input).2.sched.Fits chunk := by
    intro chunk member
    unfold PrefillScheduler.Fits
    rw [planned_lookup]
    exact fits chunk member
  refine ⟨ready, distinct, fitting, fun chunk member => ?_⟩
  obtain ⟨p, found, start, _, within, _⟩ := fitting chunk member
  obtain ⟨prompt, known, length⟩ := ready.prompt found
  have room := consistent.done_le found
  refine ⟨prompt, known, ?_⟩
  rw [PendingPrefill.remaining] at within
  omega

theorem Stocked.resolved_front (stocked : worker.Stocked) (input : PrefillRound) :
    ∃ rest, (worker.planned input).1.chunks = (worker.resolved input).1.map asChunk ++ rest :=
  resolve_front (stocked.plan input).inside

/-- A front part of the planned batch is passed on exactly when the pool covers it. -/
theorem Stocked.resolved_reaches (stocked : worker.Stocked) {input : PrefillRound} (front : List PrefillChunk)
    {back : List PrefillChunk} (split : (worker.planned input).1.chunks = front ++ back) :
    front.length ≤ (worker.resolved input).1.length ↔ (worker.planned input).2.Covers front := by
  have plan := stocked.plan input
  have inside := plan.inside
  have distinct := plan.distinct
  unfold resolved
  rw [split] at inside distinct ⊢
  exact resolve_reaches inside distinct

theorem resolved_sched (input : PrefillRound) :
    (worker.resolved input).2.sched = (worker.planned input).2.sched := (resolve_frame _ _).1

theorem resolved_prompts (input : PrefillRound) :
    (worker.resolved input).2.prompts = (worker.accept input.jobs).prompts := (resolve_frame _ _).2.1

theorem resolved_lookup (input : PrefillRound) (id : RequestId) :
    (worker.resolved input).2.sched.queue.lookup id = (worker.accept input.jobs).sched.queue.lookup id := by
  rw [resolved_sched, planned_lookup]

theorem Stocked.resolved (stocked : worker.Stocked) (input : PrefillRound) : (worker.resolved input).2.Stocked := by
  have plan := stocked.plan input
  have sched : (worker.resolved input).2.sched = (worker.planned input).2.sched := resolved_sched input
  refine ⟨sched ▸ plan.stocked.consistent, fun {id p} found => ?_⟩
  rw [sched] at found
  rw [resolved_prompts]
  exact plan.stocked.prompt found

/-! ### Booking the batch -/

theorem releasePages_frame (finished : List RequestId) (worker : PrefillWorker) :
    (finished.foldl releasePages worker).sched = worker.sched ∧
      (finished.foldl releasePages worker).prompts = worker.prompts ∧
      ∀ id ∈ worker.kv, id ∉ finished → id ∈ (finished.foldl releasePages worker).kv := by
  induction finished generalizing worker with
  | nil => exact ⟨rfl, rfl, fun _ member _ => member⟩
  | cons first finished ih =>
    obtain ⟨sched, prompts, keeps⟩ := ih (worker.releasePages first)
    refine ⟨sched.trans ?_, prompts.trans ?_, fun id member outside => keeps id ?_ ?_⟩
    · unfold releasePages
      split <;> rfl
    · unfold releasePages
      split <;> rfl
    · unfold releasePages
      split
      · exact AList.mem_erase.mpr ⟨fun same => outside (same ▸ .head _), member⟩
      · exact member
    · exact fun later => outside (.tail _ later)

theorem dropPrompt_frame (finished : List RequestId) (worker : PrefillWorker) :
    (finished.foldl dropPrompt worker).sched = worker.sched ∧ (finished.foldl dropPrompt worker).kv = worker.kv ∧
      ∀ id, (finished.foldl dropPrompt worker).prompts.lookup id =
        if id ∈ finished then none else worker.prompts.lookup id := by
  refine ⟨?_, ?_, fun id => ?_⟩
  · exact List.foldlRecOn (motive := fun final : PrefillWorker => final.sched = worker.sched) finished dropPrompt rfl
      fun _ same _ _ => same
  · exact List.foldlRecOn (motive := fun final : PrefillWorker => final.kv = worker.kv) finished dropPrompt rfl
      fun _ same _ _ => same
  · rw [← AList.lookup_foldl_erase, List.foldl_hom PrefillWorker.prompts]
    exact fun _ _ => rfl

theorem forget_frame (finished : List RequestId) (worker : PrefillWorker) :
    (worker.forget finished).sched = worker.sched ∧
      (∀ id, (worker.forget finished).prompts.lookup id =
        if id ∈ finished then none else worker.prompts.lookup id) ∧
      ∀ id ∈ worker.kv, id ∉ finished → id ∈ (worker.forget finished).kv := by
  obtain ⟨sched, prompts, keeps⟩ := releasePages_frame finished worker
  obtain ⟨textSched, textKv, lookups⟩ := dropPrompt_frame finished (finished.foldl releasePages worker)
  refine ⟨textSched.trans sched, fun id => ?_, fun id member outside => ?_⟩
  · rw [forget, lookups, prompts]
  · rw [forget, textKv]
    exact keeps id member outside

/-- The requests an `Ok` answer finishes: those whose planned chunk completes them. -/
def finishes (worker : PrefillWorker) (input : PrefillRound) : List RequestId :=
  ((worker.planned input).1.chunks.filter (·.completes)).map (·.id)

/-- What booking the planned batch does: it credits every planned chunk, and only the requests whose
planned chunk completes them lose their place, their prompt or their pages. -/
structure Booking (worker : PrefillWorker) (input : PrefillRound) (outcome : PrefillOutcome)
    (out : PrefillReport × PrefillWorker) : Prop where
  stocked : out.2.Stocked
  passed : out.1.passed = (worker.resolved input).1
  queue : ∀ id, out.2.sched.queue.lookup id = if id ∈ worker.finishes input then none
    else ((worker.accept input.jobs).sched.queue.lookup id).map
      (·.credit (PrefillScheduler.tokensFor id (worker.planned input).1.chunks))
  prompts : ∀ id ∈ (worker.accept input.jobs).prompts, id ∉ worker.finishes input → id ∈ out.2.prompts
  kv : ∀ id ∈ (worker.accept input.jobs).kv, id ∉ worker.finishes input → id ∈ out.2.kv
  sent : out.1.returned = true ∧ input.outOpen = false ∧ outcome.firstTokens ≠ [] ∧ out.1.sent = [] ∨
    out.1.returned = false ∧ out.1.sent.map (fun done => (done.id, done.firstToken)) = outcome.firstTokens

theorem Stocked.booking (stocked : worker.Stocked) (input : PrefillRound) (outcome : PrefillOutcome) :
    Booking worker input outcome ((worker.resolved input).2.settle input (worker.planned input).1
      (worker.resolved input).1 outcome) := by
  have plan := stocked.plan input
  have ready := stocked.resolved input
  have finished : ((worker.resolved input).2.sched.complete (worker.planned input).1 outcome.elapsedMs).1 =
      worker.finishes input := by
    rw [resolved_sched]
    exact PrefillScheduler.complete_finished _ plan.distinct plan.fits
  obtain ⟨consistent, lookups⟩ := ready.consistent.complete (worker.planned input).1 outcome.elapsedMs
  simp only [finished, resolved_lookup] at lookups
  have known : ∀ {id p}, ((worker.resolved input).2.sched.complete (worker.planned input).1
      outcome.elapsedMs).2.queue.lookup id = some p → id ∉ worker.finishes input ∧
        ∃ prompt, (worker.resolved input).2.prompts.lookup id = some prompt ∧ prompt.length = p.computeTokens := by
    intro id p found
    rw [lookups] at found
    split at found
    · cases found
    next unfinished =>
      obtain ⟨q, before, rfl⟩ := Option.map_eq_some_iff.mp found
      rw [← resolved_lookup] at before
      obtain ⟨prompt, listed, length⟩ := ready.prompt before
      exact ⟨unfinished, prompt, listed, length⟩
  have pages : ∀ id ∈ (worker.accept input.jobs).kv, id ∈ (worker.resolved input).2.kv :=
    (resolve_frame (worker.planned input).1.chunks (worker.planned input).2).2.2
  unfold settle
  simp only [finished]
  split
  next closed =>
    refine ⟨⟨consistent, fun found => (known found).2⟩, rfl, lookups, ?_, fun id member _ => pages id member, ?_⟩
    · intro id member _
      change id ∈ (worker.resolved input).2.prompts
      rw [resolved_prompts]
      exact member
    · exact .inl ⟨rfl, by simpa using closed.1, fun none => closed.2 (by rw [none]; rfl), rfl⟩
  next =>
    obtain ⟨sched, prompts, kv⟩ := forget_frame (worker.finishes input)
      { (worker.resolved input).2 with
        sched := ((worker.resolved input).2.sched.complete (worker.planned input).1 outcome.elapsedMs).2 }
    refine ⟨⟨?_, fun {id p} found => ?_⟩, rfl, fun id => ?_, ?_, ?_, .inr ⟨rfl, ?_⟩⟩
    · rw [sched]
      exact consistent
    · rw [sched] at found
      rw [prompts, if_neg (known found).1]
      exact (known found).2
    · rw [sched]
      exact lookups id
    · intro id member outside
      rw [← AList.lookup_isSome, prompts, if_neg outside]
      change ((worker.resolved input).2.prompts.lookup id).isSome
      rw [resolved_prompts]
      exact AList.lookup_isSome.mpr member
    · exact fun id member outside => kv id (pages id member) outside
    · simp [completion, Function.comp_def]

/-- A pass either leaves queue, prompts and pages as resolving left them, or books the whole planned batch
after an `Ok` answer to a non-empty call. -/
theorem Stocked.round_cases (stocked : worker.Stocked) (input : PrefillRound) :
    ((worker.resolved input).1 = [] ∨ ∃ error, input.answer (worker.resolved input).1 = .error error) ∧
        worker.round input = ({}, (worker.resolved input).2) ∨
      ∃ outcome, (worker.resolved input).1 ≠ [] ∧ input.answer (worker.resolved input).1 = .ok outcome ∧
        Booking worker input outcome (worker.round input) := by
  unfold PrefillWorker.round
  split
  next none => exact .inl ⟨.inl none, rfl⟩
  next nonempty =>
    split
    next error failed => exact .inl ⟨.inr ⟨error, failed⟩, rfl⟩
    next outcome answered => exact .inr ⟨outcome, nonempty, answered, stocked.booking input outcome⟩

theorem Stocked.round (stocked : worker.Stocked) (input : PrefillRound) : (worker.round input).2.Stocked := by
  rcases stocked.round_cases input with ⟨_, unchanged⟩ | ⟨outcome, _, _, booking⟩
  · rw [unchanged]
    exact stocked.resolved input
  · exact booking.stocked

end PrefillWorker

end TrtLlm.Worker
