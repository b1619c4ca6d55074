import TrtLlm.Soundness.PageLedger
import TrtLlm.Soundness.PrefillProgress

/-! # When half-done prompts wedge the prefill worker

A prompt takes its pages chunk by chunk and keeps them until its last chunk is done, and resolving stops at the
first planned chunk that gets no pages. Passes that pass nothing on change nothing but the demoted set, so
without new jobs everything depends on the request that leads the plan: the worker is stuck exactly when, at
every later time, the next chunk of that request needs more pages than the half-done prompts leave.
-/

namespace TrtLlm.Worker

open KvCache Sched Engine

namespace PrefillWorker

variable {worker : PrefillWorker} {n : ℕ}

/-- Pages the next chunk of a queued request needs beyond those it holds. -/
def nextPages (worker : PrefillWorker) (id : RequestId) (p : PendingPrefill) : ℕ :=
  blocksFor (p.doneTokens + min p.remaining worker.sched.tuning.chunkTokens) worker.blockSize - (worker.held id).length

/-- Pages the queued prompts hold together. -/
def heldByQueue (worker : PrefillWorker) : ℕ := (worker.sched.queue.keys.map fun id => (worker.held id).length).sum

/-- The request that leads the plan at this time needs no page for its next chunk, or what it needs fits beside
the pages of the half-done prompts and the reserve. -/
def Extendable (worker : PrefillWorker) (now : Millis) : Prop :=
  1 ≤ worker.sched.tuning.chunkTokens ∧ 1 ≤ worker.sched.tuning.maxSeqs ∧
    ∃ id p, worker.sched.leader now = some id ∧ worker.sched.queue.lookup id = some p ∧
      (worker.nextPages id p = 0 ∨
        worker.heldByQueue + worker.nextPages id p + worker.pool.reserve ≤ worker.pool.total)

/-- The worker after a list of passes. -/
def afterRounds (worker : PrefillWorker) (rounds : List PrefillRound) : PrefillWorker :=
  rounds.foldl (fun worker input => (worker.round input).2) worker

/-- From this time on there are passes without new jobs, the last of which passes a chunk to an engine that
executes it. -/
def Progresses (worker : PrefillWorker) (clock : Millis) : Prop :=
  ∃ rounds last, (∀ input ∈ rounds ++ [last], input.jobs = []) ∧
    (clock :: (rounds ++ [last]).map (·.now)).Pairwise (· ≤ ·) ∧
      ((worker.afterRounds rounds).round last).1.passed ≠ []

/-! ### The ledger over a pass -/

/-- The pool backs the pages the prompts hold, and only queued prompts hold any. -/
structure Accounted (n : ℕ) (worker : PrefillWorker) : Prop where
  stocked : worker.Stocked
  ledger : Ledger n worker.pool worker.kv
  queued : ∀ id ∈ worker.kv, id ∈ worker.sched.queue

theorem accounted_new (tuning : PrefillTuning) (numBlocks blockSize : ℕ) (watermark : ℚ) :
    (new tuning numBlocks blockSize watermark).Accounted numBlocks where
  stocked := stocked_new tuning numBlocks blockSize watermark
  ledger := .new numBlocks blockSize watermark
  queued _ member := absurd member (AList.notMem_empty _)

theorem accept_frame (jobs : List PrefillJob) (worker : PrefillWorker) :
    (worker.accept jobs).pool = worker.pool ∧ (worker.accept jobs).kv = worker.kv := by
  induction jobs generalizing worker with
  | nil => exact ⟨rfl, rfl⟩
  | cons job jobs ih => exact ih (worker.enqueue job)

theorem acquire_ledger (ledger : Ledger n worker.pool worker.kv) {id : RequestId} {extra : ℕ} {after : PrefillWorker}
    (granted : worker.acquire id extra = some after) :
    Ledger n after.pool after.kv ∧ ∀ other ∈ after.kv, other ∈ worker.kv ∨ other = id := by
  unfold acquire at granted
  split at granted
  next =>
    obtain rfl := Option.some.inj granted
    exact ⟨ledger, fun _ => .inl⟩
  next =>
    split at granted
    next =>
      split at granted
      next blocks pool allocated =>
        obtain rfl := Option.some.inj granted
        refine ⟨(ledger.grant id allocated).2, fun other member => ?_⟩
        exact ((AList.mem_insert _).mp member).symm
      next => cases granted
    next => cases granted

theorem resolve_ledger (chunks : List PrefillChunk) {worker : PrefillWorker} (ledger : Ledger n worker.pool worker.kv) :
    Ledger n (resolve chunks worker).2.pool (resolve chunks worker).2.kv ∧
      ∀ id ∈ (resolve chunks worker).2.kv, id ∈ worker.kv ∨ id ∈ chunks.map (·.id) := by
  induction chunks generalizing worker with
  | nil => exact ⟨ledger, fun _ => .inl⟩
  | cons chunk chunks ih =>
    have later : ∀ {other : PrefillWorker} {id : RequestId}, id ∈ other.kv ∨ id ∈ chunks.map (·.id) →
        (id ∈ other.kv → id ∈ worker.kv ∨ id = chunk.id) → id ∈ worker.kv ∨ id ∈ (chunk :: chunks).map (·.id) := by
      rintro other id (held | member) known
      · refine (known held).imp_right fun same => ?_
        rw [same]
        exact .head _
      · exact .inr (.tail _ member)
    rw [resolve]
    split
    · exact ⟨(ih ledger).1, fun id member => later ((ih ledger).2 id member) .inl⟩
    · split
      · exact ⟨ledger, fun _ => .inl⟩
      next paged granted =>
        obtain ⟨paid, known⟩ := acquire_ledger ledger granted
        exact ⟨(ih paid).1, fun id member => later ((ih paid).2 id member) (known id)⟩

/-- A loop that resolves nothing takes nothing. -/
theorem resolve_eq_nil {chunks : List PrefillChunk} (none : (resolve chunks worker).1 = []) :
    (resolve chunks worker).2 = worker := by
  induction chunks with
  | nil => rfl
  | cons chunk chunks ih =>
    rw [resolve] at none ⊢
    split at none
    next => exact ih none
    next =>
      split at none
      next => simp only
      next => cases none

theorem forget_ledger (finished : List RequestId) (worker : PrefillWorker) (ledger : Ledger n worker.pool worker.kv) :
    Ledger n (worker.forget finished).pool (worker.forget finished).kv ∧
      ∀ id ∈ (worker.forget finished).kv, id ∈ worker.kv ∧ id ∉ finished := by
  -- the loop over the prompts that follows touches neither
  have dropped : ((worker.forget finished).pool, (worker.forget finished).kv) =
      ((finished.foldl releasePages worker).pool, (finished.foldl releasePages worker).kv) :=
    List.foldlRecOn (motive := fun final : PrefillWorker => (final.pool, final.kv) = _) finished dropPrompt rfl
      fun _ same _ _ => same
  have released : ((worker.forget finished).pool, (worker.forget finished).kv) =
      finished.foldl giveBackEntry (worker.pool, worker.kv) := by
    rw [dropped, ← List.foldl_hom fun worker : PrefillWorker => (worker.pool, worker.kv)]
    intro worker id
    cases found : worker.kv.lookup id <;> simp only [giveBackEntry, releasePages, found]
  have after := ledger.giveBackAll finished
  rw [← released] at after
  refine ⟨after.1, fun id member => ?_⟩
  obtain ⟨blocks, found⟩ := AList.mem_iff_exists_lookup.mp member
  obtain ⟨before, left⟩ := (after.2 id blocks).mp found
  exact ⟨AList.mem_iff_exists_lookup.mpr ⟨blocks, before⟩, left⟩

/-- Resolving keeps the books. -/
theorem Accounted.resolved (accounted : worker.Accounted n) (input : PrefillRound) :
    (worker.resolved input).2.Accounted n := by
  obtain ⟨pool, kv⟩ := accept_frame input.jobs worker
  have ledger : Ledger n (worker.planned input).2.pool (worker.planned input).2.kv := by
    change Ledger n (worker.accept input.jobs).pool (worker.accept input.jobs).kv
    rw [pool, kv]
    exact accounted.ledger
  obtain ⟨paid, known⟩ := resolve_ledger (worker.planned input).1.chunks ledger
  refine ⟨accounted.stocked.resolved input, paid, fun id member => ?_⟩
  rw [← AList.lookup_isSome, resolved_lookup, AList.lookup_isSome]
  rcases known id member with held | planned
  · refine (mem_accept input.jobs worker id).mpr (.inr (accounted.queued id ?_))
    rw [← kv]
    exact held
  · obtain ⟨chunk, listed, rfl⟩ := List.mem_map.mp planned
    obtain ⟨p, found, _⟩ := (accounted.stocked.plan input).fits chunk listed
    rw [planned_lookup] at found
    exact AList.mem_iff_exists_lookup.mpr ⟨_, found⟩

/-- A pass that does not end the loop keeps the books. -/
theorem Accounted.round (accounted : worker.Accounted n) {input : PrefillRound}
    (goes : (worker.round input).1.returned = false) : (worker.round input).2.Accounted n := by
  rcases accounted.stocked.round_cases input with ⟨_, unchanged⟩ | ⟨outcome, nonempty, answered, booking⟩
  · rw [unchanged]
    exact accounted.resolved input
  · have ready := accounted.resolved input
    have finished : ((worker.resolved input).2.sched.complete (worker.planned input).1 outcome.elapsedMs).1 =
        worker.finishes input := by
      rw [resolved_sched]
      exact PrefillScheduler.complete_finished _ (accounted.stocked.plan input).distinct
        (accounted.stocked.plan input).fits
    have queue := booking.queue
    rw [PrefillWorker.round, if_neg nonempty, answered] at goes queue ⊢
    simp only [settle, finished] at goes queue ⊢
    split at goes
    next => cases goes
    next closed =>
      rw [if_neg closed] at queue ⊢
      obtain ⟨paid, left⟩ := forget_ledger (worker.finishes input)
        { (worker.resolved input).2 with
          sched := ((worker.resolved input).2.sched.complete (worker.planned input).1 outcome.elapsedMs).2 }
        ready.ledger
      refine ⟨?_, paid, fun id member => ?_⟩
      · have stocked := booking.stocked
        rw [PrefillWorker.round, if_neg nonempty, answered] at stocked
        simp only [settle, finished, if_neg closed] at stocked
        exact stocked
      · obtain ⟨held, unfinished⟩ := left id member
        have before := ready.queued id held
        rw [← AList.lookup_isSome, resolved_lookup] at before
        rw [← AList.lookup_isSome, queue, if_neg unfinished, Option.isSome_map]
        exact before

/-! ### What a pass without jobs depends on -/

theorem Accounted.heldByQueue_add (accounted : worker.Accounted n) : worker.pool.available + worker.heldByQueue = n := by
  have sizes := AList.sum_eq_of_keys (fun _ (blocks : List BlockId) => blocks.length)
    (AList.keys_nodup worker.sched.queue) accounted.queued
  rw [← accounted.ledger.available, card_pages, sizes, heldByQueue]
  congr 2
  refine List.map_congr_left fun id _ => ?_
  rw [held]
  cases worker.kv.lookup id <;> rfl

/-- With a budget of no tokens or no seats nothing is planned. -/
theorem plan_without_budget {sched : PrefillScheduler} (none : sched.tuning.chunkTokens = 0 ∨ sched.tuning.maxSeqs = 0)
    (now : Millis) : (sched.plan now).1.chunks = [] := by
  have stuck : ∀ late ids, sched.fill now late ids {} = {} := by
    intro late ids
    cases ids with
    | nil => rfl
    | cons id ids =>
      rw [PrefillScheduler.fill]
      split
      next => rfl
      next seats =>
        rcases none with tokens | zero
        · simp [tokens]
        · exact (seats (by rw [zero]; exact Nat.zero_le _)).elim
  by_cases empty : sched.queue.entries = []
  · unfold PrefillScheduler.plan
    rw [if_pos empty]
  · rw [PrefillScheduler.plan_chunks empty, stuck, stuck]

theorem Accounted.chunkPages_nextChunk (accounted : worker.Accounted n) {id : RequestId} {p : PendingPrefill}
    (found : worker.sched.queue.lookup id = some p) :
    worker.chunkPages (worker.sched.nextChunk id p) = worker.nextPages id p := by
  obtain ⟨prompt, known, length⟩ := accounted.stocked.prompt found
  have room := accounted.stocked.consistent.done_le found
  rw [chunkPages, show worker.prompts.lookup (worker.sched.nextChunk id p).id = some prompt from known]
  change blocksFor (min (p.doneTokens + min p.remaining _) prompt.length) _ - _ = _
  have inside : p.doneTokens + min p.remaining worker.sched.tuning.chunkTokens ≤ prompt.length := by
    rw [PendingPrefill.remaining]
    omega
  rw [min_eq_left inside]
  rfl

/-- A pass without jobs passes something on exactly when the leading request can be extended. -/
theorem Accounted.resolved_iff (accounted : worker.Accounted n) {input : PrefillRound} (alone : input.jobs = []) :
    (worker.resolved input).1 ≠ [] ↔ worker.Extendable input.now := by
  have same : worker.accept input.jobs = worker := by rw [alone]; rfl
  have chunks : (worker.planned input).1.chunks = (worker.sched.plan input.now).1.chunks := by
    rw [planned, same]
  have nothing : (worker.planned input).1.chunks = [] → (worker.resolved input).1 = [] := by
    intro none
    unfold PrefillWorker.resolved
    rw [none]
    rfl
  by_cases budget : worker.sched.tuning.chunkTokens = 0 ∨ worker.sched.tuning.maxSeqs = 0
  · refine iff_of_false (not_not.mpr (nothing (chunks.trans (plan_without_budget budget _)))) ?_
    rintro ⟨tokens, seats, _⟩
    omega
  have tokens : 1 ≤ worker.sched.tuning.chunkTokens := by omega
  have seats : 1 ≤ worker.sched.tuning.maxSeqs := by omega
  cases leads : worker.sched.leader input.now with
  | none =>
    refine iff_of_false (not_not.mpr (nothing (chunks.trans (PrefillScheduler.plan_idle leads)))) ?_
    rintro ⟨_, _, id, p, leader, _⟩
    rw [leads] at leader
    cases leader
  | some id =>
    obtain ⟨p, found, _, added, split⟩ := PrefillScheduler.plan_leads tokens seats leads
    have reaches := accounted.stocked.resolved_reaches [worker.sched.nextChunk id p] (chunks.trans split)
    have pages : (worker.planned input).2.chunkPages (worker.sched.nextChunk id p) = worker.nextPages id p := by
      rw [← accounted.chunkPages_nextChunk found, planned, same]
      rfl
    have pool : (worker.planned input).2.pool = worker.pool := by rw [planned, same]
    have total : worker.pool.total = n := accounted.ledger.owned.size
    have available := accounted.heldByQueue_add
    rw [covers_iff, List.map_singleton, List.sum_singleton, pages, pool] at reaches
    rw [← List.length_pos_iff]
    refine reaches.trans ⟨fun fits => ⟨tokens, seats, id, p, leads, found, ?_⟩, ?_⟩
    · omega
    · rintro ⟨_, _, other, q, leader, known, fits⟩
      obtain rfl := Option.some.inj (leads.symm.trans leader)
      obtain rfl := Option.some.inj (found.symm.trans known)
      omega

/-- A pass without jobs that passes nothing on only rewrites the demoted set. -/
theorem round_idle {input : PrefillRound} (alone : input.jobs = []) (none : (worker.resolved input).1 = []) :
    ∃ demoted, (worker.round input).2 = { worker with sched := { worker.sched with demoted } } := by
  have same : worker.accept input.jobs = worker := by rw [alone]; rfl
  refine ⟨(worker.sched.plan input.now).2.demoted, ?_⟩
  rw [round, if_pos none]
  change (worker.resolved input).2 = _
  rw [resolved, resolve_eq_nil none, planned, same, ← PrefillScheduler.plan_snd]

theorem passed_eq_nil {input : PrefillRound} (none : (worker.resolved input).1 = []) :
    (worker.round input).1.passed = [] := by
  rw [round, if_pos none]

/-- The worker progresses exactly when its leading request can be extended at some later time. -/
theorem Accounted.progresses_iff (accounted : worker.Accounted n) (clock : Millis) :
    worker.Progresses clock ↔ ∃ now, clock ≤ now ∧ worker.Extendable now := by
  constructor
  · rintro ⟨rounds, last, alone, sorted, passed⟩
    induction rounds generalizing worker clock with
    | nil =>
      refine ⟨last.now, (List.pairwise_cons.mp sorted).1 _ (.head _), ?_⟩
      refine (accounted.resolved_iff (alone last (.head _))).mp fun none => passed (passed_eq_nil none)
    | cons input rounds ih =>
      obtain ⟨first, sorted⟩ := List.pairwise_cons.mp sorted
      have soon : clock ≤ input.now := first _ (.head _)
      by_cases none : (worker.resolved input).1 = []
      · -- Nothing happens in this pass, and the rest runs from the same pages.
        obtain ⟨demoted, unchanged⟩ := round_idle (alone input (.head _)) none
        have kept : (worker.round input).2.Accounted n :=
          accounted.round (by rw [PrefillWorker.round, if_pos none])
        obtain ⟨now, later, extendable⟩ := ih kept input.now (fun other member => alone other (.tail _ member))
          sorted passed
        rw [unchanged] at extendable
        exact ⟨now, soon.trans later, extendable⟩
      · exact ⟨input.now, soon, (accounted.resolved_iff (alone input (.head _))).mp none⟩
  · rintro ⟨now, later, extendable⟩
    let last : PrefillRound := ⟨[], now, fun _ => .ok ⟨0, []⟩, now, true⟩
    refine ⟨[], last, by simp [last], by simpa [last] using later, ?_⟩
    have alone : last.jobs = [] := rfl
    have work := (accounted.resolved_iff alone).mpr extendable
    change (worker.round last).1.passed ≠ []
    rw [PrefillWorker.round, if_neg work]
    exact work

end PrefillWorker

/-- The loop and whether it still runs. -/
structure PrefillLoop where
  worker : PrefillWorker
  running : Bool

namespace PrefillLoop

def step (s : PrefillLoop) (input : PrefillRound) : PrefillLoop :=
  ⟨(s.worker.round input).2, !(s.worker.round input).1.returned⟩

/-- The prefill worker of any pool and tuning, under any jobs, clock and engine. -/
def system (tuning : PrefillTuning) (numBlocks blockSize : ℕ) (watermark : ℚ) :
    Machine.System PrefillLoop PrefillRound :=
  .ofFun (fun s => s = ⟨.new tuning numBlocks blockSize watermark, true⟩) (fun s _ => s.running = true) step

variable {tuning : PrefillTuning} {numBlocks blockSize : ℕ} {watermark : ℚ}

theorem run_accounted {inputs : List PrefillRound} {s : PrefillLoop}
    (run : Machine.Run (system tuning numBlocks blockSize watermark) inputs s) :
    s.running = true → s.worker.Accounted numBlocks := by
  refine run.invariant (P := fun s => s.running = true → s.worker.Accounted numBlocks) ?_ ?_
  · rintro s rfl _
    exact PrefillWorker.accounted_new tuning numBlocks blockSize watermark
  · rintro s input t accounted ⟨running, rfl⟩ goes
    exact (accounted running).round (by simpa [step] using goes)

/-- In every state of the running loop there is a way on without new jobs exactly when at some later time the
request that leads the plan can get the pages of its next chunk. -/
theorem progress_iff_leader_fits (tuning : PrefillTuning) (numBlocks blockSize : ℕ) (watermark : ℚ)
    (inputs : List PrefillRound) (s : PrefillLoop)
    (run : Machine.Run (system tuning numBlocks blockSize watermark) inputs s) (running : s.running = true)
    (clock : Millis) : s.worker.Progresses clock ↔ ∃ now, clock ≤ now ∧ s.worker.Extendable now :=
  (run_accounted run running).progresses_iff clock

/-- By deadline alone, the same request leads at all times. -/
theorem leader_edf {sched : PrefillScheduler} (policy : sched.tuning.policy = .edf) (now : Millis) :
    sched.leader now = sched.leader 0 := by
  simp only [PrefillScheduler.leader, PrefillScheduler.candidates, policy, orderJobs]

/-- One pass that takes a four-token prompt and computes as much of it as one batch may hold. -/
def promptRound (id : RequestId) (deadlineMs : Millis) : PrefillRound :=
  ⟨[⟨id, [7, 7, 7, 7], deadlineMs, 0⟩], 0, fun _ => .ok ⟨1, []⟩, 1, true⟩

/-- Two pages of a prompt are computed, and there is room for its other two. -/
theorem progress_iff_leader_fits_half_done :
    (((⟨.new ⟨2, 1, .edf, true, 1, 0⟩ 4 1 0, true⟩ : PrefillLoop).step (promptRound 1 100)).worker).Progresses 0 := by
  have start : Machine.Run (system ⟨2, 1, .edf, true, 1, 0⟩ 4 1 0) []
      ⟨.new ⟨2, 1, .edf, true, 1, 0⟩ 4 1 0, true⟩ := .start rfl
  have run := start.apply (promptRound 1 100) rfl
  refine (progress_iff_leader_fits _ _ _ _ _ _ run (by decide +kernel) 0).mpr ⟨0, le_rfl, by decide +kernel,
    by decide +kernel, 1, ?_⟩
  exact ⟨⟨1, 0, 100, 4, 2⟩, by decide +kernel, by decide +kernel, by decide +kernel⟩

/-- A prompt with an earlier deadline overtakes a half-done one. Each holds half of the pool, each would fit
alone, and neither ever gets another page. -/
theorem overtaking_prompt_wedges_worker :
    ¬∀ (tuning : PrefillTuning) (numBlocks blockSize : ℕ) (watermark : ℚ) (inputs : List PrefillRound) (s : PrefillLoop),
      1 ≤ tuning.chunkTokens → 1 ≤ tuning.maxSeqs →
      Machine.Run (system tuning numBlocks blockSize watermark) inputs s → s.running = true →
      s.worker.sched.queue.entries ≠ [] →
      (∀ entry ∈ s.worker.sched.queue.entries,
        blocksFor entry.2.computeTokens s.worker.blockSize + s.worker.pool.reserve ≤ s.worker.pool.total) →
        ∀ clock, s.worker.Progresses clock := by
  intro always
  have start : Machine.Run (system ⟨2, 1, .edf, true, 1, 0⟩ 4 1 0) []
      ⟨.new ⟨2, 1, .edf, true, 1, 0⟩ 4 1 0, true⟩ := .start rfl
  have first := start.apply (promptRound 1 100) rfl
  have second := first.apply (promptRound 2 50) (by decide +kernel)
  have progresses := always _ _ _ _ _ _ (by decide) (by decide) second (by decide +kernel) (by decide +kernel)
    (by decide +kernel) 0
  obtain ⟨now, _, _, _, id, p, leads, found, fits⟩ :=
    ((run_accounted second (by decide +kernel)).progresses_iff 0).mp progresses
  rw [leader_edf (by decide +kernel)] at leads
  obtain rfl : id = 2 := Option.some.inj (leads.symm.trans (by decide +kernel))
  obtain rfl : p = ⟨2, 0, 50, 4, 2⟩ := Option.some.inj (found.symm.trans (by decide +kernel))
  revert fits
  decide +kernel

end PrefillLoop

end TrtLlm.Worker
