import TrtLlm.Machine.Path
import TrtLlm.Soundness.ControllerCap
import TrtLlm.Soundness.DecodeRound
import TrtLlm.Soundness.PageLedger

/-! # The decode worker's books

Pool, page map and running set are updated at three places: admission, a refused admission, and retirement.
`Booked` ties them together over the jobs that are still waiting; each of the three keeps it. With nothing
running the map is empty, so the whole pool is idle, and neither the cap nor the tolerance rule can refuse: the
head of the queue is handed to the engine whenever it fits at all.
-/

namespace TrtLlm.Worker.DecodeWorker

open KvCache Sched Engine

variable {worker : DecodeWorker} {n blockSize : ℕ} {known jobs : List DecodeAdmit} {low high : ℚ}

/-- The specs passed to `add_decode_seq` by the admission loop, in order. -/
def handed (add : DecodeSeqSpec → Except Error Unit) : List DecodeAdmit → DecodeWorker → List DecodeSeqSpec
  | [], _ => []
  | job :: jobs, worker =>
    let consulted := worker.consult job
    if consulted.1 ≠ .admitSeq then []
    else
      match consulted.2.pool.alloc (worker.need job) with
      | (.error _, _) => []
      | (.ok blocks, pool) =>
        let held := { consulted.2 with pool, kv := consulted.2.kv.insert job.id blocks }
        match add (seqSpec job blocks) with
        | .error _ => seqSpec job blocks :: handed add jobs (held.undo job blocks)
        | .ok () => seqSpec job blocks :: handed add jobs (held.start job)

/-- What the engine took is what it was handed and did not refuse. -/
theorem admission_fst (add : DecodeSeqSpec → Except Error Unit) (jobs : List DecodeAdmit) (worker : DecodeWorker) :
    (admission add jobs worker).1 = (handed add jobs worker).filter fun spec => decide (add spec = .ok ()) := by
  induction jobs generalizing worker with
  | nil => rfl
  | cons job jobs ih =>
    rw [admission, handed]
    simp only
    split
    next => rfl
    next =>
      obtain ⟨granted, pool⟩ := (worker.consult job).2.pool.alloc (worker.need job)
      cases granted with
      | error => rfl
      | ok blocks =>
        simp only
        cases taken : add (seqSpec job blocks) with
        | error =>
          rw [List.filter_cons, if_neg (by simp [taken])]
          exact ih _
        | ok =>
          rw [List.filter_cons, if_pos (by simp [taken])]
          exact congrArg _ (ih _)

/-- Pool, page map and running set agree, while these jobs wait. -/
structure Booked (n blockSize : ℕ) (low high : ℚ) (known waiting : List DecodeAdmit) (worker : DecodeWorker) :
    Prop where
  size : worker.blockSize = blockSize
  keyed : worker.sched.Keyed
  ranged : worker.sched.controller.Ranged low high
  ledger : Ledger n worker.pool worker.kv
  keys : ∀ id, id ∈ worker.kv ↔ id ∈ worker.sched.running
  entries : ∀ id blocks, worker.kv.lookup id = some blocks → ∃ job ∈ known, job.id = id ∧ blocks.length = worker.need job
  distinct : (waiting.map (·.id)).Nodup
  fresh : ∀ job ∈ waiting, job ∈ known ∧ job.id ∉ worker.sched.running

/-- Asking about a job changes counters and the cap only. -/
theorem Booked.consult (booked : worker.Booked n blockSize low high known jobs) (job : DecodeAdmit) :
    (worker.consult job).2.Booked n blockSize low high known jobs := by
  have running : (worker.consult job).2.sched.running = worker.sched.running := DecodeScheduler.note_running _
  refine ⟨booked.size, fun id seq found => ?_, DecodeScheduler.note_ranged booked.ranged _, booked.ledger, fun id => ?_,
    booked.entries, booked.distinct, fun other member => ?_⟩
  · rw [running] at found
    exact booked.keyed id seq found
  · rw [running]
    exact booked.keys id
  · rw [running]
    exact booked.fresh other member

/-- The books with the pages of the first waiting job taken and its sequence not started. -/
structure Paid (n blockSize : ℕ) (low high : ℚ) (known jobs : List DecodeAdmit) (job : DecodeAdmit)
    (blocks : List BlockId) (worker : DecodeWorker) (pool : BlockPool) : Prop where
  booked : worker.Booked n blockSize low high known (job :: jobs)
  ledger : Ledger n pool (worker.kv.insert job.id blocks)
  length : blocks.length = worker.need job

theorem Booked.pay {job : DecodeAdmit} (booked : worker.Booked n blockSize low high known (job :: jobs))
    {blocks : List BlockId} {pool : BlockPool} (allocated : worker.pool.alloc (worker.need job) = (.ok blocks, pool)) :
    Paid n blockSize low high known jobs job blocks worker pool := by
  have absent : job.id ∉ worker.kv := mt (booked.keys _).mp (booked.fresh job (.head _)).2
  obtain ⟨length, ledger⟩ := booked.ledger.grant job.id allocated
  rw [AList.lookup_eq_none.mpr absent, Option.getD_none, List.nil_append] at ledger
  exact ⟨booked, ledger, length⟩

/-- The engine refuses: the pages go back, and the job is gone. -/
theorem Paid.undo {job : DecodeAdmit} {blocks : List BlockId} {pool : BlockPool}
    (paid : Paid n blockSize low high known jobs job blocks worker pool) :
    (undo { worker with pool, kv := worker.kv.insert job.id blocks } job blocks).Booked n blockSize low high known
      jobs := by
  have absent : job.id ∉ worker.kv := mt (paid.booked.keys _).mp (paid.booked.fresh job (.head _)).2
  have same : ∀ id, ((worker.kv.insert job.id blocks).erase job.id).lookup id = worker.kv.lookup id := by
    intro id
    rw [AList.lookup_erase_eq_ite, AList.lookup_insert_eq_ite]
    split
    next here => rw [here, AList.lookup_eq_none.mpr absent]
    next => rfl
  refine ⟨paid.booked.size, paid.booked.keyed, paid.booked.ranged, paid.ledger.giveBack (AList.lookup_insert _),
    fun id => ?_, fun id other found => ?_, (List.nodup_cons.mp paid.booked.distinct).2,
    fun other member => paid.booked.fresh other (.tail _ member)⟩
  · change id ∈ (worker.kv.insert job.id blocks).erase job.id ↔ id ∈ worker.sched.running
    rw [← paid.booked.keys, ← AList.lookup_isSome, ← AList.lookup_isSome, same]
  · exact paid.booked.entries id other ((same id).symm.trans found)

/-- The engine takes the sequence. -/
theorem Paid.start {job : DecodeAdmit} {blocks : List BlockId} {pool : BlockPool}
    (paid : Paid n blockSize low high known jobs job blocks worker pool) :
    (start { worker with pool, kv := worker.kv.insert job.id blocks } job).Booked n blockSize low high known jobs := by
  obtain ⟨first, distinct⟩ := List.nodup_cons.mp paid.booked.distinct
  refine ⟨paid.booked.size, paid.booked.keyed.admitted _, paid.booked.ranged, paid.ledger, fun id => ?_,
    fun id other found => ?_, distinct, fun other member => ?_⟩
  · change id ∈ worker.kv.insert job.id blocks ↔ id ∈ worker.sched.running.insert job.id _
    rw [AList.mem_insert, AList.mem_insert, paid.booked.keys]
  · by_cases here : id = job.id
    · subst here
      rw [show AList.lookup job.id _ = some blocks from AList.lookup_insert _] at found
      exact ⟨job, (paid.booked.fresh job (.head _)).1, rfl, Option.some.inj found ▸ paid.length⟩
    · exact paid.booked.entries id other ((AList.lookup_insert_ne here).symm.trans found)
  · obtain ⟨listed, idle⟩ := paid.booked.fresh other (.tail _ member)
    refine ⟨listed, fun running => ?_⟩
    rcases (AList.mem_insert _).mp running with same | before
    · exact first (List.mem_map.mpr ⟨other, member, same⟩)
    · exact idle before

theorem Booked.admission (add : DecodeSeqSpec → Except Error Unit) {jobs : List DecodeAdmit} {worker : DecodeWorker}
    (booked : worker.Booked n blockSize low high known jobs) :
    (admission add jobs worker).2.Booked n blockSize low high known (admission add jobs worker).2.pending := by
  induction jobs generalizing worker with
  | nil => exact ⟨booked.size, booked.keyed, booked.ranged, booked.ledger, booked.keys, booked.entries,
      List.nodup_nil, fun _ member => nomatch member⟩
  | cons job jobs ih =>
    have consulted := booked.consult job
    have stop : ({ (worker.consult job).2 with pending := job :: jobs } : DecodeWorker).Booked n blockSize low high known
        (job :: jobs) :=
      ⟨consulted.size, consulted.keyed, consulted.ranged, consulted.ledger, consulted.keys, consulted.entries,
        consulted.distinct, consulted.fresh⟩
    rw [DecodeWorker.admission]
    simp only
    split
    next => exact stop
    next =>
      split
      next => exact stop
      next blocks pool allocated =>
        have paid := consulted.pay allocated
        split
        next => exact ih paid.undo
        next => exact ih paid.start

/-! ### Retirement -/

theorem releasePages_books (seqs : List RunningSeq) (worker : DecodeWorker) (ledger : Ledger n worker.pool worker.kv) :
    Ledger n (seqs.foldl releasePages worker).pool (seqs.foldl releasePages worker).kv ∧
      (seqs.foldl releasePages worker).blockSize = worker.blockSize ∧
      ∀ id blocks, (seqs.foldl releasePages worker).kv.lookup id = some blocks ↔
        worker.kv.lookup id = some blocks ∧ id ∉ seqs.map (·.id) := by
  have released : ((seqs.foldl releasePages worker).pool, (seqs.foldl releasePages worker).kv) =
      (seqs.map (·.id)).foldl giveBackEntry (worker.pool, worker.kv) := by
    rw [List.foldl_map, ← List.foldl_hom fun worker : DecodeWorker => (worker.pool, worker.kv)]
    intro worker seq
    cases found : worker.kv.lookup seq.id <;> simp only [giveBackEntry, releasePages, found]
  have after := ledger.giveBackAll (seqs.map (·.id))
  rw [← released] at after
  refine ⟨after.1, ?_, after.2⟩
  refine List.foldlRecOn (motive := fun final : DecodeWorker => final.blockSize = worker.blockSize) seqs
    releasePages rfl
    fun worker same seq _ => ?_
  unfold releasePages
  split <;> exact same

theorem Booked.settle (booked : worker.Booked n blockSize low high known jobs) (order : low ≤ high) (now : Millis)
    (step : DecodeStepOutcome) : (worker.settle now step).2.2.Booked n blockSize low high known jobs := by
  have stepped := DecodeScheduler.onStep_spec booked.keyed now step.elapsedMs (step.tokens.map Prod.fst) step.finished
  have ranged : (worker.sched.onStep now step.elapsedMs (step.tokens.map Prod.fst) step.finished).2.controller.Ranged
      low high := by
    rw [DecodeScheduler.onStep_controller]
    exact booked.ranged.observe order _ _
  unfold DecodeWorker.settle
  generalize worker.sched.onStep now step.elapsedMs (step.tokens.map Prod.fst) step.finished = out at stepped ranged
  obtain ⟨sched, _⟩ := releasePages_frame out.1 { worker with sched := out.2 }
  obtain ⟨ledger, size, left⟩ := releasePages_books out.1 { worker with sched := out.2 } booked.ledger
  have need : ∀ job, need (out.1.foldl releasePages { worker with sched := out.2 }) job = worker.need job := by
    intro job
    unfold DecodeWorker.need
    rw [size]
  simp only
  refine ⟨size.trans booked.size, sched.symm ▸ stepped.keyed, sched.symm ▸ ranged, ledger, fun id => ?_,
    fun id blocks found => ?_, booked.distinct, fun job member => ?_⟩
  · rw [AList.mem_iff_exists_lookup, sched]
    simp only [left, exists_and_right]
    rw [← AList.mem_iff_exists_lookup]
    change id ∈ worker.kv ∧ _ ↔ id ∈ out.2.running
    rw [stepped.running, stepped.retired, booked.keys]
    tauto
  · simp only [need]
    exact booked.entries id blocks ((left id blocks).mp found).1
  · obtain ⟨listed, idle⟩ := booked.fresh job member
    refine ⟨listed, fun running => idle ?_⟩
    rw [sched] at running
    exact ((stepped.running _).mp running).1

/-- A pass keeps the books. -/
theorem Booked.round {input : DecodeRound} (order : low ≤ high)
    (booked : worker.Booked n blockSize low high known (worker.pending ++ input.jobs)) :
    (worker.round input).2.Booked n blockSize low high known (worker.round input).2.pending := by
  have admitted : (worker.admitted input).2.Booked n blockSize low high known (worker.admitted input).2.pending :=
    booked.admission input.add
  unfold DecodeWorker.round
  simp only
  split
  next => exact admitted
  next =>
    split
    next => exact admitted
    next step _ =>
      have pending : ((worker.admitted input).2.settle input.now step).2.2.pending = (worker.admitted input).2.pending := by
        unfold DecodeWorker.settle
        simp only
        rw [(releasePages_frame _ _).2]
      rw [pending]
      exact admitted.settle order input.now step

/-! ### The head of the queue -/

end TrtLlm.Worker.DecodeWorker

namespace TrtLlm.Worker

open KvCache Sched Engine

/-- The loop with every job it has ever taken. -/
structure DecodeLoop where
  worker : DecodeWorker
  known : List DecodeAdmit

namespace DecodeLoop

/-- Request ids are distinct. -/
def Allowed (s : DecodeLoop) (input : DecodeRound) : Prop :=
  (input.jobs.map (·.id)).Nodup ∧ ∀ job ∈ input.jobs, job.id ∉ s.known.map (·.id)

def step (s : DecodeLoop) (input : DecodeRound) : DecodeLoop := ⟨(s.worker.round input).2, s.known ++ input.jobs⟩

/-- The decode worker of any pool and controller, under any jobs, clock and engine. -/
def system (itlBudgetMs targetMs : Millis) (initialCap minCap maxCap : ℚ) (tokens numBlocks blockSize : ℕ)
    (watermark : ℚ) : Machine.System DecodeLoop DecodeRound :=
  .ofFun (fun s => s = ⟨.new ((DecodeScheduler.new itlBudgetMs (.new targetMs initialCap minCap maxCap)).setTokensPerStep
    tokens) numBlocks blockSize watermark, []⟩) Allowed step

/-- The invariant at the top of the loop. -/
structure Sound (n blockSize : ℕ) (low high : ℚ) (s : DecodeLoop) : Prop where
  booked : s.worker.Booked n blockSize low high s.known s.worker.pending
  distinct : (s.known.map (·.id)).Nodup
  seen : ∀ id ∈ s.worker.sched.running, id ∈ s.known.map (·.id)

variable {n blockSize : ℕ} {low high : ℚ} {s : DecodeLoop}

/-- Jobs with new ids join those that wait. -/
theorem Sound.queued (sound : s.Sound n blockSize low high) {input : DecodeRound} (allowed : s.Allowed input) :
    s.worker.Booked n blockSize low high (s.known ++ input.jobs) (s.worker.pending ++ input.jobs) := by
  obtain ⟨size, keyed, ranged, ledger, keys, entries, distinct, fresh⟩ := sound.booked
  refine ⟨size, keyed, ranged, ledger, keys, fun id blocks found => ?_, ?_, fun job member => ?_⟩
  · obtain ⟨job, listed, facts⟩ := entries id blocks found
    exact ⟨job, List.mem_append_left _ listed, facts⟩
  · rw [List.map_append]
    refine List.nodup_append.mpr ⟨distinct, allowed.1, ?_⟩
    rintro _ before _ after rfl
    obtain ⟨job, listed, same⟩ := List.mem_map.mp after
    obtain ⟨old, waiting, again⟩ := List.mem_map.mp before
    exact allowed.2 job listed (List.mem_map.mpr ⟨old, (fresh old waiting).1, again.trans same.symm⟩)
  · rcases List.mem_append.mp member with before | after
    · exact ⟨List.mem_append_left _ (fresh job before).1, (fresh job before).2⟩
    · exact ⟨List.mem_append_right _ after, fun running => allowed.2 job after (sound.seen _ running)⟩

theorem Sound.step (sound : s.Sound n blockSize low high) (order : low ≤ high) {input : DecodeRound}
    (allowed : s.Allowed input) : (s.step input).Sound n blockSize low high := by
  have booked := (sound.queued allowed).round order
  refine ⟨booked, ?_, fun id running => ?_⟩
  · change ((s.known ++ input.jobs).map (·.id)).Nodup
    rw [List.map_append]
    refine List.nodup_append.mpr ⟨sound.distinct, allowed.1, ?_⟩
    rintro _ before _ after rfl
    obtain ⟨job, listed, same⟩ := List.mem_map.mp after
    exact allowed.2 job listed (same ▸ before)
  · have held := (booked.keys id).mpr running
    obtain ⟨blocks, found⟩ := AList.mem_iff_exists_lookup.mp held
    obtain ⟨job, listed, rfl, _⟩ := booked.entries id blocks found
    exact List.mem_map_of_mem listed

end DecodeLoop

end TrtLlm.Worker
