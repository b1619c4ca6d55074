import Mathlib.Tactic.Linarith
import Mathlib.Tactic.Positivity
import TrtLlm.Machine.Horizon
import TrtLlm.Model.Sim.Report
import TrtLlm.Soundness.SimConservation

/-! # The virtual clock

No handler schedules anything in the past, so events are popped in order of time. Every event lowers a rank: a request
that has not arrived yet is worth everything it can still cause before the horizon, its prefill costs at most its
tokens, its transfer at most the decode steps it can wake, and the next request of its client comes a decode step later
at the earliest. The rank at the start bounds the number of events.
-/

namespace TrtLlm.Engine

/-- A batch takes no negative time on a worker with a positive rate and a duty cycle of at most one. -/
theorem PrefillCurve.batchMs_nonneg {cal : PrefillCalibration} {gpus tp : ℕ}
    (rate : 0 < (forWorker cal gpus tp).tokensPerMs) (duty : 0 < cal.dutyCycle ∧ cal.dutyCycle ≤ 1) (tokens seqs : ℕ) :
    0 ≤ (forWorker cal gpus tp).batchMs tokens seqs := by
  have idle : 0 ≤ 1 / cal.dutyCycle - 1 := by
    rw [sub_nonneg, le_div_iff₀ duty.1]
    linarith [duty.2]
  have overhead : 0 ≤ (forWorker cal gpus tp).overheadMs :=
    mul_nonneg (div_nonneg (by norm_num) rate.le) idle
  have speed : 0 ≤ (forWorker cal gpus tp).rateAt seqs := by
    have shared : (1 : ℚ) ≤ min ((max seqs 1 : ℕ) : ℚ) 5 :=
      le_min (by exact_mod_cast Nat.le_max_right seqs 1) (by norm_num)
    refine mul_nonneg rate.le ?_
    have frac : 0 ≤ (min ((max seqs 1 : ℕ) : ℚ) 5 - 1) / max (5 - 1) 1 := div_nonneg (by linarith) (by positivity)
    change 0 ≤ 1 + 116 / 1000 * ((min ((max seqs 1 : ℕ) : ℚ) 5 - 1) / max (5 - 1) 1)
    linarith
  unfold batchMs
  split
  · exact le_rfl
  · exact add_nonneg overhead (div_nonneg (Nat.cast_nonneg _) speed)

/-- A decode step takes at least the assumed single-sequence step. -/
theorem DecodeCurve.le_stepMs (cal : DecodeCalibration) (gpus concurrency : ℕ) :
    12 ≤ (fromCalibration cal gpus).stepMs concurrency := by
  have slope : 0 ≤ (fromCalibration cal gpus).slopeMs := le_max_right _ _
  change 12 ≤ 12 + (fromCalibration cal gpus).slopeMs * concurrency
  have growth : 0 ≤ (fromCalibration cal gpus).slopeMs * concurrency := mul_nonneg slope (Nat.cast_nonneg _)
  linarith

end TrtLlm.Engine

namespace TrtLlm.Sim

open Engine KvCache Routing Sched

/-- A configuration whose costs make sense: workers of each role, a prefill pool that makes progress, and a fabric. -/
structure Workable (cfg : Config) : Prop where
  prefills : 0 < cfg.topology.prefillWorkers
  decodes : 0 < cfg.topology.decodeWorkers
  rate : 0 < (prefillCurve cfg).tokensPerMs
  duty : 0 < cfg.calibration.prefill.dutyCycle ∧ cfg.calibration.prefill.dutyCycle ≤ 1
  bandwidth : 0 < cfg.calibration.kvXferGibS

theorem kvTransferMs_nonneg {cfg : Config} (workable : Workable cfg) : 0 ≤ kvTransferMs cfg := by
  have bandwidth := workable.bandwidth
  unfold kvTransferMs
  positivity

namespace Simulator

variable {cfg : Config}

/-- Decode steps that may still start before the horizon. -/
def ticks (cfg : Config) (time : Millis) : ℕ := Machine.ticksLeft 12 (horizonMs cfg) time

/-- What one request can cost: its arrival, its tokens, and a transfer that may wake a decode worker. -/
def lifeCost (cfg : Config) : ℕ := cfg.workload.isl + ticks cfg 0 + 2

/-- What an event is worth. -/
def weight (cfg : Config) (entry : Scheduled cfg.topology) : ℕ :=
  match entry.event with
  | .arrival _ => lifeCost cfg * ticks cfg entry.time
  | .prefillDone _ => 0
  | .kvArrived _ _ => ticks cfg 0 + 1
  | .decodeStep _ => ticks cfg entry.time

/-- What the queue of a prefill worker is worth. -/
def backlog (cfg : Config) (worker : PrefillWorkerSim) : ℕ :=
  worker.sched.queuedTokens + (ticks cfg 0 + 1) * worker.sched.queueDepth

/-- What the next request of a client is worth while the current one is live. -/
def nextLife (cfg : Config) (now : Millis) : ℕ := lifeCost cfg * (ticks cfg now - 1)

def rank (s : Simulator cfg) : ℕ :=
  (s.heap.map (weight cfg)).sum + s.reqs.entries.length * nextLife cfg s.now + (∑ w, backlog cfg (s.prefill w)) +
    (ticks cfg 0 + 1) * s.xferQueue.length

theorem rank_push (s : Simulator cfg) (time : Millis) (event : Event cfg.topology) :
    (s.push time event).rank = s.rank + weight cfg ⟨time, s.seq + 1, event⟩ := by
  unfold rank
  change ((⟨time, s.seq + 1, event⟩ :: s.heap).map (weight cfg)).sum + _ + _ + _ = _
  rw [List.map_cons, List.sum_cons]
  change _ + s.reqs.entries.length * nextLife cfg s.now + (∑ w, backlog cfg (s.prefill w)) +
    (ticks cfg 0 + 1) * s.xferQueue.length = _
  omega

theorem rank_setPrefill (s : Simulator cfg) (w : Fin cfg.topology.prefillWorkers) (worker : PrefillWorkerSim) :
    (s.setPrefill w worker).rank + backlog cfg (s.prefill w) = s.rank + backlog cfg worker := by
  have total := Finset.sum_update_add (backlog cfg) s.prefill w worker
  unfold rank
  change (s.heap.map (weight cfg)).sum + s.reqs.entries.length * nextLife cfg s.now +
    (∑ v, backlog cfg (Function.update s.prefill w worker v)) + (ticks cfg 0 + 1) * s.xferQueue.length + _ = _
  omega

theorem ticks_pos {time : Millis} (inside : time ≤ horizonMs cfg) : 0 < ticks cfg time := Machine.ticksLeft_pos inside

theorem ticks_anti {early late : Millis} (order : early ≤ late) : ticks cfg late ≤ ticks cfg early :=
  Machine.ticksLeft_anti (by norm_num) order

theorem ticks_step {early late : Millis} (inside : early ≤ horizonMs cfg) (apart : early + 12 ≤ late) :
    ticks cfg late + 1 ≤ ticks cfg early :=
  Machine.ticksLeft_step (by norm_num) inside apart

/-! ### What a handler adds -/

/-- A change of state in which no event is scheduled in the past and the rank grows by at most `gain - loss`. -/
structure Moves (gain loss : ℕ) (s out : Simulator cfg) : Prop where
  now : out.now = s.now
  pushed : ∃ pushed, out.heap = pushed ++ s.heap ∧ ∀ entry ∈ pushed, s.now ≤ entry.time
  prefillCurve : ∀ w, (out.prefill w).curve = (s.prefill w).curve
  decodeCurve : ∀ w, (out.decode w).curve = (s.decode w).curve
  rank : out.rank + loss ≤ s.rank + gain

theorem Moves.trans {gain loss gain' loss' : ℕ} {s t u : Simulator cfg} (first : Moves gain loss s t)
    (second : Moves gain' loss' t u) : Moves (gain + gain') (loss + loss') s u := by
  obtain ⟨early, earlyHeap, earlyTimes⟩ := first.pushed
  obtain ⟨late, lateHeap, lateTimes⟩ := second.pushed
  refine ⟨second.now.trans first.now, ⟨late ++ early, ?_, fun entry member => ?_⟩,
    fun w => (second.prefillCurve w).trans (first.prefillCurve w),
    fun w => (second.decodeCurve w).trans (first.decodeCurve w), ?_⟩
  · rw [lateHeap, earlyHeap, List.append_assoc]
  · rcases List.mem_append.mp member with here | there
    · exact first.now ▸ lateTimes entry here
    · exact earlyTimes entry there
  · have before := first.rank
    have after := second.rank
    omega

theorem Moves.mono {gain loss gain' loss' : ℕ} {s out : Simulator cfg} (moves : Moves gain loss s out)
    (balance : gain + loss' ≤ gain' + loss) : Moves gain' loss' s out := by
  refine ⟨moves.now, moves.pushed, moves.prefillCurve, moves.decodeCurve, ?_⟩
  have bound := moves.rank
  omega

/-- The curves a simulation was set up with. -/
structure Costed (s : Simulator cfg) : Prop where
  prefill : ∀ w, (s.prefill w).curve = prefillCurve cfg
  decode : ∀ w, (s.decode w).curve = decodeCurve cfg

theorem Moves.costed {gain loss : ℕ} {s out : Simulator cfg} (moves : Moves gain loss s out) (costed : s.Costed) :
    out.Costed :=
  ⟨fun w => (moves.prefillCurve w).trans (costed.prefill w), fun w => (moves.decodeCurve w).trans (costed.decode w)⟩

variable {s : Simulator cfg}

/-- Replacing the scheduler state of one prefill worker. -/
theorem moves_setPrefill (w : Fin cfg.topology.prefillWorkers) {worker : PrefillWorkerSim} {gain loss : ℕ}
    (curve : worker.curve = (s.prefill w).curve)
    (work : backlog cfg worker + loss ≤ backlog cfg (s.prefill w) + gain) :
    Moves gain loss s (s.setPrefill w worker) := by
  refine ⟨rfl, ⟨[], rfl, by simp⟩, ?_, fun _ => rfl, ?_⟩
  · exact forall_setPrefill (P := fun v worker => worker.curve = (s.prefill v).curve) w curve fun _ _ => rfl
  · have total := s.rank_setPrefill w worker
    omega

theorem moves_push {time : Millis} (event : Event cfg.topology) {gain : ℕ} (future : s.now ≤ time)
    (worth : weight cfg ⟨time, s.seq + 1, event⟩ ≤ gain) : Moves gain 0 s (s.push time event) := by
  refine ⟨rfl, ⟨[⟨time, s.seq + 1, event⟩], rfl, fun entry member => ?_⟩, fun _ => rfl, fun _ => rfl, ?_⟩
  · rw [List.mem_singleton.mp member]
    exact future
  · rw [s.rank_push]
    omega

theorem moves_refl (s : Simulator cfg) : Moves 0 0 s s :=
  ⟨rfl, ⟨[], rfl, by simp⟩, fun _ => rfl, fun _ => rfl, le_rfl⟩

theorem moves_setDecode (w : Fin cfg.topology.decodeWorkers) {worker : DecodeWorkerSim}
    (curve : worker.curve = (s.decode w).curve) : Moves 0 0 s (s.setDecode w worker) := by
  refine ⟨rfl, ⟨[], rfl, by simp⟩, fun _ => rfl, ?_, le_rfl⟩
  exact forall_setDecode (P := fun v worker => worker.curve = (s.decode v).curve) w curve fun _ _ => rfl

theorem moves_tryStartPrefill (workable : Workable cfg) (costed : s.Costed) (w : Fin cfg.topology.prefillWorkers) :
    Moves 0 0 s (s.tryStartPrefill w) := by
  have queue := (s.prefill w).sched.plan_queue s.now
  unfold tryStartPrefill
  simp only
  generalize (s.prefill w).sched.plan s.now = planned at queue
  obtain ⟨batch, sched⟩ := planned
  have same : ∀ worker : PrefillWorkerSim, worker.sched = sched → backlog cfg worker = backlog cfg (s.prefill w) := by
    intro worker here
    unfold backlog PrefillScheduler.queuedTokens PrefillScheduler.queueDepth
    rw [here, queue]
  split
  next => exact moves_refl s
  next =>
    split
    next =>
      have kept := same { s.prefill w with sched } rfl
      exact moves_setPrefill w rfl (Nat.add_le_add_right kept.le 0)
    next =>
      have counted : Moves 0 0 s (s.countBatch batch sched) :=
        ⟨rfl, ⟨[], rfl, by simp⟩, fun _ => rfl, fun _ => rfl, le_rfl⟩
      have takes : 0 ≤ (s.prefill w).curve.batchMs batch.totalTokens batch.chunks.length := by
        rw [costed.prefill w]
        exact PrefillCurve.batchMs_nonneg workable.rate workable.duty _ _
      let ms := (s.prefill w).curve.batchMs batch.totalTokens batch.chunks.length
      let busy : PrefillWorkerSim :=
        { s.prefill w with
          sched, busy := true, batch := some (batch, s.now)
          busyMs := (s.prefill w).busyMs + min ms (max (horizonMs cfg - s.now) 0) }
      have kept : backlog cfg busy + 0 ≤ backlog cfg (s.prefill w) + 0 := (same busy rfl).le
      have charged : Moves 0 0 (s.countBatch batch sched) ((s.countBatch batch sched).setPrefill w busy) :=
        moves_setPrefill w rfl kept
      exact (counted.trans charged).trans (moves_push (.prefillDone w) (le_add_of_nonneg_right takes) le_rfl)

theorem moves_drain (workable : Workable cfg) (s : Simulator cfg) : Moves 0 0 s s.drainXferQueue := by
  obtain ⟨started, rest, state, kinds, moved, length, -, -⟩ := drain_spec s
  have worth : ((started.map (weight cfg))).sum = started.length * (ticks cfg 0 + 1) := by
    have each : ∀ worth ∈ started.map (weight cfg), worth = ticks cfg 0 + 1 := by
      intro worth member
      obtain ⟨entry, listed, rfl⟩ := List.mem_map.mp member
      obtain ⟨-, id, w, kind⟩ := kinds entry listed
      rw [weight, kind]
    rw [List.sum_eq_card_nsmul _ _ each, List.length_map, nsmul_eq_mul, Nat.cast_id]
  have sizes := moved.length_eq
  rw [List.length_append, length, List.length_map, List.length_map] at sizes
  rw [state]
  refine ⟨rfl, ⟨started, rfl, fun entry member => ?_⟩, fun _ => rfl, fun _ => rfl, ?_⟩
  · rw [(kinds entry member).1]
    exact le_add_of_nonneg_right (kvTransferMs_nonneg workable)
  · unfold rank
    simp only [List.map_append, List.sum_append, worth, sizes]
    have spread : (ticks cfg 0 + 1) * (started.length + rest.length) =
        started.length * (ticks cfg 0 + 1) + (ticks cfg 0 + 1) * rest.length := by ring
    omega

/-- An accepted request is worth its tokens, its transfer and the next request of its client. -/
theorem moves_accept {client : ℕ} (ledger : Ledger (.arrival client :: s.events) s) (registry : WorkerRegistry)
    (pw : Fin cfg.topology.prefillWorkers) (dw : Fin cfg.topology.decodeWorkers) (hit : ℕ) :
    Moves (nextLife cfg s.now + (cfg.workload.isl + ticks cfg 0 + 1)) 0 s
      (({ s with nextId := s.nextId + 1, issued := s.issued + 1, router := { s.router with registry } } :
        Simulator cfg).accept client s.nextId pw dw hit) := by
  have unknown : s.nextId ∉ s.reqs := fun known => lt_irrefl _ (ledger.fresh _ known)
  have unqueued : s.nextId ∉ (s.prefill pw).sched.queue := ledger.unqueued unknown pw
  let request : PendingPrefill := ⟨s.nextId, s.now, s.now + cfg.slo.ttftMs, cfg.workload.isl - hit, 0⟩
  let worker : PrefillWorkerSim := { s.prefill pw with sched := (s.prefill pw).sched.enqueue request }
  have tokens : worker.sched.queuedTokens ≤ (s.prefill pw).sched.queuedTokens + cfg.workload.isl := by
    change ((s.prefill pw).sched.queue.insert s.nextId request).sum (fun _ p => p.remaining) ≤ _
    rw [AList.sum_insert_of_notMem _ unqueued]
    have short : request.remaining ≤ cfg.workload.isl := by
      change cfg.workload.isl - hit - 0 ≤ cfg.workload.isl
      omega
    change request.remaining + (s.prefill pw).sched.queuedTokens ≤ _
    omega
  have depth : worker.sched.queueDepth = (s.prefill pw).sched.queueDepth + 1 :=
    AList.length_insert_of_notMem unqueued request
  have work : backlog cfg worker ≤ backlog cfg (s.prefill pw) + (cfg.workload.isl + ticks cfg 0 + 1) := by
    unfold backlog
    rw [depth, Nat.mul_succ]
    omega
  let listed : Simulator cfg :=
    { s with reqs := s.reqs.insert s.nextId ⟨client, s.now, cfg.workload.isl, cfg.workload.osl, dw, none, s.now⟩ }
  have joined : Moves (nextLife cfg s.now) 0 s listed := by
    refine ⟨rfl, ⟨[], rfl, by simp⟩, fun _ => rfl, fun _ => rfl, ?_⟩
    unfold rank
    change _ + (s.reqs.insert s.nextId _).entries.length * nextLife cfg s.now + _ + _ + 0 ≤ _
    rw [AList.length_insert_of_notMem unknown, Nat.succ_mul]
    change (s.heap.map (weight cfg)).sum + (s.reqs.entries.length * nextLife cfg s.now + nextLife cfg s.now) +
      (∑ w, backlog cfg (s.prefill w)) + (ticks cfg 0 + 1) * s.xferQueue.length + 0 ≤ _
    omega
  have entered : Moves (cfg.workload.isl + ticks cfg 0 + 1) 0 listed (listed.setPrefill pw worker) :=
    moves_setPrefill pw rfl work
  have queued := joined.trans entered
  unfold accept
  simp only
  split
  · exact ⟨queued.now, queued.pushed, queued.prefillCurve, queued.decodeCurve, queued.rank⟩
  · exact ⟨queued.now, queued.pushed, queued.prefillCurve, queued.decodeCurve, queued.rank⟩

/-! ### Every event lowers the rank -/

/-- The prompts that finished wait for a transfer now, and the batch used tokens up. -/
theorem moves_prefillDone (workable : Workable cfg) (costed : s.Costed) {w : Fin cfg.topology.prefillWorkers}
    (ledger : Ledger (.prefillDone w :: s.events) s) : ∃ out, s.onPrefillDone w = some out ∧ Moves 0 1 s out := by
  obtain ⟨finished, worker, jobs, reqs, curve, fewer, left, ids, size, -, done⟩ := ledger.prefillDone
  have depth : worker.sched.queueDepth + jobs.length = (s.prefill w).sched.queueDepth := by
    have moved : (worker.sched.queue.keys ++ finished).Perm (s.prefill w).sched.queue.keys :=
      List.perm_iff_count.mpr fun id => by rw [List.count_append]; exact left id
    have sizes := moved.length_eq
    rw [List.length_append, ← ids, List.length_map] at sizes
    rw [PrefillScheduler.queueDepth, PrefillScheduler.queueDepth, ← List.length_map (f := Sigma.fst),
      ← List.length_map (f := Sigma.fst)]
    exact sizes
  have work : backlog cfg worker + ((ticks cfg 0 + 1) * jobs.length + 1) ≤ backlog cfg (s.prefill w) + 0 := by
    unfold backlog
    rw [← depth, Nat.mul_add]
    omega
  let handed : Simulator cfg := { s.setPrefill w worker with reqs, xferQueue := s.xferQueue ++ jobs }
  have shrunk : Moves 0 ((ticks cfg 0 + 1) * jobs.length + 1) s (s.setPrefill w worker) :=
    moves_setPrefill w curve work
  have waiting : Moves ((ticks cfg 0 + 1) * jobs.length) 0 (s.setPrefill w worker) handed := by
    refine ⟨rfl, ⟨[], rfl, by simp⟩, fun _ => rfl, fun _ => rfl, ?_⟩
    have spread : (ticks cfg 0 + 1) * (s.xferQueue ++ jobs).length =
        (ticks cfg 0 + 1) * s.xferQueue.length + (ticks cfg 0 + 1) * jobs.length := by
      rw [List.length_append, Nat.mul_add]
    unfold rank
    change (s.heap.map (weight cfg)).sum + reqs.entries.length * nextLife cfg s.now +
      (∑ v, backlog cfg ((s.setPrefill w worker).prefill v)) + (ticks cfg 0 + 1) * (s.xferQueue ++ jobs).length + 0 ≤
        (s.heap.map (weight cfg)).sum + s.reqs.entries.length * nextLife cfg s.now +
          (∑ v, backlog cfg ((s.setPrefill w worker).prefill v)) + (ticks cfg 0 + 1) * s.xferQueue.length + _
    rw [size, spread]
    omega
  have drained := (shrunk.trans waiting).trans (moves_drain workable handed)
  have started := drained.trans (moves_tryStartPrefill workable (drained.costed costed) w)
  exact ⟨_, done, started.mono (by omega)⟩

/-- A transfer that ends wakes its worker at most. -/
theorem moves_kvArrived (workable : Workable cfg) (nonneg : 0 ≤ s.now) (id : RequestId)
    (w : Fin cfg.topology.decodeWorkers) : Moves (ticks cfg 0) 0 s (s.onKvArrived id w) := by
  let freed : Simulator cfg := { s with xferBusy := s.xferBusy - 1 }
  have released : Moves 0 0 s freed := ⟨rfl, ⟨[], rfl, by simp⟩, fun _ => rfl, fun _ => rfl, le_rfl⟩
  have drained := released.trans (moves_drain workable freed)
  let worker : DecodeWorkerSim :=
    { freed.drainXferQueue.decode w with
      pending := (freed.drainXferQueue.decode w).pending ++ [id], stepping := true }
  have landed := drained.trans (moves_setDecode (s := freed.drainXferQueue) w (rfl : worker.curve = _))
  unfold onKvArrived
  simp only
  split
  next => exact landed.mono (Nat.zero_le _)
  next =>
    have woken := landed.trans (moves_push (.decodeStep w) landed.now.le (ticks_anti nonneg))
    exact woken.mono (by omega)

theorem Passed.moves {w : Fin cfg.topology.decodeWorkers} {worker : DecodeWorkerSim} {time : Millis}
    {done : List RunningSeq} {sched : DecodeScheduler} {reqs : HashMap RequestId (ReqState cfg.topology)}
    {held : HashMap RequestId ℕ} {free : ℕ} {released : List (Scheduled cfg.topology)} {out : Simulator cfg}
    (passed : Passed s w worker time done sched reqs held free released out) (inside : s.now ≤ horizonMs cfg)
    (apart : s.now + 12 ≤ time) (curve : worker.curve = (s.decode w).curve) : Moves (ticks cfg s.now) 1 s out := by
  have tick := ticks_step inside apart
  have future : s.now ≤ time := le_trans (by linarith) apart
  have worth : (released.map (weight cfg)).sum ≤ released.length * nextLife cfg s.now := by
    have each : ∀ worth ∈ released.map (weight cfg), worth ≤ nextLife cfg s.now := by
      intro worth member
      obtain ⟨entry, listed, rfl⟩ := List.mem_map.mp member
      obtain ⟨atTime, client, kind⟩ := passed.arrivals entry listed
      rw [weight, kind, atTime]
      exact Nat.mul_le_mul_left _ (Nat.le_sub_one_of_lt tick)
    have total := List.sum_le_card_nsmul _ _ each
    rwa [List.length_map, nsmul_eq_mul, Nat.cast_id] at total
  have fewer : s.reqs.entries.length * nextLife cfg s.now =
      released.length * nextLife cfg s.now + reqs.entries.length * nextLife cfg s.now := by
    rw [← passed.clients, Nat.add_mul]
  rw [passed.state]
  refine ⟨rfl, ⟨⟨time, s.seq + released.length + 1, .decodeStep w⟩ :: released, rfl, fun entry member => ?_⟩,
    fun _ => rfl, ?_, ?_⟩
  · rcases List.mem_cons.mp member with rfl | listed
    · exact future
    · exact future.trans (passed.arrivals entry listed).1.ge
  · exact forall_setDecode (P := fun v worker => worker.curve = (s.decode v).curve) w curve fun _ _ => rfl
  · unfold rank
    simp only [List.map_cons, List.map_append, List.sum_cons, List.sum_append]
    change ticks cfg time + ((released.map (weight cfg)).sum + (s.heap.map (weight cfg)).sum) +
      reqs.entries.length * nextLife cfg s.now + _ + _ + 1 ≤ _
    omega

/-- A decode step uses a tick up. The clients it releases come back a tick later. -/
theorem moves_decodeStep (orders : EventOrders) (costed : s.Costed) {w : Fin cfg.topology.decodeWorkers}
    (inside : s.now ≤ horizonMs cfg) (ledger : Ledger (.decodeStep w :: s.events) s) :
    ∃ out, s.onDecodeStep orders w = some out ∧ Moves (ticks cfg s.now) 1 s out := by
  obtain ⟨worker, admitted, -, -, -, -, curve⟩ := ledger.admitted orders
  have left := ticks_pos inside
  have later : ∀ concurrency, s.now + 12 ≤ s.now + worker.curve.stepMs concurrency := by
    intro concurrency
    rw [curve, costed.decode w]
    have step := DecodeCurve.le_stepMs cfg.calibration.decode cfg.topology.decodeTp concurrency
    exact add_le_add_right step s.now
  rw [onDecodeStep, admitted]
  simp only
  split
  next =>
    split
    next =>
      have rested : Moves 0 0 s (s.setDecode w { worker with stepping := false }) := moves_setDecode w curve
      exact ⟨_, rfl, rested.mono (by omega)⟩
    next =>
      have tick := ticks_step inside (later 1)
      have future : s.now ≤ s.now + worker.curve.stepMs 1 := le_trans (by linarith) (later 1)
      have kept : Moves 0 0 s (s.setDecode w worker) := moves_setDecode w curve
      have again := kept.trans (moves_push (.decodeStep w) future (Nat.le_sub_one_of_lt tick))
      exact ⟨_, rfl, again.mono (by omega)⟩
  next =>
    generalize stepped : worker.sched.onStepSyntheticIn orders.step
      (s.now + worker.curve.stepMs worker.sched.concurrency) (worker.curve.stepMs worker.sched.concurrency) = result
    obtain ⟨done, sched⟩ := result
    obtain ⟨reqs, held, free, released, passed⟩ := forwardPass_spec orders s w worker rfl stepped
    refine ⟨_, rfl, ?_⟩
    have apart := later worker.sched.concurrency
    generalize s.now + worker.curve.stepMs worker.sched.concurrency = time at passed apart
    exact passed.moves inside apart curve

/-- Handling an event costs at least one more than it brings. -/
theorem moves_handle (workable : Workable cfg) (orders : EventOrders) {event : Event cfg.topology} {out : Simulator cfg}
    (balanced : Balanced (event :: s.events) s) (costed : s.Costed) (nonneg : 0 ≤ s.now)
    (inside : s.now ≤ horizonMs cfg) (handled : s.handle orders event = some out) (seq : ℕ) :
    Moves (weight cfg ⟨s.now, seq, event⟩) 1 s out := by
  have ledger := balanced.ledger
  cases event with
  | arrival client =>
    obtain ⟨registry, pw, dw, hit, -, routed⟩ :=
      onArrival_spec orders client ledger.registered workable.prefills workable.decodes
    obtain rfl := Option.some.inj (routed.symm.trans handled)
    have accepted := moves_accept ledger registry pw dw hit
    have started := accepted.trans (moves_tryStartPrefill workable (accepted.costed costed) pw)
    have left := ticks_pos inside
    have worth : nextLife cfg s.now + lifeCost cfg = lifeCost cfg * ticks cfg s.now := by
      unfold nextLife
      rw [← Nat.mul_succ, Nat.succ_eq_add_one, Nat.sub_add_cancel left]
    refine started.mono ?_
    change _ ≤ lifeCost cfg * ticks cfg s.now + _
    rw [← worth, lifeCost]
    omega
  | prefillDone w =>
    obtain ⟨final, done, moves⟩ := moves_prefillDone workable costed ledger
    obtain rfl := Option.some.inj (done.symm.trans handled)
    exact moves
  | kvArrived id w =>
    obtain rfl := Option.some.inj handled
    exact (moves_kvArrived workable nonneg id w).mono le_rfl
  | decodeStep w =>
    obtain ⟨final, done, moves⟩ := moves_decodeStep orders costed inside ledger
    obtain rfl := Option.some.inj (done.symm.trans handled)
    exact moves

/-- Popping the next event and moving the clock forward gives its worth away. -/
theorem rank_pop {entry : Scheduled cfg.topology} {heap : List (Scheduled cfg.topology)}
    (popped : popEarliest s.heap = some (entry, heap)) (future : s.now ≤ entry.time) :
    ({ s with heap, now := entry.time } : Simulator cfg).rank + weight cfg entry ≤ s.rank := by
  have worth : weight cfg entry + (heap.map (weight cfg)).sum = (s.heap.map (weight cfg)).sum := by
    have total := ((popEarliest_perm popped).map (weight cfg)).sum_eq
    rwa [List.map_cons, List.sum_cons] at total
  have aged : s.reqs.entries.length * nextLife cfg entry.time ≤ s.reqs.entries.length * nextLife cfg s.now :=
    Nat.mul_le_mul_left _ (Nat.mul_le_mul_left _ (Nat.sub_le_sub_right (ticks_anti future) 1))
  simp only [rank]
  omega

/-! ### Every run -/

/-- A state between two events whose books balance, with nothing scheduled in the past. -/
structure Timely (s : Simulator cfg) : Prop where
  balanced : Balanced s.events s
  costed : s.Costed
  nonneg : 0 ≤ s.now
  future : ∀ entry ∈ s.heap, s.now ≤ entry.time

/-- What handling one event does to the clock and the heap: the clock moves forward to a pending event, and everything
the handler schedules lies at or after the new time. -/
structure Advances (s : Simulator cfg) (entry : Scheduled cfg.topology) (t : Simulator cfg) : Prop where
  forward : s.now ≤ entry.time
  now : t.now = entry.time
  pushed : ∃ pushed rest, s.heap.Perm (entry :: rest) ∧ t.heap = pushed ++ rest ∧ ∀ later ∈ pushed, t.now ≤ later.time

theorem timely_start (workable : Workable cfg) : (start cfg).Timely := by
  refine ⟨balanced_start workable.prefills workable.decodes, ?_, ?_, ?_⟩
  all_goals obtain ⟨arrivals, state, -, each⟩ := start_spec cfg
  · rw [state]
    exact ⟨fun _ => rfl, fun _ => rfl⟩
  · rw [state]
    exact le_rfl
  · rw [state]
    exact fun entry member => (each entry member).1.ge

theorem Timely.turn (workable : Workable cfg) (timely : s.Timely) {orders : EventOrders}
    {entry : Scheduled cfg.topology} {t : Simulator cfg} (reached : s.turn orders = .handled entry t) :
    t.Timely ∧ Advances s entry t ∧ t.rank < s.rank := by
  obtain ⟨heap, popped, inside, handled⟩ := turn_handled reached
  have same := popEarliest_perm popped
  have forward : s.now ≤ entry.time := timely.future entry (same.subset (.head _))
  let opened : Simulator cfg := { s with heap, now := entry.time }
  have nonneg : 0 ≤ opened.now := timely.nonneg.trans forward
  have inHand : Balanced (entry.event :: opened.events) opened := timely.balanced.pop popped
  have moves : Moves (weight cfg entry) 1 opened t :=
    moves_handle workable orders inHand ⟨timely.costed.prefill, timely.costed.decode⟩ nonneg inside handled entry.seq
  obtain ⟨pushed, heapEq, times⟩ := moves.pushed
  have later : ∀ other ∈ pushed, t.now ≤ other.time := fun other member => moves.now ▸ times other member
  refine ⟨⟨?_, ?_, ?_, ?_⟩, ⟨forward, moves.now, pushed, heap, same.symm, heapEq, later⟩, ?_⟩
  · exact (timely.balanced.turn workable.prefills workable.decodes orders).2 entry t reached
  · exact moves.costed ⟨timely.costed.prefill, timely.costed.decode⟩
  · exact moves.now ▸ nonneg
  · intro other member
    rw [heapEq] at member
    rcases List.mem_append.mp member with new | old
    · exact later other new
    · rw [moves.now]
      exact Scheduled.time_le_of_key_le (popEarliest_least popped other old)
  · have paid := rank_pop popped forward
    have spent := moves.rank
    change t.rank + 1 ≤ opened.rank + _ at spent
    change opened.rank + _ ≤ _ at paid
    omega

theorem timely_run (workable : Workable cfg) {orders : List EventOrders} (run : Machine.Run (system cfg) orders s) :
    s.Timely := by
  refine run.invariant (P := Timely) ?_ ?_
  · rintro _ rfl
    exact timely_start workable
  · rintro before turn after timely ⟨entry, reached⟩
    exact (timely.turn workable reached).1

/-- The times of the events the loop pops, the one past the horizon included. -/
def popTimes (orders : ℕ → EventOrders) : ℕ → ℕ → Simulator cfg → List Millis
  | 0, _, _ => []
  | turns + 1, n, s =>
    match popEarliest s.heap with
    | none => []
    | some (entry, _) =>
      match s.turn (orders n) with
      | .handled _ next => entry.time :: popTimes orders turns (n + 1) next
      | _ => [entry.time]

theorem Timely.popTimes_sorted (workable : Workable cfg) (timely : s.Timely) (orders : ℕ → EventOrders) (turns n : ℕ) :
    (popTimes orders turns n s).Pairwise (· ≤ ·) ∧ ∀ time ∈ popTimes orders turns n s, s.now ≤ time := by
  induction turns generalizing n s with
  | zero => exact ⟨.nil, by simp [popTimes]⟩
  | succ turns ih =>
    rw [popTimes]
    split
    next => exact ⟨.nil, by simp⟩
    next entry heap popped =>
      have forward : s.now ≤ entry.time := timely.future entry ((popEarliest_perm popped).subset (.head _))
      split
      next handledEntry next reached =>
        obtain ⟨heap', again, -, -⟩ := turn_handled reached
        obtain ⟨rfl, -⟩ := Prod.mk.inj (Option.some.inj (popped.symm.trans again))
        obtain ⟨after, advances, -⟩ := timely.turn workable reached
        obtain ⟨sorted, above⟩ := ih after (n + 1)
        rw [advances.now] at above
        refine ⟨List.pairwise_cons.mpr ⟨above, sorted⟩, fun time member => ?_⟩
        rcases List.mem_cons.mp member with rfl | later
        · exact forward
        · exact forward.trans (above time later)
      next =>
        refine ⟨List.pairwise_singleton _ _, fun time member => ?_⟩
        rw [List.mem_singleton.mp member]
        exact forward

/-- With more turns than the rank the loop comes to its end. -/
theorem Timely.loop_reports (workable : Workable cfg) (timely : s.Timely) (orders : ℕ → EventOrders) {turns : ℕ} (n : ℕ)
    (enough : s.rank < turns) : ∃ report, loop orders turns n s = .report report := by
  induction turns generalizing n s with
  | zero => omega
  | succ turns ih =>
    rw [loop]
    split
    next final _ => exact ⟨_, rfl⟩
    next panicked =>
      exact absurd panicked (timely.balanced.turn workable.prefills workable.decodes (orders n)).1
    next entry next reached =>
      obtain ⟨after, -, lower⟩ := timely.turn workable reached
      exact ih after (n + 1) (by omega)

/-- The virtual clock never runs backwards and every run ends: events are popped in order of time, no handler schedules
anything in the past, and a bound on the number of events holds for all iteration orders. -/
theorem clock_forward_and_run_ends (cfg : Config) (workable : Workable cfg) :
    (∀ orders turns, (popTimes orders turns 0 (start cfg)).Pairwise (· ≤ ·)) ∧
    (∀ orders s, Machine.Run (system cfg) orders s →
      ∀ next entry t, s.turn next = .handled entry t → Advances s entry t) ∧
    ∃ bound, (∀ orders s, Machine.Run (system cfg) orders s → orders.length ≤ bound) ∧
      ∀ orders turns, bound < turns → ∃ report, run cfg orders turns = .report report := by
  have first := timely_start workable
  refine ⟨fun orders turns => (first.popTimes_sorted workable orders turns 0).1, ?_, (start cfg).rank, ?_, ?_⟩
  · intro orders s run next entry t reached
    exact ((timely_run workable run).turn workable reached).2.1
  · intro orders s run
    have total : orders.length + s.rank ≤ (start cfg).rank := by
      refine run.length_add_rank_le (P := Timely) ?_ ?_
      · rintro _ rfl
        exact ⟨first, le_rfl⟩
      · rintro before turn after timely ⟨entry, reached⟩
        obtain ⟨later, -, lower⟩ := timely.turn workable reached
        exact ⟨later, lower⟩
    omega
  · intro orders turns enough
    exact first.loop_reports workable orders 0 enough

theorem clock_forward_and_run_ends_small :
    Workable smallConfig ∧ (popTimes (fun _ => .stored) 6 0 (start smallConfig)).length = 6 ∧
      ∃ bound, ∀ orders turns, bound < turns → ∃ report, run smallConfig orders turns = .report report := by
  have workable : Workable smallConfig :=
    ⟨by decide, by decide, by decide +kernel, by decide +kernel, by decide +kernel⟩
  obtain ⟨-, -, bound, -, ends⟩ := clock_forward_and_run_ends smallConfig workable
  exact ⟨workable, by decide +kernel, bound, ends⟩

end Simulator

end TrtLlm.Sim
