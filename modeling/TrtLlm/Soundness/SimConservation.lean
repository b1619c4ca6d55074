import TrtLlm.Machine.Path
import TrtLlm.Soundness.PrefillProgress
import TrtLlm.Soundness.SimRouting
import TrtLlm.Soundness.SimSteps

/-! # Nothing is lost in the simulator

Every client is either about to issue a request or has one live request, and every live request sits in exactly one
place: a prefill queue, the transfer queue, a transfer in flight, a pending list or a running set. The counters and
flags agree with the events in the heap. The invariant takes the events as an argument of its own, so that the event
that has just been popped still counts while its handler runs.
-/

namespace TrtLlm.Sim

open Engine KvCache Routing Sched

namespace Event

variable {topology : TopologyConfig}

def isArrival : Event topology → Bool
  | .arrival _ => true
  | _ => false

/-- The request whose transfer an event ends. -/
def transferred : Event topology → Option RequestId
  | .kvArrived id _ => some id
  | _ => none

end Event

/-- A prefill worker with `dones` events that end its batch: it is busy with one batch that continues its queue, or
idle. -/
structure PrefillWorkerSim.Ready (dones : ℕ) (worker : PrefillWorkerSim) : Prop where
  consistent : worker.sched.Consistent
  slot : (worker.busy = true ∧ dones = 1 ∧ ∃ batch started, worker.batch = some (batch, started) ∧
      batch.chunks ≠ [] ∧ (batch.chunks.map (·.id)).Nodup ∧ ∀ chunk ∈ batch.chunks, worker.sched.Fits chunk) ∨
    (worker.busy = false ∧ dones = 0 ∧ worker.batch = none)

/-- A request that is new to the queue leaves the batch in progress alone. -/
theorem PrefillWorkerSim.Ready.enqueue {dones : ℕ} {worker : PrefillWorkerSim} (ready : worker.Ready dones)
    {p : PendingPrefill} (start : p.doneTokens ≤ p.computeTokens) (unqueued : p.id ∉ worker.sched.queue) :
    ({ worker with sched := worker.sched.enqueue p } : PrefillWorkerSim).Ready dones := by
  refine ⟨ready.consistent.enqueue start, ?_⟩
  rcases ready.slot with ⟨busy, one, batch, started, stored, some, distinct, fits⟩ | idle
  · refine .inl ⟨busy, one, batch, started, stored, some, distinct, fun chunk member => ?_⟩
    obtain ⟨q, found, rest⟩ := fits chunk member
    refine ⟨q, ?_, rest⟩
    have other : chunk.id ≠ p.id := by
      rintro same
      exact unqueued (same ▸ AList.mem_iff_exists_lookup.mpr ⟨q, found⟩)
    rw [PrefillScheduler.enqueue_lookup, if_neg other, found]
  · exact .inr idle

/-- A worker with an event that ends its batch has that batch. Finishing it leaves the worker idle, with exactly the
finished requests gone from its queue. -/
theorem PrefillWorkerSim.Ready.finishBatch {dones : ℕ} {worker : PrefillWorkerSim} (ready : worker.Ready (dones + 1))
    (now : Millis) :
    ∃ batch started, worker.batch = some (batch, started) ∧ dones = 0 ∧
      (worker.finishBatch batch (now - started)).2.Ready 0 ∧
      (worker.finishBatch batch (now - started)).2.sched.queuedTokens < worker.sched.queuedTokens ∧
      ∀ id, (worker.finishBatch batch (now - started)).2.sched.queue.keys.count id +
        (worker.finishBatch batch (now - started)).1.count id = worker.sched.queue.keys.count id := by
  obtain ⟨-, one, batch, started, stored, nonempty, distinct, fits⟩ | ⟨-, zero, -⟩ := ready.slot
  swap
  · omega
  obtain ⟨consistent, lookups⟩ := ready.consistent.complete batch (now - started)
  have listed := PrefillScheduler.complete_finished (now - started) distinct fits
  have once : (worker.sched.complete batch (now - started)).1.Nodup := by
    rw [listed]
    exact distinct.sublist (List.filter_sublist.map _)
  refine ⟨batch, started, stored, by omega, ⟨consistent, .inr ⟨rfl, rfl, rfl⟩⟩,
    PrefillScheduler.queuedTokens_complete_lt (now - started) distinct fits nonempty, fun id => ?_⟩
  change (worker.sched.complete batch (now - started)).2.queue.keys.count id +
    (worker.sched.complete batch (now - started)).1.count id = _
  have same : id ∈ (worker.sched.complete batch (now - started)).2.queue ↔
      id ∉ (worker.sched.complete batch (now - started)).1 ∧ id ∈ worker.sched.queue := by
    rw [← AList.lookup_isSome, ← AList.lookup_isSome, lookups id]
    split
    next done => simp [done]
    next undone => simp [undone]
  rw [AList.count_keys, AList.count_keys, List.count_eq_ite_of_nodup once]
  by_cases done : id ∈ (worker.sched.complete batch (now - started)).1
  · have waited : id ∈ worker.sched.queue := by
      rw [listed] at done
      obtain ⟨chunk, kept, rfl⟩ := List.mem_map.mp done
      obtain ⟨p, found, -⟩ := fits chunk (List.mem_filter.mp kept).1
      exact AList.mem_iff_exists_lookup.mpr ⟨_, found⟩
    rw [if_neg (fun inside => (same.mp inside).1 done), if_pos done, if_pos waited]
  · simp [same, done]

/-- A decode worker with `steps` step events: it has one exactly while it is stepping, and it does not rest on work. -/
structure DecodeWorkerSim.Awake (steps : ℕ) (worker : DecodeWorkerSim) : Prop where
  steps : steps = if worker.stepping then 1 else 0
  pending : worker.pending ≠ [] → worker.stepping = true
  running : worker.sched.running.entries ≠ [] → worker.stepping = true

namespace Simulator

variable {cfg : Config}

/-- In how many prefill queues a request sits. -/
def queued (s : Simulator cfg) (id : RequestId) : ℕ := ∑ w, (s.prefill w).sched.queue.keys.count id

def pendingAt (s : Simulator cfg) (id : RequestId) : ℕ := ∑ w, (s.decode w).pending.count id

def runningAt (s : Simulator cfg) (id : RequestId) : ℕ := ∑ w, (s.decode w).sched.running.keys.count id

/-- In how many places a request sits. -/
def places (events : List (Event cfg.topology)) (s : Simulator cfg) (id : RequestId) : ℕ :=
  s.queued id + (s.xferQueue.map Prod.fst).count id + (events.filterMap Event.transferred).count id + s.pendingAt id +
    s.runningAt id

/-- Who is where, and what each worker is waiting for, with the events that are in the heap or being handled. -/
structure Ledger (events : List (Event cfg.topology)) (s : Simulator cfg) : Prop where
  clients : events.countP Event.isArrival + s.reqs.entries.length = cfg.workload.concurrency
  places : ∀ id, s.places events id = if id ∈ s.reqs then 1 else 0
  fresh : ∀ id ∈ s.reqs, id < s.nextId
  emitted : ∀ id r, s.reqs.lookup id = some r → s.queued id = 0 → r.firstTokenMs.isSome
  prefill : ∀ w, (s.prefill w).Ready (events.count (.prefillDone w))
  booked : ∀ w, (s.decode w).Booked
  awake : ∀ w, (s.decode w).Awake (events.count (.decodeStep w))
  registered : Registered cfg s.router.registry

/-- The transfer buffers: each one in use has a transfer in flight, and nobody waits for a free one. -/
structure Transfers (events : List (Event cfg.topology)) (s : Simulator cfg) : Prop where
  count : s.xferBusy = (events.filterMap Event.transferred).length
  buffers : s.xferBusy ≤ xferCap cfg
  waiting : s.xferQueue ≠ [] → s.xferBusy = xferCap cfg

/-! ### How the parts of a state count -/

section Counts

variable {s : Simulator cfg} (id : RequestId)

theorem queued_set (w : Fin cfg.topology.prefillWorkers) (worker : PrefillWorkerSim) :
    (s.setPrefill w worker).queued id + (s.prefill w).sched.queue.keys.count id =
      s.queued id + worker.sched.queue.keys.count id :=
  Finset.sum_update_add (fun worker => worker.sched.queue.keys.count id) s.prefill w worker

theorem queued_enqueue {w : Fin cfg.topology.prefillWorkers} {p : PendingPrefill}
    (unqueued : p.id ∉ (s.prefill w).sched.queue) :
    (s.setPrefill w { s.prefill w with sched := (s.prefill w).sched.enqueue p }).queued id =
      s.queued id + if id = p.id then 1 else 0 := by
  have count := s.queued_set id w { s.prefill w with sched := (s.prefill w).sched.enqueue p }
  simp only [AList.count_keys, PrefillScheduler.mem_enqueue] at count
  by_cases here : id = p.id
  · subst here
    simpa [unqueued] using count
  · simpa [here] using count

theorem pendingAt_set (w : Fin cfg.topology.decodeWorkers) (worker : DecodeWorkerSim) :
    (s.setDecode w worker).pendingAt id + (s.decode w).pending.count id = s.pendingAt id + worker.pending.count id :=
  Finset.sum_update_add (fun worker => worker.pending.count id) s.decode w worker

theorem runningAt_set (w : Fin cfg.topology.decodeWorkers) (worker : DecodeWorkerSim) :
    (s.setDecode w worker).runningAt id + (s.decode w).sched.running.keys.count id =
      s.runningAt id + worker.sched.running.keys.count id :=
  Finset.sum_update_add (fun worker => worker.sched.running.keys.count id) s.decode w worker

theorem le_queued (w : Fin cfg.topology.prefillWorkers) : (s.prefill w).sched.queue.keys.count id ≤ s.queued id :=
  Finset.single_le_sum (f := fun w => (s.prefill w).sched.queue.keys.count id) (fun _ _ => Nat.zero_le _)
    (Finset.mem_univ w)

theorem le_pendingAt (w : Fin cfg.topology.decodeWorkers) : (s.decode w).pending.count id ≤ s.pendingAt id :=
  Finset.single_le_sum (f := fun w => (s.decode w).pending.count id) (fun _ _ => Nat.zero_le _) (Finset.mem_univ w)

theorem le_runningAt (w : Fin cfg.topology.decodeWorkers) :
    (s.decode w).sched.running.keys.count id ≤ s.runningAt id :=
  Finset.single_le_sum (f := fun w => (s.decode w).sched.running.keys.count id) (fun _ _ => Nat.zero_le _)
    (Finset.mem_univ w)

end Counts

variable {s : Simulator cfg}

/-- A prefill worker that is replaced leaves the others as they were. -/
theorem forall_setPrefill {P : Fin cfg.topology.prefillWorkers → PrefillWorkerSim → Prop}
    (w : Fin cfg.topology.prefillWorkers) {worker : PrefillWorkerSim} (here : P w worker)
    (others : ∀ v, v ≠ w → P v (s.prefill v)) : ∀ v, P v ((s.setPrefill w worker).prefill v) := by
  intro v
  by_cases same : v = w
  · subst same
    rw [show (s.setPrefill v worker).prefill v = worker from Function.update_self _ _ _]
    exact here
  · rw [show (s.setPrefill w worker).prefill v = s.prefill v from Function.update_of_ne same _ _]
    exact others v same

theorem forall_setDecode {P : Fin cfg.topology.decodeWorkers → DecodeWorkerSim → Prop}
    (w : Fin cfg.topology.decodeWorkers) {worker : DecodeWorkerSim} (here : P w worker)
    (others : ∀ v, v ≠ w → P v (s.decode v)) : ∀ v, P v ((s.setDecode w worker).decode v) := by
  intro v
  by_cases same : v = w
  · subst same
    rw [show (s.setDecode v worker).decode v = worker from Function.update_self _ _ _]
    exact here
  · rw [show (s.setDecode w worker).decode v = s.decode v from Function.update_of_ne same _ _]
    exact others v same

/-! ### Starting a batch -/

theorem Ledger.tryStartPrefill (ledger : Ledger s.events s) (w : Fin cfg.topology.prefillWorkers) :
    Ledger (s.tryStartPrefill w).events (s.tryStartPrefill w) := by
  have ready := ledger.prefill w
  unfold Simulator.tryStartPrefill
  simp only
  split
  next => exact ledger
  next idle =>
    obtain ⟨zero, rest⟩ : s.events.count (.prefillDone w) = 0 ∧ (s.prefill w).batch = none := by
      rcases ready.slot with ⟨busy, _⟩ | ⟨_, zero, none⟩
      · exact absurd busy idle
      · exact ⟨zero, none⟩
    obtain ⟨distinct, fits, consistent⟩ := ready.consistent.plan s.now
    have queue := (s.prefill w).sched.plan_queue s.now
    generalize (s.prefill w).sched.plan s.now = planned at distinct fits consistent queue
    obtain ⟨batch, sched⟩ := planned
    simp only at distinct fits consistent queue ⊢
    -- planning keeps the queue, so nobody changes places
    have keep : ∀ (worker : PrefillWorkerSim) (id : RequestId), worker.sched = sched →
        (s.setPrefill w worker).queued id = s.queued id := by
      intro worker id same
      have count := s.queued_set id w worker
      rw [same, queue] at count
      omega
    split
    next =>
      refine ⟨ledger.clients, fun id => ?_, ledger.fresh, fun id r found alone => ?_, ?_, ledger.booked, ledger.awake,
        ledger.registered⟩
      · exact (congrArg (fun n => n + _ + _ + _ + _) (keep _ id rfl)).trans (ledger.places id)
      · exact ledger.emitted id r found ((keep _ id rfl).symm.trans alone)
      · refine forall_setPrefill w ⟨consistent, .inr ⟨by simpa using idle, zero, rest⟩⟩ fun v _ => ledger.prefill v
    next started =>
      refine ⟨ledger.clients, fun id => ?_, ledger.fresh, fun id r found alone => ?_, ?_, ledger.booked, ?_,
        ledger.registered⟩
      · exact (congrArg (fun n => n + _ + _ + _ + _) (keep _ id rfl)).trans (ledger.places id)
      · exact ledger.emitted id r found ((keep _ id rfl).symm.trans alone)
      · refine forall_setPrefill (s := s) w ⟨consistent, .inl ⟨rfl, ?_, batch, s.now, rfl, started, distinct, ?_⟩⟩
          fun v other => ?_
        · rw [push_events, List.count_cons_self]
          exact congrArg (· + 1) zero
        · intro chunk member
          obtain ⟨p, found, rest⟩ := fits chunk member
          exact ⟨p, queue ▸ found, rest⟩
        · rw [push_events, List.count_cons_of_ne (by simpa using Ne.symm other)]
          exact ledger.prefill v
      · intro v
        rw [push_events, List.count_cons_of_ne (by simp)]
        exact ledger.awake v

/-! ### Arrivals -/

/-- A request that sits nowhere is not live. -/
theorem Ledger.absent {events : List (Event cfg.topology)} (ledger : Ledger events s) {id : RequestId}
    (unknown : id ∉ s.reqs) : s.queued id = 0 ∧ (s.xferQueue.map Prod.fst).count id = 0 ∧
      (events.filterMap Event.transferred).count id = 0 ∧ s.pendingAt id = 0 ∧ s.runningAt id = 0 := by
  have nowhere := ledger.places id
  rw [if_neg unknown] at nowhere
  unfold Simulator.places at nowhere
  omega

theorem Ledger.unqueued {events : List (Event cfg.topology)} (ledger : Ledger events s) {id : RequestId}
    (unknown : id ∉ s.reqs) (w : Fin cfg.topology.prefillWorkers) : id ∉ (s.prefill w).sched.queue := by
  intro member
  obtain ⟨nowhere, -⟩ := ledger.absent unknown
  have bound := s.le_queued id w
  rw [AList.count_keys, if_pos member] at bound
  omega

theorem Ledger.accept {client : ℕ} (ledger : Ledger (.arrival client :: s.events) s) {registry : WorkerRegistry}
    (registered : Registered cfg registry) (pw : Fin cfg.topology.prefillWorkers) (dw : Fin cfg.topology.decodeWorkers)
    (hit : ℕ) :
    Ledger (({ s with nextId := s.nextId + 1, issued := s.issued + 1, router := { s.router with registry } } :
        Simulator cfg).accept client s.nextId pw dw hit).events
      (({ s with nextId := s.nextId + 1, issued := s.issued + 1, router := { s.router with registry } } :
        Simulator cfg).accept client s.nextId pw dw hit) := by
  have unknown : s.nextId ∉ s.reqs := fun known => lt_irrefl _ (ledger.fresh _ known)
  let request : PendingPrefill := ⟨s.nextId, s.now, s.now + cfg.slo.ttftMs, cfg.workload.isl - hit, 0⟩
  let worker : PrefillWorkerSim := { s.prefill pw with sched := (s.prefill pw).sched.enqueue request }
  let state : ReqState cfg.topology := ⟨client, s.now, cfg.workload.isl, cfg.workload.osl, dw, none, s.now⟩
  have unqueued : s.nextId ∉ (s.prefill pw).sched.queue := ledger.unqueued unknown pw
  -- the router's prefix index is not part of the accounts
  have core : ∀ t : Simulator cfg, t.events = s.events → t.reqs = s.reqs.insert s.nextId state →
      t.nextId = s.nextId + 1 → t.prefill = (s.setPrefill pw worker).prefill → t.decode = s.decode →
      t.xferQueue = s.xferQueue → Registered cfg t.router.registry → Ledger t.events t := by
    intro t events reqs nextId prefill decode xferQueue known
    have queued : ∀ id, t.queued id = s.queued id + if id = s.nextId then 1 else 0 := by
      intro id
      rw [← s.queued_enqueue id (p := request) unqueued]
      unfold Simulator.queued
      rw [prefill]
    have lookups : ∀ id, t.reqs.lookup id = if id = s.nextId then some state else s.reqs.lookup id := by
      intro id
      rw [reqs, AList.lookup_insert_eq_ite]
    refine ⟨?_, fun id => ?_, fun id member => ?_, fun id r found alone => ?_, ?_, ?_, ?_, known⟩
    · have clients := ledger.clients
      rw [List.countP_cons_of_pos rfl] at clients
      rw [events, reqs, AList.length_insert_of_notMem unknown]
      omega
    · have before := ledger.places id
      have inside : (id ∈ t.reqs) ↔ id = s.nextId ∨ id ∈ s.reqs := by rw [reqs, AList.mem_insert]
      unfold Simulator.places Simulator.pendingAt Simulator.runningAt at before ⊢
      rw [queued id, events, xferQueue, decode]
      rw [List.filterMap_cons_none rfl] at before
      by_cases here : id = s.nextId
      · rw [if_pos here, if_pos (inside.mpr (.inl here))]
        rw [here, if_neg unknown] at before
        rw [here]
        omega
      · rw [if_neg here, Nat.add_zero, before]
        simp only [inside, here, false_or]
    · rw [reqs, AList.mem_insert] at member
      rw [nextId]
      rcases member with rfl | member
      · exact Nat.lt_succ_self _
      · exact Nat.lt_succ_of_lt (ledger.fresh id member)
    · rw [lookups] at found
      rw [queued] at alone
      split at found
      next here =>
        rw [if_pos here] at alone
        omega
      next => exact ledger.emitted id r found (by omega)
    · rw [prefill, events]
      have before : ∀ w, (s.prefill w).Ready (s.events.count (.prefillDone w)) := by
        intro w
        have ready := ledger.prefill w
        rwa [List.count_cons_of_ne (by simp)] at ready
      exact forall_setPrefill pw ((before pw).enqueue (Nat.zero_le _) unqueued) fun v _ => before v
    · rw [decode]
      exact ledger.booked
    · intro w
      have awake := ledger.awake w
      rw [List.count_cons_of_ne (by simp)] at awake
      rw [decode, events]
      exact awake
  unfold Simulator.accept
  simp only
  split
  · exact core _ rfl rfl rfl rfl rfl rfl registered
  · exact core _ rfl rfl rfl rfl rfl rfl registered

/-! ### Transfers -/

/-- Draining the queue of transfers moves requests from it into flight and changes nothing else. -/
theorem drain_spec (s : Simulator cfg) :
    ∃ started rest, s.drainXferQueue =
        { s with
          xferBusy := s.xferBusy + started.length, xferQueue := rest, seq := s.seq + started.length
          heap := started ++ s.heap } ∧
      (∀ entry ∈ started, entry.time = s.now + kvTransferMs cfg ∧ ∃ id w, entry.event = .kvArrived id w) ∧
      (s.xferQueue.map Prod.fst).Perm
        ((started.map (·.event)).filterMap Event.transferred ++ rest.map Prod.fst) ∧
      ((started.map (·.event)).filterMap Event.transferred).length = started.length ∧
      (s.xferBusy ≤ xferCap cfg → s.xferBusy + started.length ≤ xferCap cfg) ∧
      (rest ≠ [] → xferCap cfg ≤ s.xferBusy + started.length) := by
  obtain ⟨started, drained⟩ := drainLoop_spec s.xferQueue s
  have moved : ((started.map (·.event)).filterMap Event.transferred).Perm
      ((s.xferQueue.take started.length).map Prod.fst) := by
    refine (drained.events.filterMap Event.transferred).trans (List.Perm.of_eq ?_)
    rw [List.filterMap_map]
    exact congrFun List.filterMap_eq_map _
  refine ⟨started, s.xferQueue.drop started.length, drained.state, fun entry member => ?_, ?_, ?_, drained.room,
    drained.full⟩
  · have listed := drained.events.mem_iff.mp (List.mem_map_of_mem member)
    obtain ⟨job, _, same⟩ := List.mem_map.mp listed
    exact ⟨drained.times entry member, job.1, job.2, same.symm⟩
  · have split := congrArg (List.map Prod.fst) (List.take_append_drop started.length s.xferQueue)
    rw [List.map_append] at split
    rw [← split]
    exact moved.symm.append_right _
  · rw [moved.length_eq, List.length_map, List.length_take, Nat.min_eq_left drained.within]

/-- Draining keeps everybody in one place, whatever events are being handled. -/
theorem Ledger.drain {inHand : List (Event cfg.topology)} (ledger : Ledger (inHand ++ s.events) s) :
    Ledger (inHand ++ s.drainXferQueue.events) s.drainXferQueue := by
  obtain ⟨started, rest, state, kinds, moved, -, -, -⟩ := drain_spec s
  have events : s.drainXferQueue.events = started.map (·.event) ++ s.events := by
    rw [state]
    exact List.map_append
  have other : ∀ event : Event cfg.topology, (∀ id w, event ≠ .kvArrived id w) →
      (started.map (·.event)).count event = 0 := by
    intro event apart
    refine List.count_eq_zero.mpr fun member => ?_
    obtain ⟨entry, listed, same⟩ := List.mem_map.mp member
    obtain ⟨-, id, w, kind⟩ := kinds entry listed
    exact apart id w (same.symm.trans kind)
  rw [events, state]
  refine ⟨?_, fun id => ?_, ledger.fresh, ledger.emitted, fun w => ?_, ledger.booked, fun w => ?_, ledger.registered⟩
  · have none : (started.map (·.event)).countP Event.isArrival = 0 := by
      refine List.countP_eq_zero.mpr fun event member => ?_
      obtain ⟨entry, listed, rfl⟩ := List.mem_map.mp member
      obtain ⟨-, id, w, kind⟩ := kinds entry listed
      rw [kind]
      exact Bool.false_ne_true
    have clients := ledger.clients
    simp only [List.countP_append] at clients ⊢
    omega
  · have before := ledger.places id
    have count := moved.count_eq id
    rw [List.count_append] at count
    unfold Simulator.places at before ⊢
    simp only [List.filterMap_append, List.count_append] at before ⊢
    change s.queued id + (rest.map Prod.fst).count id + _ + s.pendingAt id + s.runningAt id = _
    omega
  · have ready := ledger.prefill w
    rw [List.count_append] at ready ⊢
    rw [List.count_append, other _ (by simp), Nat.zero_add]
    exact ready
  · have awake := ledger.awake w
    rw [List.count_append] at awake ⊢
    rw [List.count_append, other _ (by simp), Nat.zero_add]
    exact awake

/-- After draining no request waits for a free buffer. -/
theorem transfers_drain (count : s.xferBusy = (s.events.filterMap Event.transferred).length)
    (buffers : s.xferBusy ≤ xferCap cfg) : Transfers s.drainXferQueue.events s.drainXferQueue := by
  obtain ⟨started, rest, state, -, -, length, room, full⟩ := drain_spec s
  have events : s.drainXferQueue.events = started.map (·.event) ++ s.events := by
    rw [state]
    exact List.map_append
  rw [events, state]
  refine ⟨?_, room buffers, fun waiting => le_antisymm (room buffers) (full waiting)⟩
  rw [List.filterMap_append, List.length_append, length, count]
  exact Nat.add_comm _ _

/-! ### The end of a batch -/

/-- Finishing a batch hands the finished prompts over to the queue of transfers. -/
theorem Ledger.prefillDone {w : Fin cfg.topology.prefillWorkers} (ledger : Ledger (.prefillDone w :: s.events) s) :
    ∃ finished worker jobs reqs,
      worker.curve = (s.prefill w).curve ∧ worker.sched.queuedTokens < (s.prefill w).sched.queuedTokens ∧
      (∀ id, worker.sched.queue.keys.count id + finished.count id = (s.prefill w).sched.queue.keys.count id) ∧
      jobs.map Prod.fst = finished ∧ reqs.entries.length = s.reqs.entries.length ∧
      Ledger s.events { s.setPrefill w worker with reqs, xferQueue := s.xferQueue ++ jobs } ∧
      s.onPrefillDone w = some ((drainXferQueue
        { s.setPrefill w worker with reqs, xferQueue := s.xferQueue ++ jobs }).tryStartPrefill w) := by
  have ready := ledger.prefill w
  rw [List.count_cons_self] at ready
  obtain ⟨batch, started, stored, none, idle, fewer, left⟩ := ready.finishBatch s.now
  generalize ended : (s.prefill w).finishBatch batch (s.now - started) = result at idle fewer left
  have curve : result.2.curve = (s.prefill w).curve := by
    rw [← ended]
    rfl
  obtain ⟨finished, worker⟩ := result
  simp only at idle fewer left curve
  have queued : ∀ id, (s.setPrefill w worker).queued id + finished.count id = s.queued id := by
    intro id
    have count := s.queued_set id w worker
    have part := left id
    omega
  have known : ∀ id ∈ finished, id ∈ (s.setPrefill w worker).reqs := by
    intro id member
    by_contra unknown
    obtain ⟨nowhere, -⟩ := ledger.absent unknown
    have total := queued id
    have positive := List.count_pos_iff.mpr member
    omega
  obtain ⟨jobs, reqs, handed, ids, stamped⟩ := handOff_spec known
  have members : ∀ id, id ∈ reqs ↔ id ∈ s.reqs := by
    intro id
    rw [← AList.lookup_isSome, ← AList.lookup_isSome, stamped id, Option.isSome_map]
    rfl
  have size : reqs.entries.length = s.reqs.entries.length := AList.length_congr members
  refine ⟨finished, worker, jobs, reqs, curve, fewer, left, ids, size, ⟨?_, fun id => ?_, fun id member => ?_,
    fun id r found alone => ?_, ?_, ledger.booked, fun v => ?_, ledger.registered⟩, ?_⟩
  · have clients := ledger.clients
    rw [List.countP_cons_of_neg (by exact Bool.false_ne_true)] at clients
    change s.events.countP _ + reqs.entries.length = _
    omega
  · have before := ledger.places id
    have total := queued id
    unfold Simulator.places at before ⊢
    rw [List.filterMap_cons_none rfl] at before
    change (s.setPrefill w worker).queued id + ((s.xferQueue ++ jobs).map Prod.fst).count id + _ + _ + _ = _
    rw [List.map_append, List.count_append, ids, if_congr (members id) rfl rfl, ← before]
    change _ + _ + (s.events.filterMap Event.transferred).count id + s.pendingAt id + s.runningAt id = _
    omega
  · exact ledger.fresh id ((members id).mp member)
  · change reqs.lookup id = some r at found
    rw [stamped id] at found
    obtain ⟨old, before, rfl⟩ := Option.map_eq_some_iff.mp found
    split
    · rfl
    next unfinished =>
      refine ledger.emitted id old before ?_
      have total := queued id
      rw [List.count_eq_zero.mpr unfinished] at total
      exact total.symm.trans alone
  · refine forall_setPrefill (s := s) w (by rw [none]; exact idle) fun v other => ?_
    have before := ledger.prefill v
    rwa [List.count_cons_of_ne (by simpa using Ne.symm other)] at before
  · have before := ledger.awake v
    rwa [List.count_cons_of_ne (by simp)] at before
  · rw [onPrefillDone, stored]
    simp only [ended]
    rw [handed]
    rfl

/-! ### Changing one decode worker -/

/-- Handling an event by replacing one decode worker and scheduling steps of it, with nobody lost. -/
theorem Ledger.setDecode {event : Event cfg.topology} {w : Fin cfg.topology.decodeWorkers}
    (ledger : Ledger (event :: s.events) s) (kind : event.isArrival = false ∧ ∀ v, event ≠ .prefillDone v)
    (mine : ∀ v, v ≠ w → event ≠ .decodeStep v) {worker : DecodeWorkerSim} (booked : worker.Booked)
    (seats : ∀ id, worker.pending.count id + worker.sched.running.keys.count id =
      (s.decode w).pending.count id + (s.decode w).sched.running.keys.count id + event.transferred.toList.count id)
    {out : Simulator cfg} {again : List (Event cfg.topology)} (events : out.events = again ++ s.events)
    (state : out = { s.setDecode w worker with seq := out.seq, heap := out.heap })
    (kinds : ∀ event ∈ again, event = .decodeStep w)
    (awake : worker.Awake ((again ++ s.events).count (.decodeStep w))) : Ledger out.events out := by
  have others : ∀ event : Event cfg.topology, event ≠ .decodeStep w → again.count event = 0 := fun event apart =>
    List.count_eq_zero.mpr fun member => apart (kinds event member)
  have silent : again.filterMap Event.transferred = [] :=
    List.filterMap_eq_nil_iff.mpr fun event member => by rw [kinds event member]; rfl
  rw [events, state]
  refine ⟨?_, fun id => ?_, ledger.fresh, ledger.emitted, fun v => ?_, ?_, ?_, ledger.registered⟩
  · have quiet : again.countP Event.isArrival = 0 :=
      List.countP_eq_zero.mpr fun event member => by rw [kinds event member]; exact Bool.false_ne_true
    have clients := ledger.clients
    rw [List.countP_cons_of_neg (by simp [kind.1])] at clients
    rw [List.countP_append, quiet, Nat.zero_add]
    exact clients
  · have before := ledger.places id
    have pending := s.pendingAt_set id w worker
    have running := s.runningAt_set id w worker
    have same := seats id
    have moving : ((event :: s.events).filterMap Event.transferred).count id =
        event.transferred.toList.count id + (s.events.filterMap Event.transferred).count id := by
      rw [List.filterMap_cons]
      cases event.transferred with
      | none => simp
      | some other => simp [List.count_cons, Nat.add_comm]
    unfold Simulator.places at before ⊢
    rw [List.filterMap_append, silent, List.nil_append]
    refine Eq.trans ?_ before
    change s.queued id + (s.xferQueue.map Prod.fst).count id + _ + (s.setDecode w worker).pendingAt id +
      (s.setDecode w worker).runningAt id = _
    omega
  · have ready := ledger.prefill v
    rw [List.count_cons_of_ne (kind.2 v)] at ready
    rw [List.count_append, others _ (by simp), Nat.zero_add]
    exact ready
  · exact forall_setDecode (P := fun _ worker => worker.Booked) w booked fun v _ => ledger.booked v
  · refine forall_setDecode (P := fun v worker => worker.Awake ((again ++ s.events).count (.decodeStep v))) w awake
      fun v other => ?_
    have before := ledger.awake v
    rw [List.count_cons_of_ne (mine v other)] at before
    rw [List.count_append, others _ (by simpa using other), Nat.zero_add]
    exact before

/-- A transfer that ends puts its request on the pending list and wakes the worker. -/
theorem Ledger.land {id : RequestId} {w : Fin cfg.topology.decodeWorkers}
    (ledger : Ledger (.kvArrived id w :: s.events) s) {out : Simulator cfg} {again : List (Event cfg.topology)}
    (woken : again = if (s.decode w).stepping then [] else [.decodeStep w]) (events : out.events = again ++ s.events)
    (state : out = { s.setDecode w { s.decode w with pending := (s.decode w).pending ++ [id], stepping := true } with
      seq := out.seq, heap := out.heap }) : Ledger out.events out := by
  let worker : DecodeWorkerSim := { s.decode w with pending := (s.decode w).pending ++ [id], stepping := true }
  have booked : worker.Booked := ⟨(ledger.booked w).keyed, (ledger.booked w).pages, (ledger.booked w).holders⟩
  have steps := (ledger.awake w).steps
  rw [List.count_cons_of_ne (by simp)] at steps
  have awake : worker.Awake ((again ++ s.events).count (.decodeStep w)) := by
    refine ⟨?_, fun _ => rfl, fun _ => rfl⟩
    rw [List.count_append, steps, woken]
    cases (s.decode w).stepping <;> simp [worker]
  refine ledger.setDecode ⟨rfl, by simp⟩ (by simp) booked (fun other => ?_) events state (fun event member => ?_) awake
  · change ((s.decode w).pending ++ [id]).count other + (s.decode w).sched.running.keys.count other =
      _ + _ + [id].count other
    rw [List.count_append]
    omega
  · rw [woken] at member
    split at member
    · cases member
    · exact List.mem_singleton.mp member

/-- The transfers only depend on the buffers and on what is in flight. -/
theorem Transfers.of_same {t : Simulator cfg} {events after : List (Event cfg.topology)} (transfers : Transfers events s)
    (busy : t.xferBusy = s.xferBusy) (queue : t.xferQueue = s.xferQueue)
    (moving : after.filterMap Event.transferred = events.filterMap Event.transferred) : Transfers after t := by
  refine ⟨?_, ?_, ?_⟩
  · rw [busy, moving]
    exact transfers.count
  · rw [busy]
    exact transfers.buffers
  · rw [busy, queue]
    exact transfers.waiting

theorem Ledger.kvArrived {id : RequestId} {w : Fin cfg.topology.decodeWorkers}
    (ledger : Ledger (.kvArrived id w :: s.events) s) (transfers : Transfers (.kvArrived id w :: s.events) s) :
    Ledger (s.onKvArrived id w).events (s.onKvArrived id w) ∧
      Transfers (s.onKvArrived id w).events (s.onKvArrived id w) := by
  let freed : Simulator cfg := { s with xferBusy := s.xferBusy - 1 }
  have busy := transfers.count
  rw [List.filterMap_cons_some (f := Event.transferred) (b := id) rfl, List.length_cons] at busy
  have opened : Ledger ([.kvArrived id w] ++ freed.events) freed := ⟨ledger.clients, ledger.places, ledger.fresh,
    ledger.emitted, ledger.prefill, ledger.booked, ledger.awake, ledger.registered⟩
  have drained := opened.drain
  have moving := transfers_drain (s := freed) (by change s.xferBusy - 1 = _; rw [busy]; rfl)
    ((Nat.sub_le _ _).trans transfers.buffers)
  unfold onKvArrived
  simp only
  change Ledger (.kvArrived id w :: freed.drainXferQueue.events) freed.drainXferQueue at drained
  split
  next stepping =>
    have quiet : ([] : List (Event cfg.topology)) = if (freed.drainXferQueue.decode w).stepping then [] else
        [.decodeStep w] := by rw [if_pos stepping]
    exact ⟨drained.land quiet rfl rfl, moving.of_same rfl rfl rfl⟩
  next resting =>
    have woken : [Event.decodeStep w] = if (freed.drainXferQueue.decode w).stepping then [] else [Event.decodeStep w] := by
      rw [if_neg resting]
    exact ⟨drained.land woken rfl rfl, moving.of_same rfl rfl rfl⟩

/-! ### A decode step -/

/-- Admission takes requests from the pending list and never panics. -/
theorem Ledger.admitted (orders : EventOrders) {w : Fin cfg.topology.decodeWorkers}
    (ledger : Ledger (.decodeStep w :: s.events) s) :
    ∃ worker, s.admitDecode orders w = some worker ∧ worker.Booked ∧ worker.stepping = true ∧
      s.events.count (.decodeStep w) = 0 ∧
      (∀ id, worker.pending.count id + worker.sched.running.keys.count id =
        (s.decode w).pending.count id + (s.decode w).sched.running.keys.count id) ∧
      worker.curve = (s.decode w).curve := by
  have whole : ∀ id, s.queued id + s.pendingAt id + s.runningAt id ≤ if id ∈ s.reqs then 1 else 0 := by
    intro id
    have places := ledger.places id
    unfold Simulator.places at places
    omega
  have once : ∀ id, (s.decode w).pending.count id + (s.decode w).sched.running.keys.count id ≤ 1 := by
    intro id
    have total := whole id
    have pending := s.le_pendingAt id w
    have running := s.le_runningAt id w
    split at total <;> omega
  have ready : ∀ id ∈ (s.decode w).pending, ∃ r first, s.reqs.lookup id = some r ∧ r.firstTokenMs = some first := by
    intro id member
    have total := whole id
    have pending := s.le_pendingAt id w
    have positive := List.count_pos_iff.mpr member
    split at total
    next known =>
      obtain ⟨r, found⟩ := AList.mem_iff_exists_lookup.mp known
      obtain ⟨first, emitted⟩ := Option.isSome_iff_exists.mp (ledger.emitted id r found (by omega))
      exact ⟨r, first, found, emitted⟩
    next => omega
  obtain ⟨worker, done, admission⟩ := DecodeWorkerSim.admitLoop_spec s.now orders.tolerances 0
    (ledger.booked w) once ready
  have steps := (ledger.awake w).steps
  rw [List.count_cons_self] at steps
  have stepping : (s.decode w).stepping = true := by
    by_contra resting
    rw [if_neg resting] at steps
    omega
  rw [if_pos stepping] at steps
  exact ⟨worker, done, admission.booked, admission.stepping.trans stepping, by omega, admission.seats, admission.curve⟩

section Pass

variable {w : Fin cfg.topology.decodeWorkers} {worker : DecodeWorkerSim} {time : Millis} {done : List RunningSeq}
  {sched : DecodeScheduler} {reqs : HashMap RequestId (ReqState cfg.topology)} {held : HashMap RequestId ℕ} {free : ℕ}
  {released : List (Scheduled cfg.topology)} {out : Simulator cfg}

theorem Passed.events (passed : Passed s w worker time done sched reqs held free released out) :
    out.events = .decodeStep w :: (released.map (·.event) ++ s.events) := by
  rw [passed.state]
  simp [Simulator.events]

theorem Passed.event_arrival (passed : Passed s w worker time done sched reqs held free released out)
    {event : Event cfg.topology} (member : event ∈ released.map (·.event)) : ∃ client, event = .arrival client := by
  obtain ⟨entry, listed, rfl⟩ := List.mem_map.mp member
  exact (passed.arrivals entry listed).2

theorem Passed.transferred (passed : Passed s w worker time done sched reqs held free released out) :
    out.events.filterMap Event.transferred = s.events.filterMap Event.transferred := by
  have silent : (released.map (·.event)).filterMap Event.transferred = [] := by
    refine List.filterMap_eq_nil_iff.mpr fun event member => ?_
    obtain ⟨client, rfl⟩ := passed.event_arrival member
    rfl
  rw [passed.events, List.filterMap_cons_none rfl, List.filterMap_append, silent, List.nil_append]

/-- All that a pass schedules besides its next step are arrivals, one for each request it finished. -/
theorem Passed.countP_arrival (passed : Passed s w worker time done sched reqs held free released out) :
    (released.map (·.event)).countP Event.isArrival = released.length := by
  have all : ∀ event ∈ released.map (·.event), Event.isArrival event = true := by
    intro event member
    obtain ⟨client, rfl⟩ := passed.event_arrival member
    rfl
  rw [List.countP_eq_length.mpr all, List.length_map]

theorem Passed.count_other (passed : Passed s w worker time done sched reqs held free released out)
    {event : Event cfg.topology} (kind : event.isArrival = false) : (released.map (·.event)).count event = 0 := by
  refine List.count_eq_zero.mpr fun member => ?_
  obtain ⟨client, rfl⟩ := passed.event_arrival member
  cases kind

/-- The worker's own books after the pass. -/
theorem Passed.booked (passed : Passed s w worker time done sched reqs held free released out)
    (booked : worker.Booked) {finished : List RequestId} (retired : worker.sched.Retired finished (done, sched)) :
    ({ worker with sched, held, freeBlocks := free } : DecodeWorkerSim).Booked := by
  refine ⟨retired.keyed, passed.pages.trans booked.pages, fun id => ?_⟩
  change id ∈ held ↔ id ∈ sched.running
  rw [passed.holders, booked.holders, retired.retired, retired.running]
  tauto

/-- A forward pass retires the finished sequences and steps again. -/
theorem Ledger.pass (ledger : Ledger (.decodeStep w :: s.events) s) (booked : worker.Booked)
    (stepping : worker.stepping = true) (idle : s.events.count (.decodeStep w) = 0)
    (seats : ∀ id, worker.pending.count id + worker.sched.running.keys.count id =
      (s.decode w).pending.count id + (s.decode w).sched.running.keys.count id)
    {finished : List RequestId} (retired : worker.sched.Retired finished (done, sched))
    (passed : Passed s w worker time done sched reqs held free released out) : Ledger out.events out := by
  let final : DecodeWorkerSim := { worker with sched, held, freeBlocks := free }
  have left : ∀ id, sched.running.keys.count id + (done.map (·.id)).count id = worker.sched.running.keys.count id :=
    retired.count_keys
  have attached : ∀ id ∈ done.map (·.id), id ∈ s.reqs := by
    intro id member
    by_contra unknown
    obtain ⟨-, -, -, pending, running⟩ := ledger.absent unknown
    have bound := s.le_runningAt id w
    have others := s.le_pendingAt id w
    have total := seats id
    have part := left id
    have positive := List.count_pos_iff.mpr member
    omega
  have moving := passed.transferred
  rw [passed.events] at moving ⊢
  rw [passed.state]
  refine ⟨?_, fun id => ?_, fun id member => ?_, fun id r found alone => ?_, fun v => ?_, ?_, ?_, ledger.registered⟩
  · have clients := ledger.clients
    have size := passed.clients
    rw [List.countP_cons_of_neg (by exact Bool.false_ne_true)] at clients ⊢
    rw [List.countP_append, passed.countP_arrival]
    change _ + reqs.entries.length = _
    omega
  · have before := ledger.places id
    have pending := s.pendingAt_set id w final
    have running := s.runningAt_set id w final
    have same := seats id
    have part := left id
    have live : (if id ∈ reqs then 1 else 0) + (done.map (·.id)).count id = if id ∈ s.reqs then 1 else 0 := by
      rw [List.count_eq_ite_of_nodup retired.once, if_congr (passed.members id) rfl rfl]
      by_cases gone : id ∈ done.map (·.id)
      · simp only [attached id gone, gone, not_true_eq_false, and_false, if_true, if_false]
      · simp only [gone, not_false_eq_true, and_true, if_false, Nat.add_zero]
    unfold Simulator.places at before ⊢
    rw [List.filterMap_cons_none rfl] at before
    rw [moving]
    change s.queued id + (s.xferQueue.map Prod.fst).count id + _ + (s.setDecode w final).pendingAt id +
      (s.setDecode w final).runningAt id = if id ∈ reqs then 1 else 0
    change _ = _ + worker.pending.count id at pending
    change _ = _ + sched.running.keys.count id at running
    omega
  · exact ledger.fresh id ((passed.members id).mp member).1
  · obtain ⟨-, old, before, same⟩ := passed.known id r found
    rw [same]
    exact ledger.emitted id old before alone
  · have ready := ledger.prefill v
    rw [List.count_cons_of_ne (by simp)] at ready
    rw [List.count_cons_of_ne (by simp), List.count_append, passed.count_other rfl, Nat.zero_add]
    exact ready
  · exact forall_setDecode (P := fun _ worker => worker.Booked) w (passed.booked booked retired)
      fun v _ => ledger.booked v
  · refine forall_setDecode (s := s) (P := fun v worker =>
      worker.Awake ((Event.decodeStep w :: (released.map (·.event) ++ s.events)).count (.decodeStep v))) w
      (⟨?_, fun _ => stepping, fun _ => stepping⟩ : final.Awake _) fun v other => ?_
    · rw [List.count_cons_self, List.count_append, passed.count_other rfl, idle]
      exact (if_pos stepping).symm
    · have before := ledger.awake v
      rw [List.count_cons_of_ne (by simpa using Ne.symm other)] at before ⊢
      rw [List.count_append, passed.count_other rfl, Nat.zero_add]
      exact before

end Pass

/-- A decode step is always handled, and leaves the transfers alone. -/
theorem Ledger.decodeStep (orders : EventOrders) {w : Fin cfg.topology.decodeWorkers}
    (ledger : Ledger (.decodeStep w :: s.events) s) :
    ∃ out, s.onDecodeStep orders w = some out ∧ Ledger out.events out ∧ out.xferBusy = s.xferBusy ∧
      out.xferQueue = s.xferQueue ∧
      out.events.filterMap Event.transferred = s.events.filterMap Event.transferred := by
  obtain ⟨worker, admitted, booked, stepping, idle, seats, -⟩ := ledger.admitted orders
  have whole : ∀ id, worker.pending.count id + worker.sched.running.keys.count id =
      (s.decode w).pending.count id + (s.decode w).sched.running.keys.count id +
        (Event.decodeStep w : Event cfg.topology).transferred.toList.count id := seats
  rw [onDecodeStep, admitted]
  simp only
  split
  next empty =>
    have none : worker.sched.running.entries = [] := List.eq_nil_of_length_eq_zero empty
    split
    next drained =>
      let resting : DecodeWorkerSim := { worker with stepping := false }
      have still : resting.Booked := ⟨booked.keyed, booked.pages, booked.holders⟩
      have asleep : resting.Awake (s.events.count (.decodeStep w)) :=
        ⟨idle, fun more => absurd drained more, fun more => absurd none more⟩
      exact ⟨_, rfl, ledger.setDecode ⟨rfl, by simp⟩ (fun v other => by simpa using Ne.symm other) still whole
        (List.nil_append _).symm rfl (by simp) asleep, rfl, rfl, rfl⟩
    next =>
      let again : List (Event cfg.topology) := [.decodeStep w]
      have awake : worker.Awake ((again ++ s.events).count (.decodeStep w)) := by
        refine ⟨?_, fun _ => stepping, fun _ => stepping⟩
        rw [if_pos stepping, List.singleton_append, List.count_cons_self, idle]
      exact ⟨_, rfl, ledger.setDecode ⟨rfl, by simp⟩ (fun v other => by simpa using Ne.symm other) booked whole rfl rfl
        (fun event member => List.mem_singleton.mp member) awake, rfl, rfl, rfl⟩
  next =>
    generalize stepped : worker.sched.onStepSyntheticIn orders.step
      (s.now + worker.curve.stepMs worker.sched.concurrency) (worker.curve.stepMs worker.sched.concurrency) = result
    obtain ⟨done, sched⟩ := result
    obtain ⟨reqs, held, free, released, passed⟩ := forwardPass_spec orders s w worker rfl stepped
    obtain ⟨finished, retired⟩ := DecodeScheduler.onStepSyntheticIn_spec orders.step booked.keyed
      (s.now + worker.curve.stepMs worker.sched.concurrency) (worker.curve.stepMs worker.sched.concurrency)
    rw [stepped] at retired
    refine ⟨_, rfl, ledger.pass booked stepping idle seats retired passed, ?_, ?_, passed.transferred⟩
    · rw [passed.state]
    · rw [passed.state]

/-! ### Every turn -/

theorem tryStartPrefill_transfers (s : Simulator cfg) (w : Fin cfg.topology.prefillWorkers) :
    (s.tryStartPrefill w).events.filterMap Event.transferred = s.events.filterMap Event.transferred := by
  obtain ⟨-, -, -, same | one⟩ := s.tryStartPrefill_frame w
  · rw [same]
  · rw [one, List.filterMap_cons_none rfl]

/-- The books of a state between two events. -/
structure Balanced (events : List (Event cfg.topology)) (s : Simulator cfg) : Prop where
  ledger : Ledger events s
  transfers : Transfers events s

/-- The books do not depend on the order of the events. -/
theorem Balanced.perm {events other : List (Event cfg.topology)} (balanced : Balanced events s)
    (same : events.Perm other) : Balanced other s := by
  obtain ⟨ledger, transfers⟩ := balanced
  refine ⟨⟨?_, fun id => ?_, ledger.fresh, ledger.emitted, fun w => ?_, ledger.booked, fun w => ?_, ledger.registered⟩,
    ⟨?_, transfers.buffers, transfers.waiting⟩⟩
  · rw [← same.countP_eq]
    exact ledger.clients
  · have before := ledger.places id
    unfold Simulator.places at before ⊢
    rw [← (same.filterMap Event.transferred).count_eq]
    exact before
  · rw [← same.count_eq]
    exact ledger.prefill w
  · rw [← same.count_eq]
    exact ledger.awake w
  · rw [← (same.filterMap Event.transferred).length_eq]
    exact transfers.count

/-- Every event is handled without a panic, and the books balance afterwards. -/
theorem Balanced.handle (prefills : 0 < cfg.topology.prefillWorkers) (decodes : 0 < cfg.topology.decodeWorkers)
    (orders : EventOrders) {event : Event cfg.topology} (balanced : Balanced (event :: s.events) s) :
    ∃ out, s.handle orders event = some out ∧ Balanced out.events out := by
  obtain ⟨ledger, transfers⟩ := balanced
  cases event with
  | arrival client =>
    obtain ⟨registry, pw, dw, hit, registered, routed⟩ :=
      onArrival_spec orders client ledger.registered prefills decodes
    have accepted := (ledger.accept registered pw dw hit).tryStartPrefill pw
    refine ⟨_, routed, accepted, ?_⟩
    obtain ⟨-, busy, queue, -⟩ := tryStartPrefill_frame (accept _ client s.nextId pw dw hit) pw
    obtain ⟨-, busy', queue', events⟩ := accept_frame _ client s.nextId pw dw hit
    refine transfers.of_same (busy.trans busy') (queue.trans queue') ((tryStartPrefill_transfers _ pw).trans ?_)
    rw [events]
    rfl
  | prefillDone w =>
    obtain ⟨finished, worker, jobs, reqs, -, -, -, -, -, handedLedger, done⟩ := ledger.prefillDone
    let handed : Simulator cfg := { s.setPrefill w worker with reqs, xferQueue := s.xferQueue ++ jobs }
    have moving := transfers_drain (s := handed) transfers.count transfers.buffers
    have opened : Ledger ([] ++ handed.events) handed := handedLedger
    have drained := opened.drain
    refine ⟨_, done, Ledger.tryStartPrefill drained w, ?_⟩
    obtain ⟨-, busy, queue, -⟩ := handed.drainXferQueue.tryStartPrefill_frame w
    exact moving.of_same busy queue (tryStartPrefill_transfers _ w)
  | kvArrived id w =>
    obtain ⟨landed, moving⟩ := ledger.kvArrived transfers
    exact ⟨_, rfl, landed, moving⟩
  | decodeStep w =>
    obtain ⟨out, done, stepped, busy, queue, moving⟩ := ledger.decodeStep orders
    exact ⟨out, done, stepped, transfers.of_same busy queue (moving.trans rfl)⟩

/-- The books still balance with the event that was popped in hand. -/
theorem Balanced.pop {entry : Scheduled cfg.topology} {heap : List (Scheduled cfg.topology)}
    (balanced : Balanced s.events s) (popped : popEarliest s.heap = some (entry, heap)) :
    Balanced (entry.event :: ({ s with heap, now := entry.time } : Simulator cfg).events)
      { s with heap, now := entry.time } := by
  let opened : Simulator cfg := { s with heap, now := entry.time }
  have same : s.events.Perm (entry.event :: opened.events) :=
    ((popEarliest_perm popped).map fun entry : Scheduled cfg.topology => entry.event).symm
  obtain ⟨ledger, transfers⟩ := balanced.perm same
  exact ⟨⟨ledger.clients, ledger.places, ledger.fresh, ledger.emitted, ledger.prefill, ledger.booked, ledger.awake,
    ledger.registered⟩, ⟨transfers.count, transfers.buffers, transfers.waiting⟩⟩

theorem Balanced.turn (prefills : 0 < cfg.topology.prefillWorkers) (decodes : 0 < cfg.topology.decodeWorkers)
    (orders : EventOrders) (balanced : Balanced s.events s) :
    s.turn orders ≠ .panicked ∧ ∀ entry t, s.turn orders = .handled entry t → Balanced t.events t := by
  unfold Simulator.turn
  split
  next => exact ⟨by simp, by simp⟩
  next entry heap popped =>
    split
    next => exact ⟨by simp, by simp⟩
    next =>
      let opened : Simulator cfg := { s with heap, now := entry.time }
      obtain ⟨out, handled, after⟩ := (balanced.pop popped).handle prefills decodes orders
      rw [show opened.handle orders entry.event = some out from handled]
      refine ⟨by simp, fun other t reached => ?_⟩
      obtain ⟨-, rfl⟩ := Turn.handled.inj reached
      exact after

/-! ### Every run -/

/-- The simulator as a system; the iteration orders of each turn are its label. -/
def system (cfg : Config) : Machine.System (Simulator cfg) EventOrders where
  Init s := s = start cfg
  Step s orders t := ∃ entry, s.turn orders = .handled entry t

theorem balanced_start (prefills : 0 < cfg.topology.prefillWorkers) (decodes : 0 < cfg.topology.decodeWorkers) :
    Balanced (start cfg).events (start cfg) := by
  obtain ⟨arrivals, state, length, each⟩ := start_spec cfg
  have kinds : ∀ event ∈ (start cfg).events, ∃ client, event = .arrival client := by
    intro event member
    rw [state] at member
    obtain ⟨entry, listed, rfl⟩ := List.mem_map.mp member
    exact (each entry listed).2
  have other : ∀ event : Event cfg.topology, event.isArrival = false → (start cfg).events.count event = 0 := by
    intro event kind
    refine List.count_eq_zero.mpr fun member => ?_
    obtain ⟨client, rfl⟩ := kinds event member
    cases kind
  have silent : (start cfg).events.filterMap Event.transferred = [] := by
    refine List.filterMap_eq_nil_iff.mpr fun event member => ?_
    obtain ⟨client, rfl⟩ := kinds event member
    rfl
  have size : (start cfg).events.countP Event.isArrival = cfg.workload.concurrency := by
    rw [List.countP_eq_length.mpr, state]
    · exact (List.length_map _).trans length
    · intro event member
      obtain ⟨client, rfl⟩ := kinds event member
      rfl
  have seats : ∀ id, (new cfg).queued id = 0 ∧ (new cfg).pendingAt id = 0 ∧ (new cfg).runningAt id = 0 :=
    fun id => ⟨Finset.sum_eq_zero fun _ _ => rfl, Finset.sum_eq_zero fun _ _ => rfl, Finset.sum_eq_zero fun w _ => by
      change (newDecodeScheduler cfg).running.keys.count id = 0
      rw [newDecodeScheduler_running]
      rfl⟩
  have empty := newDecodeScheduler_running cfg
  generalize (start cfg).events = events at other silent size
  rw [state]
  refine ⟨⟨?_, fun id => ?_, ?_, ?_, fun w => ?_, fun w => ?_, fun w => ?_, registered_new prefills decodes⟩,
    ⟨?_, Nat.zero_le _, fun waiting => absurd rfl waiting⟩⟩
  · rw [size]
    rfl
  · obtain ⟨queued, pending, running⟩ := seats id
    unfold Simulator.places
    rw [silent]
    change (new cfg).queued id + 0 + 0 + (new cfg).pendingAt id + (new cfg).runningAt id = _
    rw [queued, pending, running]
    rfl
  · intro id member
    exact absurd member (AList.notMem_empty id)
  · intro id r found
    simp [new] at found
  · rw [other _ rfl]
    exact ⟨PrefillScheduler.consistent_new _, .inr ⟨rfl, rfl, rfl⟩⟩
  · refine ⟨keyed_newDecodeScheduler cfg, ?_, fun id => ?_⟩
    · exact Nat.add_zero _
    · change id ∈ (∅ : HashMap RequestId ℕ) ↔ id ∈ (newDecodeScheduler cfg).running
      rw [empty]
      exact Iff.rfl
  · rw [other _ rfl]
    refine ⟨rfl, fun more => absurd rfl more, fun more => absurd ?_ more⟩
    change (newDecodeScheduler cfg).running.entries = []
    rw [empty]
    rfl
  · rw [silent]
    rfl

theorem balanced_run (prefills : 0 < cfg.topology.prefillWorkers) (decodes : 0 < cfg.topology.decodeWorkers)
    {orders : List EventOrders} (run : Machine.Run (system cfg) orders s) : Balanced s.events s := by
  refine run.invariant (P := fun s => Balanced s.events s) ?_ ?_
  · rintro _ rfl
    exact balanced_start prefills decodes
  · rintro before turn after balanced ⟨entry, reached⟩
    exact (balanced.turn prefills decodes turn).2 entry after reached

/-- Handle a number of events, each with the stored iteration orders. -/
def handleMany : ℕ → Simulator cfg → Option (Simulator cfg)
  | 0, s => some s
  | n + 1, s =>
    match s.turn .stored with
    | .handled _ t => handleMany n t
    | _ => none

theorem handleMany_run {n : ℕ} {t : Simulator cfg} {orders : List EventOrders}
    (run : Machine.Run (system cfg) orders s) (done : handleMany n s = some t) :
    Machine.Run (system cfg) (orders ++ List.replicate n .stored) t := by
  induction n generalizing s orders with
  | zero =>
    obtain rfl := Option.some.inj done
    simpa using run
  | succ n ih =>
    rw [handleMany] at done
    split at done
    next entry next reached =>
      have later := ih (run.snoc ⟨entry, reached⟩) done
      rwa [List.append_assoc, List.singleton_append, ← List.replicate_succ] at later
    next => cases done

/-- Nothing is lost or counted twice. -/
structure Conserved (s : Simulator cfg) : Prop where
  clients : s.events.countP Event.isArrival + s.reqs.entries.length = cfg.workload.concurrency
  onePlace : ∀ id ∈ s.reqs, s.places s.events id = 1
  onlyLive : ∀ id, id ∉ s.reqs → s.places s.events id = 0
  pages : ∀ w, (s.decode w).freeBlocks + (s.decode w).held.sum (fun _ blocks => blocks) = (s.decode w).totalBlocks
  holders : ∀ w id, id ∈ (s.decode w).held ↔ id ∈ (s.decode w).sched.running
  transfers : s.xferBusy = (s.events.filterMap Event.transferred).length
  buffers : s.xferBusy ≤ max 1 cfg.kv.xferConcurrency
  waiting : s.xferQueue ≠ [] → s.xferBusy = max 1 cfg.kv.xferConcurrency
  batch : ∀ w, (s.prefill w).busy = true ↔ (s.prefill w).batch.isSome = true
  prefillDone : ∀ w, s.events.count (.prefillDone w) = if (s.prefill w).busy then 1 else 0
  decodeStep : ∀ w, s.events.count (.decodeStep w) = if (s.decode w).stepping then 1 else 0
  working : ∀ w, (s.decode w).pending ≠ [] ∨ (s.decode w).sched.running.entries ≠ [] → (s.decode w).stepping = true

theorem Balanced.conserved (balanced : Balanced s.events s) : s.Conserved := by
  obtain ⟨ledger, transfers⟩ := balanced
  have cap : xferCap cfg = max 1 cfg.kv.xferConcurrency := max_comm _ _
  refine ⟨ledger.clients, fun id known => ?_, fun id unknown => ?_, fun w => (ledger.booked w).pages,
    fun w => (ledger.booked w).holders, transfers.count, cap ▸ transfers.buffers, fun more => ?_, fun w => ?_, fun w => ?_,
    fun w => (ledger.awake w).steps, fun w => ?_⟩
  · rw [ledger.places id, if_pos known]
  · rw [ledger.places id, if_neg unknown]
  · rw [transfers.waiting more, cap]
  · rcases (ledger.prefill w).slot with ⟨busy, -, batch, started, stored, -⟩ | ⟨idle, -, none⟩
    · simp [busy, stored]
    · simp [idle, none]
  · rcases (ledger.prefill w).slot with ⟨busy, one, -⟩ | ⟨idle, zero, -⟩
    · rw [one, busy]
      rfl
    · rw [zero, idle]
      rfl
  · rintro (pending | running)
    · exact (ledger.awake w).pending pending
    · exact (ledger.awake w).running running

/-- Between two events nothing is lost: the books of every reachable state balance, and the next event never panics. -/
theorem run_conserved (cfg : Config) (prefills : 0 < cfg.topology.prefillWorkers)
    (decodes : 0 < cfg.topology.decodeWorkers) {orders : List EventOrders} {s : Simulator cfg}
    (run : Machine.Run (system cfg) orders s) : s.Conserved ∧ ∀ next, s.turn next ≠ .panicked :=
  have balanced := balanced_run prefills decodes run
  ⟨balanced.conserved, fun next => (balanced.turn prefills decodes next).1⟩

/-- One worker of each role, two clients, and one transfer buffer. -/
def smallConfig : Config where
  model := ⟨1, 1, 1⟩
  workload := ⟨4, 3, 2, 0, 1, 0, true⟩
  topology := ⟨1, 1, 1, 1⟩
  scheduler := ⟨16, 4, 8, 1, .edf, true⟩
  kv := ⟨16, 64, 0, 1⟩
  calibration := ⟨⟨1000, 1, 0, 1⟩, ⟨8, 20⟩, 1⟩
  speculation := ⟨false, 0⟩
  slo := ⟨3000, 20, 9 / 10⟩

/-- Two arrivals, a batch, a transfer and a decode step later one request decodes and the other one is in prefill. -/
theorem run_conserved_five_events :
    ∃ s : Simulator smallConfig, Machine.Run (system smallConfig) (List.replicate 5 .stored) s ∧
      (s.decode ⟨0, by decide⟩).sched.concurrency = 1 ∧ (s.prefill ⟨0, by decide⟩).busy = true ∧ s.Conserved := by
  have computed : (handleMany 5 (start smallConfig)).any fun s =>
      decide ((s.decode ⟨0, by decide⟩).sched.concurrency = 1 ∧ (s.prefill ⟨0, by decide⟩).busy = true) := by
    decide +kernel
  obtain ⟨s, done, decoding, busy⟩ : ∃ s, handleMany 5 (start smallConfig) = some s ∧
      (s.decode ⟨0, by decide⟩).sched.concurrency = 1 ∧ (s.prefill ⟨0, by decide⟩).busy = true := by
    simpa [Option.any_eq_true] using computed
  have run := handleMany_run (.start rfl) done
  exact ⟨s, run, decoding, busy, (run_conserved smallConfig (by decide) (by decide) run).1⟩

end Simulator

end TrtLlm.Sim
