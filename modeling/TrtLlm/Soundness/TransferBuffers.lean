import TrtLlm.Machine.SlotPool
import TrtLlm.Soundness.SimConservation

/-! # Where the simulator's transfer buffers live

The configuration gives each decode worker its transfer buffers, and the capacity model multiplies them by the number
of workers. The simulator has one pool for all workers. Seen through that pool, a request that waits has its own
worker's buffers in use exactly as long as every batch finds free buffers or goes, with all that is under way, to one
worker.
-/

namespace TrtLlm.Sim

open KvCache Routing Sched

/-- The decode worker a transfer goes to. -/
def Event.destination {topology : TopologyConfig} : Event topology → Option (Fin topology.decodeWorkers)
  | .kvArrived _ w => some w
  | _ => none

namespace Simulator

variable {cfg : Config} {s t : Simulator cfg}

/-- The destinations of the transfers in flight. -/
def flights (s : Simulator cfg) : List (Fin cfg.topology.decodeWorkers) := s.events.filterMap Event.destination

/-- The transfers as a pool of slots with the decode workers as targets. -/
def transferPool (s : Simulator cfg) : Machine.SlotPool (Fin cfg.topology.decodeWorkers) :=
  ⟨s.flights, s.xferQueue.map Prod.snd⟩

/-- A request that waits for a buffer has all buffers of its own decode worker in use. -/
def BuffersPerWorker (s : Simulator cfg) : Prop :=
  ∀ id w, (id, w) ∈ s.xferQueue → s.flights.count w = max 1 cfg.kv.xferConcurrency

/-- The decode workers of the prompts whose batch ends at a time. -/
def finishing (s : Simulator cfg) (now : Millis) (w : Fin cfg.topology.prefillWorkers) :
    List (Fin cfg.topology.decodeWorkers) :=
  match (s.prefill w).batch with
  | none => []
  | some (batch, started) =>
    ((s.prefill w).finishBatch batch (now - started)).1.filterMap fun id => (s.reqs.lookup id).map (·.decodeWorker)

/-- The buffers in use are the transfers in flight. -/
structure Pooled (s : Simulator cfg) : Prop where
  count : s.xferBusy = s.flights.length
  settled : s.transferPool.Settled (xferCap cfg)

theorem buffersPerWorker_iff : s.BuffersPerWorker ↔ s.transferPool.Dedicated (xferCap cfg) := by
  have cap : max 1 cfg.kv.xferConcurrency = xferCap cfg := max_comm _ _
  simp only [BuffersPerWorker, Machine.SlotPool.Dedicated, transferPool, Multiset.coe_count, cap, List.mem_map]
  constructor
  · rintro each w ⟨⟨id, w⟩, member, rfl⟩
    exact each id w member
  · intro each id w member
    exact each w ⟨(id, w), member, rfl⟩

/-! ### What each handler does to the pool -/

/-- Nothing about the transfers changes. -/
structure SameTransfers (s t : Simulator cfg) : Prop where
  busy : t.xferBusy = s.xferBusy
  queue : t.xferQueue = s.xferQueue
  flights : t.flights = s.flights

theorem SameTransfers.trans {u : Simulator cfg} (first : SameTransfers s t) (second : SameTransfers t u) :
    SameTransfers s u :=
  ⟨second.busy.trans first.busy, second.queue.trans first.queue, second.flights.trans first.flights⟩

theorem SameTransfers.pool (same : SameTransfers s t) : t.transferPool = s.transferPool := by
  rw [transferPool, transferPool, same.flights, same.queue]

theorem sameTransfers_tryStartPrefill (s : Simulator cfg) (w : Fin cfg.topology.prefillWorkers) :
    SameTransfers s (s.tryStartPrefill w) := by
  obtain ⟨-, busy, queue, same | one⟩ := s.tryStartPrefill_frame w
  · exact ⟨busy, queue, congrArg (List.filterMap Event.destination) same⟩
  · exact ⟨busy, queue, (congrArg (List.filterMap Event.destination) one).trans (List.filterMap_cons_none rfl)⟩

theorem sameTransfers_onArrival (orders : EventOrders) {client : ℕ} (done : s.onArrival orders client = some t) :
    SameTransfers s t := by
  unfold onArrival at done
  simp only at done
  split at done
  next => cases done
  next =>
    split at done
    next =>
      cases done
      refine SameTransfers.trans ?_ (sameTransfers_tryStartPrefill _ _)
      obtain ⟨-, busy, queue, events⟩ := accept_frame _ client s.nextId _ _ _
      exact ⟨busy, queue, congrArg (List.filterMap Event.destination) events⟩
    next => cases done

theorem sameTransfers_onDecodeStep (orders : EventOrders) {w : Fin cfg.topology.decodeWorkers}
    (done : s.onDecodeStep orders w = some t) : SameTransfers s t := by
  unfold onDecodeStep at done
  split at done
  next => cases done
  next worker admitted =>
    split at done
    next =>
      split at done
      next =>
        cases done
        exact ⟨rfl, rfl, rfl⟩
      next =>
        cases done
        exact ⟨rfl, rfl, List.filterMap_cons_none rfl⟩
    next =>
      cases done
      obtain ⟨reqs, held, free, released, passed⟩ := forwardPass_spec orders s w worker rfl rfl
      have silent : (released.map (·.event)).filterMap Event.destination = [] := by
        refine List.filterMap_eq_nil_iff.mpr fun event member => ?_
        obtain ⟨client, rfl⟩ := passed.event_arrival member
        rfl
      refine ⟨by rw [passed.state], by rw [passed.state], ?_⟩
      rw [flights, passed.events, List.filterMap_cons_none rfl, List.filterMap_append, silent, List.nil_append]
      rfl

/-- The queue of transfers drains as the line of the pool does. -/
theorem pool_drain (count : s.xferBusy = s.flights.length) (room : s.xferBusy ≤ xferCap cfg) :
    s.drainXferQueue.transferPool = s.transferPool.drain (xferCap cfg) ∧
      s.drainXferQueue.xferBusy = s.drainXferQueue.flights.length := by
  obtain ⟨started, drained⟩ := drainLoop_spec s.xferQueue s
  have state : s.drainXferQueue = _ := drained.state
  have moved : ((started.map (·.event)).filterMap Event.destination).Perm
      ((s.xferQueue.map Prod.snd).take started.length) := by
    refine (drained.events.filterMap Event.destination).trans (List.Perm.of_eq ?_)
    rw [List.filterMap_map, ← List.map_take]
    exact congrFun List.filterMap_eq_map _
  have flights : s.drainXferQueue.flights = (started.map (·.event)).filterMap Event.destination ++ s.flights := by
    rw [state, Simulator.flights, Simulator.events, List.map_append, List.filterMap_append]
    rfl
  have length : ((started.map (·.event)).filterMap Event.destination).length = started.length := by
    rw [moved.length_eq, List.length_take, List.length_map, Nat.min_eq_left drained.within]
  refine ⟨?_, ?_⟩
  · have limit := drained.room room
    have full := drained.full
    have within := drained.within
    -- the number started is the number of free buffers, or the whole queue
    have many : min (xferCap cfg - s.flights.length) s.xferQueue.length = min started.length s.xferQueue.length := by
      by_cases rest : s.xferQueue.drop started.length = []
      · rw [List.drop_eq_nil_iff] at rest
        omega
      · have enough := full rest
        omega
    have taken : (s.xferQueue.map Prod.snd).take (xferCap cfg - s.flights.length) =
        (s.xferQueue.map Prod.snd).take started.length := by rwa [List.take_eq_take_iff, List.length_map]
    have left : (s.xferQueue.map Prod.snd).drop (xferCap cfg - s.flights.length) =
        (s.xferQueue.map Prod.snd).drop started.length := by rwa [List.drop_eq_drop_iff, List.length_map]
    rw [Machine.SlotPool.drain, transferPool, transferPool, flights]
    simp only [Multiset.coe_card, taken, left]
    rw [state]
    congr 1
    · rw [← Multiset.coe_add, Multiset.coe_eq_coe.mpr moved, add_comm]
    · rw [List.map_drop]
  · rw [flights, List.length_append, length, state, count]
    exact Nat.add_comm _ _

theorem handOff_queue {finished : List RequestId} (done : handOff finished s = some t) :
    t.xferBusy = s.xferBusy ∧ t.events = s.events ∧ t.xferQueue.map Prod.snd =
      s.xferQueue.map Prod.snd ++ finished.filterMap fun id => (s.reqs.lookup id).map (·.decodeWorker) := by
  induction finished generalizing s with
  | nil =>
    cases done
    simp
  | cons id finished ih =>
    rw [handOff] at done
    split at done
    next => cases done
    next r found =>
      obtain ⟨busy, events, queue⟩ := ih done
      have kept (other : RequestId) : ((s.firstToken id r).reqs.lookup other).map (·.decodeWorker) =
          (s.reqs.lookup other).map (·.decodeWorker) := by
        by_cases here : other = id
        · subst here
          simp [firstToken, found]
        · simp [firstToken, AList.lookup_insert_ne here]
      refine ⟨busy, events, ?_⟩
      rw [queue, List.filterMap_cons, found, Option.map_some]
      simp only [kept]
      simp [firstToken]

/-- The pool after the event of a turn: a batch offers its prompts, a transfer that lands frees its buffer. -/
def poolAfter (s : Simulator cfg) (entry : Scheduled cfg.topology) : Machine.SlotPool (Fin cfg.topology.decodeWorkers) :=
  match entry.event with
  | .prefillDone w => s.transferPool.offer (xferCap cfg) (s.finishing entry.time w)
  | .kvArrived _ w => s.transferPool.land (xferCap cfg) w
  | _ => s.transferPool

theorem Pooled.onPrefillDone (pooled : s.Pooled) {w : Fin cfg.topology.prefillWorkers}
    (done : s.onPrefillDone w = some t) :
    t.transferPool = s.transferPool.offer (xferCap cfg) (s.finishing s.now w) ∧ t.xferBusy = t.flights.length := by
  unfold Simulator.onPrefillDone at done
  unfold finishing
  cases stored : (s.prefill w).batch with
  | none =>
    simp only [stored] at done
    cases done
    exact ⟨(pooled.settled.offer_nil).symm, pooled.count⟩
  | some running =>
    obtain ⟨batch, started⟩ := running
    simp only [stored] at done
    split at done
    next => cases done
    next handed handedOff =>
      cases done
      obtain ⟨busy, events, queue⟩ := handOff_queue handedOff
      have flights : handed.flights = s.flights := congrArg (List.filterMap Event.destination) events
      have offered : handed.transferPool = { s.transferPool with
          waiting := s.transferPool.waiting ++ ((s.prefill w).finishBatch batch (s.now - started)).1.filterMap
            fun id => (s.reqs.lookup id).map (·.decodeWorker) } := by
        rw [transferPool, transferPool, flights, queue]
        rfl
      have count : handed.xferBusy = handed.flights.length := busy.trans (pooled.count.trans (by rw [flights]))
      have slots : handed.xferBusy ≤ xferCap cfg := by
        rw [count, flights]
        exact pooled.settled.slots
      obtain ⟨pool, counted⟩ := pool_drain count slots
      have same := sameTransfers_tryStartPrefill handed.drainXferQueue w
      refine ⟨?_, ?_⟩
      · rw [same.pool, pool, offered]
        rfl
      · rw [same.busy, same.flights]
        exact counted

/-- A landing: the event is out of the heap already, its buffer is still counted as busy. -/
theorem onKvArrived_pool (id : RequestId) (w : Fin cfg.topology.decodeWorkers)
    (count : s.xferBusy = s.flights.length + 1) (slots : s.xferBusy ≤ xferCap cfg) :
    (s.onKvArrived id w).transferPool = s.transferPool.drain (xferCap cfg) ∧
      (s.onKvArrived id w).xferBusy = (s.onKvArrived id w).flights.length := by
  obtain ⟨pool, counted⟩ := pool_drain (s := { s with xferBusy := s.xferBusy - 1 })
    (by change s.xferBusy - 1 = s.flights.length; omega) (by change s.xferBusy - 1 ≤ _; omega)
  have same : SameTransfers ({ s with xferBusy := s.xferBusy - 1 } : Simulator cfg).drainXferQueue
      (s.onKvArrived id w) := by
    unfold onKvArrived
    simp only
    split
    · exact ⟨rfl, rfl, rfl⟩
    · exact ⟨rfl, rfl, List.filterMap_cons_none rfl⟩
  refine ⟨same.pool.trans pool, ?_⟩
  rw [same.busy, same.flights]
  exact counted

/-- Every turn does to the transfers what it does to the pool. -/
theorem Pooled.turn (pooled : s.Pooled) {orders : EventOrders} {entry : Scheduled cfg.topology}
    (reached : s.turn orders = .handled entry t) : t.transferPool = s.poolAfter entry ∧ t.Pooled := by
  obtain ⟨heap, popped, -, handled⟩ := turn_handled reached
  let opened : Simulator cfg := { s with heap, now := entry.time }
  have listed : s.flights.Perm ((entry.event :: opened.events).filterMap Event.destination) :=
    (((popEarliest_perm popped).map fun entry : Scheduled cfg.topology => entry.event).filterMap Event.destination).symm
  have busy := pooled.count
  have slots := pooled.settled.slots
  have quiet : entry.event.destination = none → opened.transferPool = s.transferPool ∧ opened.Pooled := by
    intro elsewhere
    rw [List.filterMap_cons_none elsewhere] at listed
    have pool : opened.transferPool = s.transferPool := by
      rw [transferPool, transferPool, Multiset.coe_eq_coe.mpr listed]
      rfl
    exact ⟨pool, busy.trans listed.length_eq, pool ▸ pooled.settled⟩
  have moved : t.transferPool = s.poolAfter entry ∧ t.xferBusy = t.flights.length := by
    obtain ⟨time, seq, event⟩ := entry
    cases event with
    | arrival client =>
      obtain ⟨pool, kept⟩ := quiet rfl
      have same := sameTransfers_onArrival orders handled
      exact ⟨same.pool.trans pool, by rw [same.busy, same.flights]; exact kept.count⟩
    | prefillDone w =>
      obtain ⟨pool, kept⟩ := quiet rfl
      obtain ⟨offered, counted⟩ := kept.onPrefillDone handled
      exact ⟨offered.trans (congrArg (Machine.SlotPool.offer _ _) pool), counted⟩
    | kvArrived id w =>
      rw [List.filterMap_cons_some (f := Event.destination) (b := w) rfl] at listed
      have full : opened.xferBusy = opened.flights.length + 1 := busy.trans listed.length_eq
      obtain ⟨pool, counted⟩ := onKvArrived_pool id w full (busy.trans_le slots)
      have erased : (s.flights : Multiset (Fin cfg.topology.decodeWorkers)).erase w = opened.flights := by
        rw [Multiset.coe_eq_coe.mpr listed, ← Multiset.cons_coe, Multiset.erase_cons_head]
        rfl
      obtain rfl := Option.some.inj handled
      refine ⟨pool.trans ?_, counted⟩
      change _ = Machine.SlotPool.land (xferCap cfg) w s.transferPool
      rw [Machine.SlotPool.land, transferPool, transferPool, erased]
    | decodeStep w =>
      obtain ⟨pool, kept⟩ := quiet rfl
      have same := sameTransfers_onDecodeStep orders handled
      exact ⟨same.pool.trans pool, by rw [same.busy, same.flights]; exact kept.count⟩
  refine ⟨moved.1, moved.2, ?_⟩
  rw [moved.1]
  unfold poolAfter
  split
  · exact pooled.settled.offer _
  · exact pooled.settled.land _
  · exact pooled.settled

/-! ### Every run -/

/-- The batch that ends next, if one does, finds buffers for all its prompts, or everything under way goes to one decode
worker. -/
def RoomOrOneWorker (s : Simulator cfg) : Prop :=
  ∀ entry heap w, popEarliest s.heap = some (entry, heap) → entry.event = .prefillDone w →
    s.flights.length + s.xferQueue.length + (s.finishing entry.time w).length ≤ max 1 cfg.kv.xferConcurrency ∨
      ∃ target, ∀ other ∈ s.flights ++ s.xferQueue.map Prod.snd ++ s.finishing entry.time w, other = target

theorem xferCap_pos : 0 < xferCap cfg := Nat.lt_of_lt_of_le Nat.one_pos (Nat.le_max_right _ _)

theorem pooled_start : (start cfg).Pooled ∧ (start cfg).BuffersPerWorker := by
  obtain ⟨arrivals, state, -, each⟩ := start_spec cfg
  have queue : (start cfg).xferQueue = [] := by
    rw [state]
    rfl
  have silent : (start cfg).flights = [] := by
    refine List.filterMap_eq_nil_iff.mpr fun event member => ?_
    rw [state] at member
    obtain ⟨entry, listed, rfl⟩ := List.mem_map.mp member
    obtain ⟨-, client, kind⟩ := each entry listed
    rw [kind]
    rfl
  refine ⟨⟨?_, ?_, fun waiting => absurd ?_ waiting⟩, fun id w member => ?_⟩
  · rw [silent, state]
    rfl
  · rw [transferPool, silent]
    exact Nat.zero_le _
  · rw [transferPool, queue, List.map_nil]
  · rw [queue] at member
    exact absurd member List.not_mem_nil

/-- A turn keeps the buffers per worker exactly when the batch that ends in it finds room or goes to one worker. -/
theorem Pooled.turn_iff (pooled : s.Pooled) (before : s.BuffersPerWorker) {orders : EventOrders}
    {entry : Scheduled cfg.topology} (reached : s.turn orders = .handled entry t) :
    t.BuffersPerWorker ↔ s.RoomOrOneWorker := by
  obtain ⟨heap, popped, -, -⟩ := turn_handled reached
  have cap : max 1 cfg.kv.xferConcurrency = xferCap cfg := max_comm _ _
  have next : s.RoomOrOneWorker ↔ ∀ w, entry.event = .prefillDone w →
      s.flights.length + s.xferQueue.length + (s.finishing entry.time w).length ≤ xferCap cfg ∨
        ∃ target, ∀ other ∈ s.flights ++ s.xferQueue.map Prod.snd ++ s.finishing entry.time w, other = target := by
    rw [RoomOrOneWorker, cap]
    refine ⟨fun room w => room entry heap w popped, fun room other rest w same => ?_⟩
    obtain ⟨rfl, rfl⟩ := Prod.mk.inj (Option.some.inj (popped.symm.trans same))
    exact room w
  rw [buffersPerWorker_iff] at before ⊢
  rw [(pooled.turn reached).1, next, poolAfter]
  split
  next w event =>
    rw [pooled.settled.dedicated_offer_iff xferCap_pos]
    simp only [event, Event.prefillDone.injEq, forall_eq', transferPool, Multiset.coe_card, List.length_map,
      Multiset.mem_coe, List.append_assoc, List.mem_append (s := s.flights), or_imp, forall_and]
  next id w event =>
    exact iff_of_true (pooled.settled.dedicated_land xferCap_pos before w) fun v same => by simp [event] at same
  next noBatch noLanding => exact iff_of_true before fun w same => absurd same (noBatch w)

/-- In a run whose batches always find room or go to one worker, the simulator keeps the buffers the configuration
gives each decode worker; a turn without that breaks it. -/
theorem buffers_per_worker_of_room {orders : List EventOrders}
    (run : Machine.Run ((system cfg).restrict fun s _ => s.RoomOrOneWorker) orders s) :
    s.BuffersPerWorker ∧ ∀ next entry t, s.turn next = .handled entry t → (t.BuffersPerWorker ↔ s.RoomOrOneWorker) := by
  have invariant : s.Pooled ∧ s.BuffersPerWorker := by
    refine run.invariant (P := fun s => s.Pooled ∧ s.BuffersPerWorker) ?_ ?_
    · rintro _ rfl
      exact pooled_start
    · rintro before orders after ⟨pooled, dedicated⟩ ⟨room, entry, reached⟩
      exact ⟨(pooled.turn reached).2, (pooled.turn_iff dedicated reached).mpr room⟩
  exact ⟨invariant.2, fun next entry t reached => invariant.1.turn_iff invariant.2 reached⟩

/-- With one decode worker there is nothing to share. -/
theorem roomOrOneWorker_of_one (one : cfg.topology.decodeWorkers = 1) (s : Simulator cfg) : s.RoomOrOneWorker := by
  intro entry heap w _ _
  refine .inr ⟨⟨0, by omega⟩, fun other _ => Fin.ext ?_⟩
  have bound := other.isLt
  omega

/-- Three clients, slow transfers, one buffer, and a number of decode workers. -/
def slowTransfers (decodeWorkers : ℕ) : Config :=
  { smallConfig with
    workload := ⟨4, 8, 3, 0, 1, 0, true⟩
    topology := ⟨1, 1, decodeWorkers, 1⟩
    calibration := ⟨⟨1000, 1, 0, 1⟩, ⟨8, 20⟩, 1 / 10 ^ 7⟩ }

/-- With one decode worker two requests wait while a third one is transferred. -/
theorem buffers_per_worker_of_room_five_events :
    ∃ s : Simulator (slowTransfers 1), s.xferQueue.length = 2 ∧ s.flights.length = 1 ∧ s.BuffersPerWorker := by
  have computed : (handleMany 5 (start (slowTransfers 1))).any fun s =>
      decide (s.xferQueue.length = 2 ∧ s.flights.length = 1) := by
    decide +kernel
  obtain ⟨s, done, waiting, flying⟩ : ∃ s, handleMany 5 (start (slowTransfers 1)) = some s ∧ s.xferQueue.length = 2 ∧
      s.flights.length = 1 := by
    simpa [Option.any_eq_true] using computed
  have run := (handleMany_run (.start rfl) done).restrict fun s _ => roomOrOneWorker_of_one rfl s
  exact ⟨s, waiting, flying, (buffers_per_worker_of_room run).1⟩

/-- With two decode workers a request for one of them waits while the only transfer in flight goes to the other. -/
theorem two_workers_share_buffers :
    ∃ s : Simulator (slowTransfers 2), Machine.Run (system (slowTransfers 2)) (List.replicate 17 .stored) s ∧
      ¬ s.BuffersPerWorker := by
  have computed : (handleMany 17 (start (slowTransfers 2))).any fun s =>
      decide (∃ job ∈ s.xferQueue, s.flights.count job.2 = 0) := by
    decide +kernel
  obtain ⟨s, done, id, w, waits, idle⟩ : ∃ s, handleMany 17 (start (slowTransfers 2)) = some s ∧
      ∃ id w, (id, w) ∈ s.xferQueue ∧ s.flights.count w = 0 := by
    simpa [Option.any_eq_true] using computed
  refine ⟨s, handleMany_run (.start rfl) done, fun dedicated => ?_⟩
  have busy := dedicated id w waits
  rw [idle] at busy
  exact absurd busy (by decide)

end Simulator

end TrtLlm.Sim
