import TrtLlm.Model.Sim.Report
import TrtLlm.Soundness.OrderFree
import TrtLlm.Soundness.SimSteps

/-! # Simulations do not depend on iteration order

The order in which a step retires sequences reaches the next arrivals: it decides which client's event gets which
sequence number. Nothing else depends on it. Two simulations of one configuration, with any iteration orders, stay alike:
they differ in client labels, in the order of the outcomes and in how the maps are stored. None of that is in the
report.
-/

namespace TrtLlm.Sim

open Engine KvCache Routing Sched

variable {topology : TopologyConfig}

/-- An event without its client. -/
def Event.unlabel : Event topology → Event topology
  | .arrival _ => .arrival 0
  | event => event

def Scheduled.unlabel (entry : Scheduled topology) : Scheduled topology := { entry with event := entry.event.unlabel }

/-- The heap is popped by time and number alone. -/
theorem popEarliest_unlabel (heap : List (Scheduled topology)) : popEarliest (heap.map Scheduled.unlabel) =
    (popEarliest heap).map (Prod.map Scheduled.unlabel (List.map Scheduled.unlabel)) := by
  induction heap with
  | nil => rfl
  | cons entry heap ih =>
    rw [List.map_cons, popEarliest, popEarliest, ih]
    cases popEarliest heap with
    | none => rfl
    | some popped =>
      by_cases before : entry.key ≤ popped.1.key
      · have same : entry.unlabel.key ≤ popped.1.unlabel.key := before
        simp [before, same]
      · have same : ¬entry.unlabel.key ≤ popped.1.unlabel.key := before
        simp [before, same]

/-- Two requests that differ at most in their client. -/
inductive ReqState.Alike (r : ReqState topology) : ReqState topology → Prop
  | intro (client : ℕ) : Alike r { r with client }

/-- Two maps of requests that differ at most in the clients and in how they are stored. -/
def ReqsAlike (reqs reqs' : HashMap RequestId (ReqState topology)) : Prop :=
  ∀ id, Option.Rel ReqState.Alike (reqs.lookup id) (reqs'.lookup id)

namespace ReqsAlike

variable {reqs reqs' reqs'' : HashMap RequestId (ReqState topology)}

theorem refl (reqs : HashMap RequestId (ReqState topology)) : ReqsAlike reqs reqs := by
  intro id
  cases reqs.lookup id with
  | none => exact .none
  | some r => exact .some (.intro r.client)

theorem trans (first : ReqsAlike reqs reqs') (second : ReqsAlike reqs' reqs'') : ReqsAlike reqs reqs'' := by
  intro id
  have early := first id
  have late := second id
  revert early late
  generalize reqs.lookup id = found, reqs'.lookup id = found', reqs''.lookup id = found''
  rintro ⟨⟨_⟩⟩ ⟨⟨_⟩⟩
  · exact .some (.intro _)
  · exact .none

theorem insert (alike : ReqsAlike reqs reqs') (id : RequestId) {r r' : ReqState topology} (states : r.Alike r') :
    ReqsAlike (reqs.insert id r) (reqs'.insert id r') := by
  intro other
  by_cases here : other = id
  · rw [here, AList.lookup_insert, AList.lookup_insert]
    exact .some states
  · rw [AList.lookup_insert_ne here, AList.lookup_insert_ne here]
    exact alike other

theorem erase (alike : ReqsAlike reqs reqs') (id : RequestId) : ReqsAlike (reqs.erase id) (reqs'.erase id) := by
  intro other
  by_cases here : other = id
  · rw [here, AList.lookup_erase, AList.lookup_erase]
    exact .none
  · rw [AList.lookup_erase_ne here, AList.lookup_erase_ne here]
    exact alike other

theorem of_same (same : HashMap.Same reqs reqs') : ReqsAlike reqs reqs' := fun id => same id ▸ refl reqs id

end ReqsAlike

/-! ### Decode workers -/

namespace DecodeWorkerSim

/-- Two decode workers that differ at most in how their maps are stored; running sequences sit under their ids. -/
inductive Alike (a : DecodeWorkerSim) : DecodeWorkerSim → Prop
  | intro {sched : DecodeScheduler} {held : HashMap RequestId ℕ} (keyed : a.sched.Keyed) (scheds : a.sched.Alike sched)
      (holds : a.held.Same held) : Alike a { a with sched, held }

namespace Alike

variable {a b c : DecodeWorkerSim}

theorem trans (first : Alike a b) (second : Alike b c) : Alike a c := by
  obtain ⟨keyed, scheds, holds⟩ := first
  obtain ⟨-, scheds', holds'⟩ := second
  exact .intro keyed (scheds.trans scheds') (holds.trans holds')

theorem refl (keyed : a.sched.Keyed) : Alike a a := .intro keyed (.refl _) (.refl _)

theorem keyed (alike : Alike a b) : a.sched.Keyed := by
  obtain ⟨keyed, -, -⟩ := alike
  exact keyed

theorem right (alike : Alike a b) : Alike b b := by
  obtain ⟨keyed, scheds, -⟩ := alike
  exact .refl fun id seq found => keyed id seq ((scheds.same id).trans found)

theorem giveBack (alike : Alike a b) (id : RequestId) : Alike (a.giveBack id) (b.giveBack id) := by
  obtain ⟨keyed, scheds, holds⟩ := alike
  simp only [DecodeWorkerSim.giveBack, holds id]
  split
  · exact .intro keyed scheds (holds.erase id)
  · exact .intro keyed scheds holds

theorem giveBack_swap (alike : Alike a b) {first second : RequestId} (apart : first ≠ second) :
    Alike ((a.giveBack first).giveBack second) ((b.giveBack second).giveBack first) := by
  refine .trans ((alike.giveBack first).giveBack second) ?_
  have keyed := alike.right.keyed
  cases here : b.held.lookup first <;> cases there : b.held.lookup second <;>
    simp only [DecodeWorkerSim.giveBack, here, there, AList.lookup_erase_ne apart, AList.lookup_erase_ne (Ne.symm apart)]
  · exact .refl keyed
  · exact .refl keyed
  · exact .refl keyed
  · rw [Nat.add_right_comm]
    exact .intro keyed (.refl _) (HashMap.Same.erase_comm (.refl _) first second)

theorem requeue (alike : Alike a b) (pending : List RequestId) : Alike { a with pending } { b with pending } := by
  obtain ⟨keyed, scheds, holds⟩ := alike
  exact .intro keyed scheds holds

theorem stepping (alike : Alike a b) : a.stepping = b.stepping := by
  obtain ⟨-, -, -⟩ := alike
  rfl

theorem pending (alike : Alike a b) : a.pending = b.pending := by
  obtain ⟨-, -, -⟩ := alike
  rfl

theorem curve (alike : Alike a b) : a.curve = b.curve := by
  obtain ⟨-, -, -⟩ := alike
  rfl

theorem concurrency (alike : Alike a b) : a.sched.concurrency = b.sched.concurrency := by
  obtain ⟨-, scheds, -⟩ := alike
  exact scheds.concurrency

theorem rest (alike : Alike a b) : Alike { a with stepping := false } { b with stepping := false } := by
  obtain ⟨keyed, scheds, holds⟩ := alike
  exact .intro keyed scheds holds

theorem land (alike : Alike a b) (id : RequestId) :
    Alike { a with pending := a.pending ++ [id], stepping := true }
      { b with pending := b.pending ++ [id], stepping := true } := by
  obtain ⟨keyed, scheds, holds⟩ := alike
  exact .intro keyed scheds holds

theorem take (alike : Alike a b) (id : RequestId) (need : ℕ) (first now : Millis) (osl : ℕ) :
    Alike (a.take id need first now osl) (b.take id need first now osl) := by
  obtain ⟨keyed, scheds, holds⟩ := alike
  exact .intro (keyed.admitted _) (scheds.admitAt _ _) (holds.insert _ _)

end Alike

/-- Admission reads the requests up to their clients. -/
theorem Alike.admitLoop {cfg : Config} {reqs reqs' : HashMap RequestId (ReqState cfg.topology)}
    (requests : ReqsAlike reqs reqs') (now : Millis) (tolerances tolerances' : ℕ → IterOrder)
    (pending : List RequestId) (turn : ℕ) {a b : DecodeWorkerSim} (alike : Alike a b) :
    Option.Rel Alike (a.admitLoop reqs now tolerances turn pending) (b.admitLoop reqs' now tolerances' turn pending) := by
  induction pending generalizing turn a b with
  | nil => exact .some (alike.requeue [])
  | cons id pending ih =>
    rw [DecodeWorkerSim.admitLoop, DecodeWorkerSim.admitLoop]
    have request := requests id
    revert request
    generalize reqs.lookup id = found, reqs'.lookup id = found'
    rintro (⟨⟨client⟩⟩ | _)
    next r =>
      simp only
      have decision : (a.sched.rehash (tolerances turn)).canAdmit
          (decide (blocksNeeded cfg r + a.watermarkBlocks ≤ a.freeBlocks)) =
          (b.sched.rehash (tolerances' turn)).canAdmit
            (decide (blocksNeeded cfg { r with client } + b.watermarkBlocks ≤ b.freeBlocks)) := by
        obtain ⟨-, scheds, -⟩ := alike
        exact (scheds.rehash _ _).canAdmit _
      rw [decision]
      generalize (b.sched.rehash (tolerances' turn)).canAdmit _ = answer
      have noted : Alike { a with sched := a.sched.note answer } { b with sched := b.sched.note answer } := by
        obtain ⟨keyed, scheds, holds⟩ := alike
        exact .intro (keyed.note answer) (scheds.note answer) holds
      split
      next =>
        split
        next => exact .none
        next first _ => exact ih (turn + 1) (noted.take id (blocksNeeded cfg r) first now r.osl)
      next => exact .some (noted.requeue (id :: pending))
    next => exact ih (turn + 1) alike

end DecodeWorkerSim

/-! ### Simulations -/

namespace Simulator

variable {cfg : Config}

/-- Two states that differ at most in client labels, in the order of the outcomes and in how maps are stored. -/
inductive Alike (s : Simulator cfg) : Simulator cfg → Prop
  | intro {heap : List (Scheduled cfg.topology)} {reqs : HashMap RequestId (ReqState cfg.topology)}
      {decode : Fin cfg.topology.decodeWorkers → DecodeWorkerSim} {outcomes : List RequestOutcome}
      (heaps : s.heap.map Scheduled.unlabel = heap.map Scheduled.unlabel) (requests : ReqsAlike s.reqs reqs)
      (workers : ∀ w, (s.decode w).Alike (decode w)) (scores : s.outcomes.Perm outcomes)
      (registry : s.router.registry.Keyed) : Alike s { s with heap, reqs, decode, outcomes }

namespace Alike

variable {s t u : Simulator cfg}

theorem trans (first : Alike s t) (second : Alike t u) : Alike s u := by
  obtain ⟨heaps, requests, workers, scores, registry⟩ := first
  obtain ⟨heaps', requests', workers', scores', -⟩ := second
  exact .intro (heaps.trans heaps') (requests.trans requests') (fun w => (workers w).trans (workers' w))
    (scores.trans scores') registry

theorem right (alike : Alike s t) : Alike t t := by
  obtain ⟨-, -, workers, -, registry⟩ := alike
  exact .intro rfl (.refl _) (fun w => (workers w).right) (.refl _) registry

theorem push (alike : Alike s t) {time time' : Millis} (times : time = time') {event event' : Event cfg.topology}
    (events : event.unlabel = event'.unlabel) : Alike (s.push time event) (t.push time' event') := by
  obtain ⟨heaps, requests, workers, scores, registry⟩ := alike
  refine .intro ?_ requests workers scores registry
  have entry : Scheduled.unlabel ⟨time, s.seq + 1, event⟩ = Scheduled.unlabel ⟨time', s.seq + 1, event'⟩ := by
    simp only [Scheduled.unlabel, times, events]
  exact congrArg₂ List.cons entry heaps

theorem setReqs (alike : Alike s t) {reqs reqs' : HashMap RequestId (ReqState cfg.topology)}
    (requests : ReqsAlike reqs reqs') : Alike { s with reqs } { t with reqs := reqs' } := by
  obtain ⟨heaps, -, workers, scores, registry⟩ := alike
  exact .intro heaps requests workers scores registry

theorem setOutcomes (alike : Alike s t) {outcomes outcomes' : List RequestOutcome} (scores : outcomes.Perm outcomes') :
    Alike { s with outcomes } { t with outcomes := outcomes' } := by
  obtain ⟨heaps, requests, workers, -, registry⟩ := alike
  exact .intro heaps requests workers scores registry

theorem setPrefill (alike : Alike s t) (w : Fin cfg.topology.prefillWorkers) (worker : PrefillWorkerSim) :
    Alike (s.setPrefill w worker) (t.setPrefill w worker) := by
  obtain ⟨heaps, requests, workers, scores, registry⟩ := alike
  exact .intro heaps requests workers scores registry

theorem setDecode (alike : Alike s t) (w : Fin cfg.topology.decodeWorkers) {worker worker' : DecodeWorkerSim}
    (workers : worker.Alike worker') : Alike (s.setDecode w worker) (t.setDecode w worker') := by
  obtain ⟨heaps, requests, others, scores, registry⟩ := alike
  refine .intro heaps requests (fun v => ?_) scores registry
  by_cases here : v = w
  · subst here
    rw [show (s.setDecode v worker).decode v = worker from Function.update_self _ _ _, Function.update_self]
    exact workers
  · rw [show (s.setDecode w worker).decode v = s.decode v from Function.update_of_ne here _ _,
      Function.update_of_ne here]
    exact others v

theorem now (alike : Alike s t) : s.now = t.now := by
  obtain ⟨-, -, -, -, -⟩ := alike
  rfl

theorem request (alike : Alike s t) (id : RequestId) :
    Option.Rel ReqState.Alike (s.reqs.lookup id) (t.reqs.lookup id) := by
  obtain ⟨-, requests, -, -, -⟩ := alike
  exact requests id

theorem decode (alike : Alike s t) (w : Fin cfg.topology.decodeWorkers) : (s.decode w).Alike (t.decode w) := by
  obtain ⟨-, -, workers, -, -⟩ := alike
  exact workers w

theorem outcomes (alike : Alike s t) : s.outcomes.Perm t.outcomes := by
  obtain ⟨-, -, -, scores, -⟩ := alike
  exact scores

theorem registry (alike : Alike s t) : s.router.registry.Keyed := by
  obtain ⟨-, -, -, -, registry⟩ := alike
  exact registry

theorem prefill (alike : Alike s t) : s.prefill = t.prefill := by
  obtain ⟨-, -, -, -, -⟩ := alike
  rfl

/-! ### Arrivals and prefill -/

theorem tryStartPrefill (alike : Alike s t) (w : Fin cfg.topology.prefillWorkers) :
    Alike (s.tryStartPrefill w) (t.tryStartPrefill w) := by
  have prefill := alike.prefill
  have now := alike.now
  unfold Simulator.tryStartPrefill
  simp only [prefill, now]
  split
  next => exact alike
  next =>
    split
    next => exact alike.setPrefill w _
    next =>
      have counted : Alike (s.countBatch ((t.prefill w).sched.plan t.now).1 ((t.prefill w).sched.plan t.now).2)
          (t.countBatch ((t.prefill w).sched.plan t.now).1 ((t.prefill w).sched.plan t.now).2) := by
        obtain ⟨heaps, requests, workers, scores, registry⟩ := alike
        exact .intro heaps requests workers scores registry
      exact (counted.setPrefill w _).push rfl rfl

theorem decodeLoad {a b : DecodeWorkerSim} (s : Simulator cfg) (workers : a.Alike b) :
    s.decodeLoad a = s.decodeLoad b := by
  obtain ⟨-, scheds, -⟩ := workers
  have concurrency := scheds.concurrency
  obtain ⟨same⟩ := scheds
  simp only [Simulator.decodeLoad, concurrency]

/-- The loads that workers report do not depend on iteration order, so the registries stay equal. -/
theorem syncLoads (alike : Alike s t) (orders orders' : EventOrders) :
    Alike (s.syncLoads orders) (t.syncLoads orders') := by
  obtain ⟨heaps, requests, workers, scores, registry⟩ := alike
  let synced (prefills : Fin cfg.topology.prefillWorkers → WorkerLoad)
      (decodes : Fin cfg.topology.decodeWorkers → WorkerLoad) : WorkerRegistry :=
    (List.finRange cfg.topology.decodeWorkers).foldl
      (fun registry (j : Fin _) => registry.updateLoad (decodeIdBase + j) (decodes j))
      ((List.finRange cfg.topology.prefillWorkers).foldl
        (fun registry (i : Fin _) => registry.updateLoad i (prefills i)) s.router.registry)
  have keyed : ∀ prefills decodes, (synced prefills decodes).Keyed := fun prefills decodes =>
    List.foldlRecOn _ _ (List.foldlRecOn _ _ registry fun _ keyed _ _ => keyed.updateLoad _ _)
      fun _ keyed _ _ => keyed.updateLoad _ _
  have prefills : (fun i : Fin cfg.topology.prefillWorkers => s.prefillLoad (orders.queue i) (s.prefill i)) =
      fun i : Fin cfg.topology.prefillWorkers => s.prefillLoad (orders'.queue i) (s.prefill i) := by
    funext i
    simp only [Simulator.prefillLoad, PrefillScheduler.queuedTokens_rehash]
  have decodes := funext fun j => decodeLoad s (workers j)
  change Alike { s with router := { s.router with
    registry := synced (fun i => s.prefillLoad (orders.queue i) (s.prefill i)) fun j => s.decodeLoad (s.decode j) } } _
  rw [prefills, decodes]
  exact .intro heaps requests workers scores (keyed _ _)

theorem routeIn (alike : Alike s t) (order order' : WorkerRole → IterOrder) (prompt : List TokenId)
    (now ttftBudgetMs : Millis) :
    s.router.routeIn order prompt now ttftBudgetMs = t.router.routeIn order' prompt now ttftBudgetMs := by
  obtain ⟨-, -, -, -, registry⟩ := alike
  exact congrArg (fun pool => s.router.choose pool prompt ttftBudgetMs)
    (funext fun role => registry.live_rehash (order role) (order' role) role now)

theorem accept (alike : Alike s t) (client client' : ℕ) (id : RequestId) (pw : Fin cfg.topology.prefillWorkers)
    (dw : Fin cfg.topology.decodeWorkers) (hit : ℕ) :
    Alike (s.accept client id pw dw hit) (t.accept client' id pw dw hit) := by
  obtain ⟨heaps, requests, workers, scores, registry⟩ := alike
  unfold Simulator.accept
  simp only
  split
  · exact .intro heaps (requests.insert id (.intro client')) workers scores registry
  · exact .intro heaps (requests.insert id (.intro client')) workers scores registry

theorem onArrival (alike : Alike s t) (orders orders' : EventOrders) (client client' : ℕ) :
    Option.Rel Alike (s.onArrival orders client) (t.onArrival orders' client') := by
  have issued : Alike { s with nextId := s.nextId + 1, issued := s.issued + 1 }
      { t with nextId := t.nextId + 1, issued := t.issued + 1 } := by
    obtain ⟨heaps, requests, workers, scores, registry⟩ := alike
    exact .intro heaps requests workers scores registry
  have synced := issued.syncLoads orders orders'
  have same : s.nextId = t.nextId ∧ s.now = t.now := by
    obtain ⟨-, -, -, -, -⟩ := alike
    exact ⟨rfl, rfl⟩
  have routed := synced.routeIn orders.registry orders'.registry (promptOf cfg t.nextId) t.now cfg.slo.ttftMs
  unfold Simulator.onArrival
  simp only [same.1, same.2] at routed synced ⊢
  rw [routed]
  split
  next => exact .none
  next decision _ =>
    split
    next pw dw _ _ => exact .some ((synced.accept client client' t.nextId pw dw decision.prefixHitTokens).tryStartPrefill pw)
    next => exact .none

/-! ### Transfers -/

theorem drainLoop (queue : List (RequestId × Fin cfg.topology.decodeWorkers)) (alike : Alike s t) :
    Alike (Simulator.drainLoop queue s) (Simulator.drainLoop queue t) := by
  induction queue generalizing s t with
  | nil =>
    obtain ⟨heaps, requests, workers, scores, registry⟩ := alike
    exact .intro heaps requests workers scores registry
  | cons job queue ih =>
    have busy : s.xferBusy = t.xferBusy := by
      obtain ⟨-, -, -, -, -⟩ := alike
      rfl
    rw [Simulator.drainLoop, Simulator.drainLoop, busy, alike.now]
    split
    next =>
      refine ih (push ?_ rfl rfl)
      obtain ⟨heaps, requests, workers, scores, registry⟩ := alike
      exact .intro heaps requests workers scores registry
    next =>
      obtain ⟨heaps, requests, workers, scores, registry⟩ := alike
      exact .intro heaps requests workers scores registry

theorem drainXferQueue (alike : Alike s t) : Alike s.drainXferQueue t.drainXferQueue := by
  have queue : s.xferQueue = t.xferQueue := by
    obtain ⟨-, -, -, -, -⟩ := alike
    rfl
  unfold Simulator.drainXferQueue
  rw [queue]
  exact alike.drainLoop t.xferQueue

theorem handOff (finished : List RequestId) (alike : Alike s t) :
    Option.Rel Alike (Simulator.handOff finished s) (Simulator.handOff finished t) := by
  induction finished generalizing s t with
  | nil => exact .some alike
  | cons id finished ih =>
    rw [Simulator.handOff, Simulator.handOff]
    have request := alike.request id
    revert request
    generalize s.reqs.lookup id = found, t.reqs.lookup id = found'
    rintro (⟨⟨client⟩⟩ | _)
    next r =>
      refine ih ?_
      obtain ⟨heaps, requests, workers, scores, registry⟩ := alike
      exact .intro heaps (requests.insert id (.intro client)) workers scores registry
    next => exact .none

theorem onPrefillDone (alike : Alike s t) (w : Fin cfg.topology.prefillWorkers) :
    Option.Rel Alike (s.onPrefillDone w) (t.onPrefillDone w) := by
  unfold Simulator.onPrefillDone
  simp only [alike.prefill, alike.now]
  split
  next => exact .some alike
  next batch started _ =>
    have handed := (alike.setPrefill w ((t.prefill w).finishBatch batch (t.now - started)).2).handOff
      ((t.prefill w).finishBatch batch (t.now - started)).1
    revert handed
    generalize Simulator.handOff _ (s.setPrefill w _) = result, Simulator.handOff _ (t.setPrefill w _) = result'
    rintro (handed | _)
    · exact .some (handed.drainXferQueue.tryStartPrefill w)
    · exact .none

/-! ### Decode -/

theorem onKvArrived (alike : Alike s t) (id : RequestId) (w : Fin cfg.topology.decodeWorkers) :
    Alike (s.onKvArrived id w) (t.onKvArrived id w) := by
  have freed : Alike { s with xferBusy := s.xferBusy - 1 } { t with xferBusy := t.xferBusy - 1 } := by
    obtain ⟨heaps, requests, workers, scores, registry⟩ := alike
    exact .intro heaps requests workers scores registry
  have drained := freed.drainXferQueue
  have worker := drained.decode w
  have landed := drained.setDecode w (worker.land id)
  unfold Simulator.onKvArrived
  simp only
  rw [worker.stepping]
  split
  · exact landed
  · exact landed.push alike.now rfl

theorem stampToken (alike : Alike s t) (time : Millis) (id : RequestId) :
    Alike (Simulator.stampToken time s id) (Simulator.stampToken time t id) := by
  have request := alike.request id
  unfold Simulator.stampToken
  revert request
  generalize s.reqs.lookup id = found, t.reqs.lookup id = found'
  rintro (⟨⟨client⟩⟩ | _)
  next r => exact alike.setReqs (ReqsAlike.insert alike.request id (.intro client))
  next => exact alike

theorem stampToken_swap (alike : Alike s t) (time : Millis) (first second : RequestId) :
    Alike (Simulator.stampToken time (Simulator.stampToken time s first) second)
      (Simulator.stampToken time (Simulator.stampToken time t second) first) := by
  by_cases apart : first = second
  · rw [apart]
    exact (alike.stampToken time second).stampToken time second
  refine .trans ((alike.stampToken time first).stampToken time second) ?_
  cases here : t.reqs.lookup first <;> cases there : t.reqs.lookup second <;>
    simp only [Simulator.stampToken, here, there, AList.lookup_insert_ne apart, AList.lookup_insert_ne (Ne.symm apart)]
  · exact alike.right
  · exact alike.right.setReqs (.refl _)
  · exact alike.right.setReqs (.refl _)
  · exact alike.right.setReqs (.of_same (HashMap.Same.insert_comm (.refl _) apart _ _))

theorem retire (alike : Alike s t) (w : Fin cfg.topology.decodeWorkers) (time : Millis) (seq : RunningSeq) :
    Alike (Simulator.retire w time s seq) (Simulator.retire w time t seq) := by
  have freed := alike.setDecode w ((alike.decode w).giveBack seq.id)
  have request := alike.request seq.id
  unfold Simulator.retire
  simp only
  revert request
  generalize s.reqs.lookup seq.id = found, t.reqs.lookup seq.id = found'
  rintro (⟨⟨client⟩⟩ | _)
  next r =>
    exact ((freed.setReqs (ReqsAlike.erase alike.request seq.id)).setOutcomes (alike.outcomes.append_right _)).push rfl rfl
  next => exact freed

/-- Two sequences may be retired in either order: their clients swap events. -/
theorem retire_swap (alike : Alike s t) (w : Fin cfg.topology.decodeWorkers) (time : Millis) {first second : RunningSeq}
    (apart : first.id ≠ second.id) :
    Alike (Simulator.retire w time (Simulator.retire w time s first) second)
      (Simulator.retire w time (Simulator.retire w time t second) first) := by
  refine .trans ((alike.retire w time first).retire w time second) ?_
  have worker : ((t.decode w).giveBack first.id |>.giveBack second.id).Alike
      ((t.decode w).giveBack second.id |>.giveBack first.id) := (alike.right.decode w).giveBack_swap apart
  have workers := (alike.right.setDecode w worker).decode
  have registry := alike.right.registry
  cases here : t.reqs.lookup first.id <;> cases there : t.reqs.lookup second.id <;>
    simp only [Simulator.retire, Simulator.setDecode, Simulator.push, here, there, AList.lookup_erase_ne apart,
      AList.lookup_erase_ne (Ne.symm apart), Function.update_self, Function.update_idem]
  · exact .intro rfl (.refl _) workers (.refl _) registry
  · exact .intro rfl (.refl _) workers (.refl _) registry
  · exact .intro rfl (.refl _) workers (.refl _) registry
  · refine .intro rfl (.of_same (HashMap.Same.erase_comm (.refl _) first.id second.id)) workers ?_ registry
    simp only [List.append_assoc]
    exact (List.Perm.swap _ _ _).append_left _

theorem forwardPass (alike : Alike s t) (w : Fin cfg.topology.decodeWorkers) {worker worker' : DecodeWorkerSim}
    (workers : worker.Alike worker') (orders orders' : EventOrders) :
    Alike (s.forwardPass orders w worker) (t.forwardPass orders' w worker') := by
  obtain ⟨keyed, scheds, holds⟩ := workers
  have ends : t.now + worker.curve.stepMs worker.sched.concurrency =
      s.now + worker.curve.stepMs worker.sched.concurrency := by rw [alike.now]
  unfold Simulator.forwardPass
  simp only [← scheds.concurrency, ends]
  generalize s.now + worker.curve.stepMs worker.sched.concurrency = time
  obtain ⟨done, stepped⟩ := scheds.onStepSynthetic orders.step orders'.step time
    (worker.curve.stepMs worker.sched.concurrency)
  obtain ⟨finished, retired⟩ := DecodeScheduler.onStepSyntheticIn_spec orders.step keyed time
    (worker.curve.stepMs worker.sched.concurrency)
  generalize worker.sched.onStepSyntheticIn orders.step time _ = result at done stepped retired ⊢
  generalize DecodeScheduler.onStepSyntheticIn orders'.step _ time _ = result' at done stepped ⊢
  have counted : Alike
      { s with
        concurrencySamples := s.concurrencySamples ++ [(worker.sched.concurrency : ℚ)]
        peakConcurrency := max s.peakConcurrency worker.sched.concurrency }
      { t with
        concurrencySamples := t.concurrencySamples ++ [(worker.sched.concurrency : ℚ)]
        peakConcurrency := max t.peakConcurrency worker.sched.concurrency } := by
    obtain ⟨heaps, requests, others, scores, registry⟩ := alike
    exact .intro heaps requests others scores registry
  have attached := ((stepped.rehash orders.attached orders'.attached).seqs.map (·.id)).foldl_rel
    (D := fun _ _ => True) .trans .right (fun _ => trivial) (fun id alike => alike.stampToken time id)
    (fun id other _ alike => alike.stampToken_swap time id other) (List.pairwise_of_forall fun _ _ => trivial)
    (counted.setDecode w (.intro retired.keyed stepped holds : DecodeWorkerSim.Alike { worker with sched := result.2 } _))
  have apart : result.1.Pairwise fun first second => first.id ≠ second.id := List.pairwise_map.mp retired.once
  exact (done.foldl_rel .trans .right Ne.symm (fun seq alike => alike.retire w time seq)
    (fun first second apart alike => alike.retire_swap w time apart) apart attached).push rfl rfl

theorem onDecodeStep (alike : Alike s t) (w : Fin cfg.topology.decodeWorkers) (orders orders' : EventOrders) :
    Option.Rel Alike (s.onDecodeStep orders w) (t.onDecodeStep orders' w) := by
  have admitted : Option.Rel DecodeWorkerSim.Alike (s.admitDecode orders w) (t.admitDecode orders' w) := by
    unfold Simulator.admitDecode
    rw [(alike.decode w).pending, alike.now]
    exact (alike.decode w).admitLoop alike.request t.now orders.tolerances orders'.tolerances _ 0
  unfold Simulator.onDecodeStep
  revert admitted
  generalize s.admitDecode orders w = found, t.admitDecode orders' w = found'
  rintro (workers | _)
  next worker worker' =>
    have drained : worker.pending = [] ↔ worker'.pending = [] := by rw [workers.pending]
    simp only [workers.concurrency, drained]
    split
    next =>
      split
      next => exact .some (alike.setDecode w workers.rest)
      next => exact .some ((alike.setDecode w workers).push (by rw [alike.now, workers.curve]) rfl)
    next => exact .some (alike.forwardPass w workers orders orders')
  next => exact .none

/-! ### Every turn -/

theorem handle (alike : Alike s t) (orders orders' : EventOrders) {event event' : Event cfg.topology}
    (events : event.unlabel = event'.unlabel) : Option.Rel Alike (s.handle orders event) (t.handle orders' event') := by
  cases event <;> cases event' <;> simp only [Event.unlabel, reduceCtorEq, Event.prefillDone.injEq,
    Event.kvArrived.injEq, Event.decodeStep.injEq] at events
  case arrival.arrival client client' => exact alike.onArrival orders orders' client client'
  case prefillDone.prefillDone w w' =>
    subst events
    exact alike.onPrefillDone w
  case kvArrived.kvArrived id w id' w' =>
    obtain ⟨rfl, rfl⟩ := events
    exact .some (alike.onKvArrived id w)
  case decodeStep.decodeStep w w' =>
    subst events
    exact alike.onDecodeStep w orders orders'

theorem heaps (alike : Alike s t) : s.heap.map Scheduled.unlabel = t.heap.map Scheduled.unlabel := by
  obtain ⟨heaps, -, -, -, -⟩ := alike
  exact heaps

theorem open_at (alike : Alike s t) {heap heap' : List (Scheduled cfg.topology)}
    (heaps : heap.map Scheduled.unlabel = heap'.map Scheduled.unlabel) (now : Millis) :
    Alike { s with heap, now } { t with heap := heap', now } := by
  obtain ⟨-, requests, workers, scores, registry⟩ := alike
  exact .intro heaps requests workers scores registry

end Alike

/-- How two turns of alike simulations end. -/
inductive Turn.Alike : Turn cfg → Turn cfg → Prop
  | stopped {s t : Simulator cfg} : s.Alike t → Alike (.stopped s) (.stopped t)
  | panicked : Alike .panicked .panicked
  | handled (entry entry' : Scheduled cfg.topology) {s t : Simulator cfg} :
      s.Alike t → Alike (.handled entry s) (.handled entry' t)

variable {s t : Simulator cfg}

theorem Alike.turn (alike : s.Alike t) (orders orders' : EventOrders) : (s.turn orders).Alike (t.turn orders') := by
  have popped : (popEarliest s.heap).map (Prod.map Scheduled.unlabel (List.map Scheduled.unlabel)) =
      (popEarliest t.heap).map (Prod.map Scheduled.unlabel (List.map Scheduled.unlabel)) := by
    rw [← popEarliest_unlabel, ← popEarliest_unlabel, alike.heaps]
  unfold Simulator.turn
  revert popped
  generalize popEarliest s.heap = found, popEarliest t.heap = found'
  intro popped
  cases found with
  | none =>
    cases found' with
    | none => exact .stopped alike
    | some _ => cases popped
  | some pair =>
    cases found' with
    | none => cases popped
    | some pair' =>
      obtain ⟨entry, heap⟩ := pair
      obtain ⟨entry', heap'⟩ := pair'
      obtain ⟨entries, heaps⟩ := Prod.mk.inj (Option.some.inj popped)
      have times : entry.unlabel.time = entry'.unlabel.time := congrArg Scheduled.time entries
      have events : entry.unlabel.event = entry'.unlabel.event := congrArg Scheduled.event entries
      change entry.time = entry'.time at times
      simp only [times]
      split
      next =>
        obtain ⟨-, requests, workers, scores, registry⟩ := alike
        exact .stopped (.intro heaps requests workers scores registry)
      next =>
        have handled := (alike.open_at heaps entry'.time).handle orders orders' events
        revert handled
        generalize Simulator.handle orders _ entry.event = out, Simulator.handle orders' _ entry'.event = out'
        rintro (after | _)
        · exact .handled entry entry' after
        · exact .panicked

/-! ### The report -/

theorem Alike.diagnostics (alike : s.Alike t) : s.diagnostics = t.diagnostics := by
  have fields : ∀ {α : Type} (f : DecodeWorkerSim → α), (∀ {a b : DecodeWorkerSim}, a.Alike b → f a = f b) →
      s.decodeWorkers.map f = t.decodeWorkers.map f := by
    intro α f agree
    simp only [decodeWorkers, List.map_map]
    exact List.map_congr_left fun w _ => agree (alike.decode w)
  have cap := congrArg List.head? (fields (fun d => d.sched.controller.cap) fun workers => by
    obtain ⟨-, ⟨-⟩, -⟩ := workers
    rfl)
  have observed := congrArg List.head? (fields (fun d => d.sched.controller.observedItlMs) fun workers => by
    obtain ⟨-, ⟨-⟩, -⟩ := workers
    rfl)
  have refused := fields (fun d => d.sched.refused) fun workers => by
    obtain ⟨-, ⟨-⟩, -⟩ := workers
    rfl
  have completed := alike.outcomes.length_eq
  rw [List.head?_map, List.head?_map] at cap observed
  obtain ⟨-, -, -, -, -⟩ := alike
  simp only [Simulator.diagnostics, cap, observed, refused, completed]

theorem Alike.finish (alike : s.Alike t) : s.finish = t.finish := by
  have diagnostics := alike.diagnostics
  have score := GoodputReport.fromOutcomes_perm
    (alike.outcomes.filter fun o => windowStart cfg ≤ o.arrivalMs ∧ o.arrivalMs < windowEnd cfg)
    ((windowEnd cfg - windowStart cfg) / 1000) cfg.slo
  simp only [Simulator.finish, diagnostics, score]

theorem Alike.loop (alike : s.Alike t) (orders orders' : ℕ → EventOrders) (turns n : ℕ) :
    loop orders turns n s = loop orders' turns n t := by
  induction turns generalizing n s t with
  | zero => rfl
  | succ turns ih =>
    have turned := alike.turn (orders n) (orders' n)
    rw [Simulator.loop, Simulator.loop]
    revert turned
    generalize s.turn (orders n) = result, t.turn (orders' n) = result'
    rintro (final | _ | ⟨_, _, after⟩)
    · exact congrArg RunResult.report final.finish
    · rfl
    · exact ih after (n + 1)

theorem keyed_newRegistry (cfg : Config) : (newRegistry cfg).Keyed := by
  have empty : (WorkerRegistry.new 60000).Keyed := by
    intro id worker found
    simp [WorkerRegistry.new] at found
  exact List.foldlRecOn _ _ (List.foldlRecOn _ _ empty fun _ keyed i _ => keyed.register _)
    fun _ keyed j _ => keyed.register _

theorem alike_start (cfg : Config) : (start cfg).Alike (start cfg) := by
  obtain ⟨arrivals, state, -, -⟩ := start_spec cfg
  rw [state]
  exact .intro rfl (.refl _) (fun _ => .refl (keyed_newDecodeScheduler cfg)) (.refl _) (keyed_newRegistry cfg)

/-- The report does not depend on the order in which any hash map is iterated, at any turn. -/
theorem run_order_free (cfg : Config) (orders orders' : ℕ → EventOrders) (turns : ℕ) :
    run cfg orders turns = run cfg orders' turns :=
  (alike_start cfg).loop orders orders' turns 0

end Simulator

end TrtLlm.Sim
