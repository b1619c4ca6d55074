import Mathlib.Algebra.BigOperators.Group.Finset.Basic
import TrtLlm.Model.Sim.Simulator
import TrtLlm.Soundness.DecodeRound
import TrtLlm.Soundness.PrefillPlan
import TrtLlm.ToMathlib.ListCount

/-! # What the simulator's loops do

Each loop of an event handler rewrites a few fields of the state. The lemmas here say which, with the new values in
closed form, so that everything else is visibly unchanged.
-/

namespace TrtLlm.Sim

open Engine KvCache Routing Sched

variable {topology : TopologyConfig}

/-! ### Popping the heap -/

theorem eq_nil_of_popEarliest {heap : List (Scheduled topology)} (empty : popEarliest heap = none) : heap = [] := by
  cases heap with
  | nil => rfl
  | cons first heap =>
    rw [popEarliest] at empty
    split at empty
    · cases empty
    · split at empty <;> cases empty

theorem popEarliest_perm {heap rest : List (Scheduled topology)} {entry : Scheduled topology}
    (popped : popEarliest heap = some (entry, rest)) : (entry :: rest).Perm heap := by
  induction heap generalizing entry rest with
  | nil => cases popped
  | cons first heap ih =>
    rw [popEarliest] at popped
    split at popped
    next empty =>
      obtain ⟨rfl, rfl⟩ := Prod.mk.inj (Option.some.inj popped)
      rw [eq_nil_of_popEarliest empty]
    next earliest others found =>
      have inner := ih found
      split at popped
      · obtain ⟨rfl, rfl⟩ := Prod.mk.inj (Option.some.inj popped)
        exact inner.cons _
      · obtain ⟨rfl, rfl⟩ := Prod.mk.inj (Option.some.inj popped)
        exact (List.Perm.swap _ _ _).trans (inner.cons first)

theorem popEarliest_least {heap rest : List (Scheduled topology)} {entry : Scheduled topology}
    (popped : popEarliest heap = some (entry, rest)) : ∀ other ∈ rest, entry.key ≤ other.key := by
  induction heap generalizing entry rest with
  | nil => cases popped
  | cons first heap ih =>
    rw [popEarliest] at popped
    split at popped
    next =>
      obtain ⟨rfl, rfl⟩ := Prod.mk.inj (Option.some.inj popped)
      simp
    next earliest others found =>
      have inner := ih found
      split at popped
      next before =>
        obtain ⟨rfl, rfl⟩ := Prod.mk.inj (Option.some.inj popped)
        intro other member
        rcases List.mem_cons.mp member with rfl | member
        · exact before
        · exact before.trans (inner other member)
      next after =>
        obtain ⟨rfl, rfl⟩ := Prod.mk.inj (Option.some.inj popped)
        intro other member
        rcases List.mem_cons.mp member with rfl | member
        · exact (not_le.mp after).le
        · exact inner other member

theorem Scheduled.time_le_of_key_le {a b : Scheduled topology} (before : a.key ≤ b.key) : a.time ≤ b.time := by
  rcases Prod.Lex.le_iff.mp before with earlier | ⟨same, _⟩
  · exact earlier.le
  · exact same.le

namespace Simulator

variable {cfg : Config}

/-- The events in the heap. -/
def events (s : Simulator cfg) : List (Event cfg.topology) := s.heap.map (·.event)

@[simp] theorem push_events (s : Simulator cfg) (time : Millis) (event : Event cfg.topology) :
    (s.push time event).events = event :: s.events := rfl

/-- Starting a batch leaves decode and the transfers alone, and schedules at most the end of the batch. -/
theorem tryStartPrefill_frame (s : Simulator cfg) (w : Fin cfg.topology.prefillWorkers) :
    (s.tryStartPrefill w).decode = s.decode ∧ (s.tryStartPrefill w).xferBusy = s.xferBusy ∧
      (s.tryStartPrefill w).xferQueue = s.xferQueue ∧
      ((s.tryStartPrefill w).events = s.events ∨ (s.tryStartPrefill w).events = .prefillDone w :: s.events) := by
  unfold tryStartPrefill
  simp only
  split
  · exact ⟨rfl, rfl, rfl, .inl rfl⟩
  · split
    · exact ⟨rfl, rfl, rfl, .inl rfl⟩
    · exact ⟨rfl, rfl, rfl, .inr rfl⟩

theorem accept_frame (s : Simulator cfg) (client : ℕ) (id : RequestId) (pw : Fin cfg.topology.prefillWorkers)
    (dw : Fin cfg.topology.decodeWorkers) (hit : ℕ) :
    (s.accept client id pw dw hit).decode = s.decode ∧ (s.accept client id pw dw hit).xferBusy = s.xferBusy ∧
      (s.accept client id pw dw hit).xferQueue = s.xferQueue ∧
      (s.accept client id pw dw hit).events = s.events := by
  unfold accept
  simp only
  split <;> exact ⟨rfl, rfl, rfl, rfl⟩

/-- The heap at the start: one arrival for every client, at time zero. -/
theorem start_spec (cfg : Config) :
    ∃ arrivals, start cfg = { new cfg with seq := arrivals.length, heap := arrivals } ∧
      arrivals.length = cfg.workload.concurrency ∧
      ∀ entry ∈ arrivals, entry.time = 0 ∧ ∃ client, entry.event = .arrival client := by
  have pushes : ∀ n, ∃ arrivals, (List.range n).foldl (fun s client => s.push 0 (.arrival client)) (new cfg) =
        { new cfg with seq := arrivals.length, heap := arrivals } ∧ arrivals.length = n ∧
      ∀ entry ∈ arrivals, entry.time = 0 ∧ ∃ client, entry.event = .arrival client := by
    intro n
    induction n with
    | zero => exact ⟨[], rfl, rfl, by simp⟩
    | succ n ih =>
      obtain ⟨arrivals, state, length, each⟩ := ih
      rw [List.range_succ, List.foldl_append, state]
      refine ⟨⟨0, arrivals.length + 1, .arrival n⟩ :: arrivals, rfl, by simp [length], ?_⟩
      intro entry member
      rcases List.mem_cons.mp member with rfl | earlier
      · exact ⟨rfl, n, rfl⟩
      · exact each entry earlier
  exact pushes cfg.workload.concurrency

/-- A turn that handles an event popped the earliest one, inside the horizon. -/
theorem turn_handled {s t : Simulator cfg} {orders : EventOrders} {entry : Scheduled cfg.topology}
    (reached : s.turn orders = .handled entry t) :
    ∃ heap, popEarliest s.heap = some (entry, heap) ∧ entry.time ≤ horizonMs cfg ∧
      ({ s with heap, now := entry.time } : Simulator cfg).handle orders entry.event = some t := by
  unfold turn at reached
  split at reached
  next => cases reached
  next first heap popped =>
    split at reached
    next => cases reached
    next inside =>
      split at reached
      next => cases reached
      next next handled =>
        obtain ⟨rfl, rfl⟩ := Turn.handled.inj reached
        exact ⟨heap, popped, not_lt.mp inside, handled⟩

theorem newDecodeScheduler_running (cfg : Config) : (newDecodeScheduler cfg).running = ∅ := by
  unfold newDecodeScheduler
  split <;> rfl

theorem keyed_newDecodeScheduler (cfg : Config) : (newDecodeScheduler cfg).Keyed := by
  intro id seq found
  rw [newDecodeScheduler_running] at found
  simp at found

/-! ### Transfers -/

/-- How many transfers may run at once. -/
def xferCap (cfg : Config) : ℕ := max cfg.kv.xferConcurrency 1

/-- What draining a queue of transfers does: it starts the ones at the front. -/
structure Drained (queue : List (RequestId × Fin cfg.topology.decodeWorkers)) (s : Simulator cfg)
    (started : List (Scheduled cfg.topology)) (out : Simulator cfg) : Prop where
  state : out =
    { s with
      xferBusy := s.xferBusy + started.length
      xferQueue := queue.drop started.length
      seq := s.seq + started.length
      heap := started ++ s.heap }
  within : started.length ≤ queue.length
  events : (started.map (·.event)).Perm ((queue.take started.length).map fun job => .kvArrived job.1 job.2)
  times : ∀ entry ∈ started, entry.time = s.now + kvTransferMs cfg
  room : s.xferBusy ≤ xferCap cfg → s.xferBusy + started.length ≤ xferCap cfg
  full : queue.drop started.length ≠ [] → xferCap cfg ≤ s.xferBusy + started.length

theorem drainLoop_spec (queue : List (RequestId × Fin cfg.topology.decodeWorkers)) (s : Simulator cfg) :
    ∃ started, Drained queue s started (drainLoop queue s) := by
  induction queue generalizing s with
  | nil => exact ⟨[], ⟨rfl, le_rfl, .nil, by simp, fun room => room, fun more => absurd rfl more⟩⟩
  | cons job queue ih =>
    obtain ⟨id, dw⟩ := job
    rw [drainLoop]
    split
    next free =>
      obtain ⟨started, drained⟩ := ih ({ s with xferBusy := s.xferBusy + 1 }.push (s.now + kvTransferMs cfg)
        (.kvArrived id dw))
      let entry : Scheduled cfg.topology := ⟨s.now + kvTransferMs cfg, s.seq + 1, .kvArrived id dw⟩
      have length : (started ++ [entry]).length = started.length + 1 := by simp
      refine ⟨started ++ [entry], ⟨?_, ?_, ?_, ?_, ?_, ?_⟩⟩
      · rw [drained.state, length]
        simp only [push, List.append_assoc, List.singleton_append]
        congr 1
        · omega
        · omega
      · rw [length]
        exact Nat.succ_le_succ drained.within
      · rw [length, List.map_append, List.take_succ_cons, List.map_cons]
        exact (List.perm_append_singleton _ _).trans (drained.events.cons _)
      · intro other member
        rcases List.mem_append.mp member with earlier | here
        · exact drained.times other earlier
        · rw [List.mem_singleton.mp here]
      · intro _
        have room := drained.room free
        simp only [push] at room
        omega
      · rw [length, List.drop_succ_cons]
        intro more
        have full := drained.full more
        simp only [push] at full
        omega
    next busy =>
      refine ⟨[], ⟨rfl, Nat.zero_le _, .nil, by simp, fun room => room, fun _ => ?_⟩⟩
      have bound : xferCap cfg ≤ s.xferBusy := not_lt.mp busy
      exact bound

/-! ### Requests -/

/-- The loop over finished prompts succeeds when they are all known; each is stamped and queued. -/
theorem handOff_spec {finished : List RequestId} {s : Simulator cfg} (known : ∀ id ∈ finished, id ∈ s.reqs) :
    ∃ queued reqs, handOff finished s = some { s with reqs, xferQueue := s.xferQueue ++ queued } ∧
      queued.map Prod.fst = finished ∧
      ∀ id, reqs.lookup id = (s.reqs.lookup id).map fun r =>
        if id ∈ finished then { r with firstTokenMs := some s.now, lastTokenMs := s.now } else r := by
  induction finished generalizing s with
  | nil => exact ⟨[], s.reqs, by simp [handOff], rfl, fun id => by simp⟩
  | cons first finished ih =>
    obtain ⟨r, found⟩ := AList.mem_iff_exists_lookup.mp (known first (.head _))
    have next : handOff (first :: finished) s = handOff finished (s.firstToken first r) := by rw [handOff, found]
    have inserted : ∀ id, (s.firstToken first r).reqs.lookup id = if id = first then
        some { r with firstTokenMs := some s.now, lastTokenMs := s.now } else s.reqs.lookup id :=
      fun id => AList.lookup_insert_eq_ite ..
    have later : ∀ id ∈ finished, id ∈ (s.firstToken first r).reqs := fun id member =>
      (AList.mem_insert _).mpr (.inr (known id (.tail _ member)))
    obtain ⟨queued, reqs, done, ids, lookups⟩ := ih later
    refine ⟨(first, r.decodeWorker) :: queued, reqs, ?_, ?_, fun id => ?_⟩
    · rw [next, done, firstToken]
      simp only [List.append_assoc, List.singleton_append]
    · rw [List.map_cons, ids]
    · rw [lookups id, inserted]
      by_cases here : id = first
      · subst here
        simp [found, firstToken]
      · simp [here, firstToken]

/-- Stamping the running requests only touches their last token. -/
theorem stampToken_fold (time : Millis) (ids : List RequestId) (s : Simulator cfg) :
    ∃ reqs, ids.foldl (stampToken time) s = { s with reqs } ∧
      ∀ id, reqs.lookup id = (s.reqs.lookup id).map fun r =>
        if id ∈ ids then { r with lastTokenMs := time } else r := by
  induction ids generalizing s with
  | nil => exact ⟨s.reqs, rfl, fun id => by simp⟩
  | cons first ids ih =>
    obtain ⟨reqs, done, lookups⟩ := ih (stampToken time s first)
    obtain ⟨stamped, next, inserted⟩ : ∃ stamped, stampToken time s first = { s with reqs := stamped } ∧
        ∀ id, stamped.lookup id = (s.reqs.lookup id).map fun r =>
          if id = first then { r with lastTokenMs := time } else r := by
      cases found : s.reqs.lookup first with
      | none =>
        refine ⟨s.reqs, by rw [stampToken, found], fun id => ?_⟩
        by_cases here : id = first
        · rw [here, found]
          rfl
        · simp [here]
      | some r =>
        refine ⟨s.reqs.insert first { r with lastTokenMs := time }, by rw [stampToken, found], fun id => ?_⟩
        rw [AList.lookup_insert_eq_ite]
        by_cases here : id = first
        · subst here
          simp [found]
        · simp [here]
    refine ⟨reqs, by rw [List.foldl_cons, done, next], fun id => ?_⟩
    rw [lookups id, next, inserted, Option.map_map]
    congr 1
    funext r
    by_cases here : id = first <;> by_cases later : id ∈ ids <;> simp [here, later]

/-! ### Retiring -/

/-- What retiring a list of sequences does: the known ones are scored, and their clients issue again at `time`. -/
structure Released (w : Fin cfg.topology.decodeWorkers) (time : Millis) (done : List RunningSeq) (s : Simulator cfg)
    (reqs : HashMap RequestId (ReqState cfg.topology)) (outcomes : List RequestOutcome)
    (released : List (Scheduled cfg.topology)) (out : Simulator cfg) : Prop where
  state : out =
    { s with
      decode := Function.update s.decode w (done.foldl (fun worker seq => worker.giveBack seq.id) (s.decode w))
      reqs
      outcomes := s.outcomes ++ outcomes
      seq := s.seq + released.length
      heap := released ++ s.heap }
  lookups : ∀ id, reqs.lookup id = if id ∈ done.map (·.id) then none else s.reqs.lookup id
  arrivals : ∀ entry ∈ released, entry.time = time ∧ ∃ client, entry.event = .arrival client
  clients : released.length + reqs.entries.length = s.reqs.entries.length

theorem retire_one (w : Fin cfg.topology.decodeWorkers) (time : Millis) (seq : RunningSeq) (s : Simulator cfg) :
    ∃ reqs outcomes released, Released w time [seq] s reqs outcomes released (retire w time s seq) := by
  cases found : s.reqs.lookup seq.id with
  | none =>
    refine ⟨s.reqs, [], [], ⟨?_, fun id => ?_, by simp, by simp⟩⟩
    · simp only [retire, found, setDecode, List.foldl_cons, List.foldl_nil, List.append_nil, List.length_nil,
        Nat.add_zero, List.nil_append]
    · by_cases here : id = seq.id
      · rw [here, found, ite_self]
      · simp [here]
  | some r =>
    let outcome : RequestOutcome :=
      ⟨seq.id, r.arrivalMs, r.firstTokenMs.getD time, time, r.promptLen, seq.tokensEmitted, r.osl⟩
    refine ⟨s.reqs.erase seq.id, [outcome], [⟨time, s.seq + 1, .arrival r.client⟩], ⟨?_, fun id => ?_, ?_, ?_⟩⟩
    · simp only [retire, found, setDecode, push]
      rfl
    · simp only [List.map_cons, List.map_nil, List.mem_singleton]
      exact AList.lookup_erase_eq_ite ..
    · simp
    · rw [List.length_singleton, Nat.add_comm]
      exact AList.length_erase_of_mem (AList.mem_iff_exists_lookup.mpr ⟨_, found⟩)

theorem retire_fold (w : Fin cfg.topology.decodeWorkers) (time : Millis) (done : List RunningSeq) (s : Simulator cfg) :
    ∃ reqs outcomes released, Released w time done s reqs outcomes released (done.foldl (retire w time) s) := by
  induction done generalizing s with
  | nil =>
    refine ⟨s.reqs, [], [], ⟨?_, fun id => by simp, by simp, by simp⟩⟩
    simp only [List.foldl_nil, Function.update_eq_self, List.append_nil, List.length_nil, Nat.add_zero,
      List.nil_append]
  | cons seq done ih =>
    obtain ⟨reqs₁, outcomes₁, released₁, one⟩ := retire_one w time seq s
    obtain ⟨reqs, outcomes, released, rest⟩ := ih (retire w time s seq)
    refine ⟨reqs, outcomes₁ ++ outcomes, released ++ released₁, ⟨?_, fun id => ?_, ?_, ?_⟩⟩
    · rw [List.foldl_cons, rest.state, one.state]
      simp only [Function.update_self, Function.update_idem, List.foldl_cons, List.foldl_nil, List.append_assoc,
        List.length_append]
      congr 1
      omega
    · rw [rest.lookups, one.state]
      simp only [one.lookups]
      by_cases here : id = seq.id <;> by_cases later : id ∈ done.map (·.id) <;> simp [here, later]
    · intro entry member
      rcases List.mem_append.mp member with later | earlier
      · exact rest.arrivals entry later
      · exact one.arrivals entry earlier
    · have first := one.clients
      have others := rest.clients
      rw [one.state] at others
      rw [List.length_append]
      simp only at others
      omega

end Simulator

/-! ### One decode worker -/

namespace DecodeWorkerSim

variable {worker out : DecodeWorkerSim}

/-- Pages are free or held by exactly the running sequences. -/
structure Booked (worker : DecodeWorkerSim) : Prop where
  keyed : worker.sched.Keyed
  pages : worker.freeBlocks + worker.held.sum (fun _ blocks => blocks) = worker.totalBlocks
  holders : ∀ id, id ∈ worker.held ↔ id ∈ worker.sched.running

theorem Booked.take (booked : worker.Booked) {id : RequestId} {need : ℕ} (fresh : id ∉ worker.sched.running)
    (room : need ≤ worker.freeBlocks) (first now : Millis) (osl : ℕ) : (worker.take id need first now osl).Booked := by
  have absent : id ∉ worker.held := fun held => fresh ((booked.holders id).mp held)
  refine ⟨booked.keyed.admitted _, ?_, fun other => ?_⟩
  · have pages := booked.pages
    change worker.freeBlocks - need + (worker.held.insert id need).sum (fun _ blocks => blocks) = worker.totalBlocks
    rw [AList.sum_insert_of_notMem _ absent]
    omega
  · change other ∈ worker.held.insert id need ↔ other ∈ worker.sched.running.insert id _
    rw [AList.mem_insert, AList.mem_insert, booked.holders]

/-- What the admission loop does: pending requests start running, in order, until one is refused. -/
structure Admission (pending : List RequestId) (worker out : DecodeWorkerSim) : Prop where
  booked : out.Booked
  seats : ∀ id, out.pending.count id + out.sched.running.keys.count id =
    pending.count id + worker.sched.running.keys.count id
  curve : out.curve = worker.curve
  stepping : out.stepping = worker.stepping
  total : out.totalBlocks = worker.totalBlocks

theorem admitLoop_spec {cfg : Config} {reqs : HashMap RequestId (ReqState cfg.topology)} (now : Millis)
    (tolerances : ℕ → IterOrder) {pending : List RequestId} (turn : ℕ) (booked : worker.Booked)
    (once : ∀ id, pending.count id + worker.sched.running.keys.count id ≤ 1)
    (ready : ∀ id ∈ pending, ∃ r first, reqs.lookup id = some r ∧ r.firstTokenMs = some first) :
    ∃ out, admitLoop reqs now tolerances turn pending worker = some out ∧ Admission pending worker out := by
  induction pending generalizing turn worker with
  | nil =>
    exact ⟨_, rfl, ⟨⟨booked.keyed, booked.pages, booked.holders⟩, fun id => rfl, rfl, rfl, rfl⟩⟩
  | cons id pending ih =>
    obtain ⟨r, first, found, emitted⟩ := ready id (.head _)
    rw [admitLoop, found]
    simp only
    generalize decided : (worker.sched.rehash (tolerances turn)).canAdmit
      (decide (blocksNeeded cfg r + worker.watermarkBlocks ≤ worker.freeBlocks)) = decision
    have running : (worker.sched.note decision).running = worker.sched.running := DecodeScheduler.note_running decision
    have noted : Booked { worker with sched := worker.sched.note decision } :=
      ⟨fun other seq here => booked.keyed other seq (running ▸ here), booked.pages, fun other => by
        rw [running]
        exact booked.holders other⟩
    split
    next admitted =>
      rw [emitted]
      have room : blocksNeeded cfg r ≤ worker.freeBlocks := by
        by_contra short
        rw [DecodeScheduler.canAdmit, decide_eq_false (by omega)] at decided
        rw [← decided] at admitted
        cases admitted
      have fresh : id ∉ (worker.sched.note decision).running := by
        intro member
        have bound := once id
        rw [AList.count_keys, if_pos (running ▸ member), List.count_cons_self] at bound
        omega
      have taken := noted.take fresh room first now r.osl
      have keys : ∀ other, ((worker.sched.note decision).running.insert id
          { RunningSeq.new id first r.osl with
            admittedMs := now, lastTokenMs := max now now }).keys.count other =
          (if other = id then 1 else 0) + worker.sched.running.keys.count other := by
        intro other
        rw [AList.count_keys, AList.count_keys, running]
        by_cases here : other = id
        · subst here
          rw [running] at fresh
          simp [fresh]
        · simp [here]
      obtain ⟨out, done, admission⟩ := ih (turn + 1) taken
        (fun other => by
          have bound := once other
          rw [List.count_cons] at bound
          have count := keys other
          change List.count other pending + List.count other ((worker.sched.note decision).running.insert id _).keys ≤ 1
          rw [count]
          by_cases here : other = id
          · rw [if_pos here]
            rw [if_pos (by simp [here])] at bound
            omega
          · rw [if_neg here]
            omega)
        (fun other member => ready other (.tail _ member))
      refine ⟨out, done, ⟨admission.booked, fun other => ?_, admission.curve, admission.stepping, admission.total⟩⟩
      rw [admission.seats other]
      change List.count other pending + List.count other ((worker.sched.note decision).running.insert id _).keys = _
      rw [keys other, List.count_cons]
      by_cases here : other = id
      · simp [here]
        omega
      · have there : ¬(id == other) = true := by simpa using Ne.symm here
        simp [here, there]
    next refused =>
      refine ⟨_, rfl, ⟨⟨noted.keyed, noted.pages, noted.holders⟩, fun other => ?_, rfl, rfl, rfl⟩⟩
      change List.count other (id :: pending) + List.count other (worker.sched.note decision).running.keys = _
      rw [running]

/-- Giving pages back only moves them from the finished sequences to the free pool. -/
theorem giveBack_fold (done : List RunningSeq) (worker : DecodeWorkerSim) :
    ∃ held free, done.foldl (fun worker seq => worker.giveBack seq.id) worker =
        { worker with held, freeBlocks := free } ∧
      free + held.sum (fun _ blocks => blocks) = worker.freeBlocks + worker.held.sum (fun _ blocks => blocks) ∧
      ∀ id, id ∈ held ↔ id ∈ worker.held ∧ id ∉ done.map (·.id) := by
  induction done generalizing worker with
  | nil => exact ⟨worker.held, worker.freeBlocks, rfl, rfl, fun id => by simp⟩
  | cons seq done ih =>
    obtain ⟨held, free, state, pages, members⟩ := ih (worker.giveBack seq.id)
    rw [List.foldl_cons, state]
    cases found : worker.held.lookup seq.id with
    | none =>
      have same : worker.giveBack seq.id = worker := by rw [giveBack, found]
      rw [same] at pages members ⊢
      refine ⟨held, free, rfl, pages, fun id => ?_⟩
      rw [members, List.map_cons, List.mem_cons, not_or]
      constructor
      · rintro ⟨inside, later⟩
        refine ⟨inside, fun here => ?_, later⟩
        rw [here] at inside
        exact AList.lookup_eq_none.mp found inside
      · rintro ⟨inside, _, later⟩
        exact ⟨inside, later⟩
    | some blocks =>
      have next : worker.giveBack seq.id =
          { worker with held := worker.held.erase seq.id, freeBlocks := worker.freeBlocks + blocks } := by
        rw [giveBack, found]
      rw [next] at pages members ⊢
      refine ⟨held, free, rfl, ?_, fun id => ?_⟩
      · rw [pages, AList.sum_of_lookup (fun _ blocks => blocks) found, Nat.add_assoc]
      · rw [members, List.map_cons, List.mem_cons, not_or]
        change id ∈ worker.held.erase seq.id ∧ _ ↔ _
        rw [AList.mem_erase]
        tauto

end DecodeWorkerSim

namespace Simulator

variable {cfg : Config}

/-- What a forward pass does: the step's finished sequences leave the worker and give their pages back, and their
clients issue again when the step is over. -/
structure Passed (s : Simulator cfg) (w : Fin cfg.topology.decodeWorkers) (worker : DecodeWorkerSim) (time : Millis)
    (done : List RunningSeq) (sched : DecodeScheduler) (reqs : HashMap RequestId (ReqState cfg.topology))
    (held : HashMap RequestId ℕ) (free : ℕ) (released : List (Scheduled cfg.topology)) (out : Simulator cfg) : Prop where
  state : out =
    { s with
      decode := Function.update s.decode w { worker with sched, held, freeBlocks := free }
      reqs
      outcomes := out.outcomes
      seq := s.seq + released.length + 1
      heap := ⟨time, s.seq + released.length + 1, .decodeStep w⟩ :: (released ++ s.heap)
      concurrencySamples := out.concurrencySamples
      peakConcurrency := out.peakConcurrency }
  known : ∀ id r, reqs.lookup id = some r → id ∉ done.map (·.id) ∧
    ∃ old, s.reqs.lookup id = some old ∧ r.firstTokenMs = old.firstTokenMs
  members : ∀ id, id ∈ reqs ↔ id ∈ s.reqs ∧ id ∉ done.map (·.id)
  arrivals : ∀ entry ∈ released, entry.time = time ∧ ∃ client, entry.event = .arrival client
  clients : released.length + reqs.entries.length = s.reqs.entries.length
  pages : free + held.sum (fun _ blocks => blocks) = worker.freeBlocks + worker.held.sum (fun _ blocks => blocks)
  holders : ∀ id, id ∈ held ↔ id ∈ worker.held ∧ id ∉ done.map (·.id)

theorem forwardPass_spec (orders : EventOrders) (s : Simulator cfg) (w : Fin cfg.topology.decodeWorkers)
    (worker : DecodeWorkerSim) {time : Millis} (timeEq : time = s.now + worker.curve.stepMs worker.sched.concurrency)
    {done : List RunningSeq} {sched : DecodeScheduler}
    (stepped : worker.sched.onStepSyntheticIn orders.step time (worker.curve.stepMs worker.sched.concurrency) =
      (done, sched)) :
    ∃ reqs held free released,
      Passed s w worker time done sched reqs held free released (s.forwardPass orders w worker) := by
  subst timeEq
  unfold forwardPass
  simp only [stepped]
  obtain ⟨stamped, stampedState, stampedLookups⟩ := stampToken_fold (s.now + worker.curve.stepMs worker.sched.concurrency)
    ((sched.rehash orders.attached).runningSeqs.map (·.id))
    ({ s with
      concurrencySamples := s.concurrencySamples ++ [(worker.sched.concurrency : ℚ)]
      peakConcurrency := max s.peakConcurrency worker.sched.concurrency }.setDecode w { worker with sched })
  rw [stampedState]
  obtain ⟨reqs, outcomes, released, retired⟩ := retire_fold w (s.now + worker.curve.stepMs worker.sched.concurrency) done
    { ({ s with
        concurrencySamples := s.concurrencySamples ++ [(worker.sched.concurrency : ℚ)]
        peakConcurrency := max s.peakConcurrency worker.sched.concurrency }.setDecode w { worker with sched }) with
      reqs := stamped }
  obtain ⟨held, free, returned, pages, holders⟩ := DecodeWorkerSim.giveBack_fold done { worker with sched }
  have size : stamped.entries.length = s.reqs.entries.length := by
    refine AList.length_congr fun id => ?_
    rw [← AList.lookup_isSome, ← AList.lookup_isSome, stampedLookups, Option.isSome_map]
    rfl
  have lookups : ∀ id, reqs.lookup id = if id ∈ done.map (·.id) then none else stamped.lookup id := retired.lookups
  refine ⟨reqs, held, free, released, ⟨?_, fun id r found => ?_, fun id => ?_, retired.arrivals, ?_, pages, holders⟩⟩
  · rw [retired.state]
    simp only [push, setDecode, Function.update_self, Function.update_idem, returned]
  · rw [lookups] at found
    split at found
    next => cases found
    next kept =>
      rw [stampedLookups] at found
      obtain ⟨old, before, rfl⟩ := Option.map_eq_some_iff.mp found
      refine ⟨kept, old, before, ?_⟩
      split <;> rfl
  · rw [← AList.lookup_isSome, ← AList.lookup_isSome, lookups]
    split
    next gone => simp [gone]
    next kept =>
      rw [stampedLookups, Option.isSome_map]
      exact ⟨fun known => ⟨known, kept⟩, And.left⟩
  · rw [← size]
    exact retired.clients

end Simulator

end TrtLlm.Sim
