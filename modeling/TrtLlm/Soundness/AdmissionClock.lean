import TrtLlm.Machine.Path
import TrtLlm.Soundness.DecodeRound
import TrtLlm.Soundness.SimConservation

/-! # Since when a sequence is charged

A step charges each running sequence for the time since the later of its last token and its admission stamp. The stamp
is written by whoever admits the sequence: the simulator stamps its virtual time, the worker stamps the time of the first
token, which is when the prefill ended. Here both paths carry the time at which they really admitted each sequence, and a
step is fair when no sequence is charged for more than the time since then.
-/

namespace TrtLlm.Sched

/-- A call of `on_step`, with the time since when each running sequence is admitted. -/
structure StepCall where
  sched : DecodeScheduler
  now : Millis
  since : RequestId → Millis

/-- No running sequence is charged for time before its admission. -/
def StepCall.Fair (call : StepCall) : Prop :=
  ∀ id seq, call.sched.running.lookup id = some seq → seq.ageMs call.now ≤ call.now - call.since id

theorem RunningSeq.ageMs_le_iff (seq : RunningSeq) (now since : Millis) :
    seq.ageMs now ≤ now - since ↔ since ≤ max seq.lastTokenMs seq.admittedMs :=
  sub_le_sub_iff_left now

end TrtLlm.Sched

namespace TrtLlm.Worker.DecodeWorker

open KvCache Sched Engine

/-- Since when the worker has a sequence, and whether it has booked a token of it. -/
structure Tenure where
  since : Millis
  booked : Bool

/-- One pass of the worker, with the readings of the clock at its admissions. -/
structure TimedRound where
  input : DecodeRound
  admittedAt : RequestId → Millis

/-- The worker with its last reading of the clock and a record of its admissions. -/
structure Watched where
  worker : DecodeWorker
  clock : Millis
  tenure : RequestId → Tenure

namespace Watched

/-- The sequences a pass admits. -/
def added (s : Watched) (pass : TimedRound) : List RequestId := (s.worker.admitted pass.input).1.map (·.id)

/-- The record after the admissions of a pass. -/
def noted (s : Watched) (pass : TimedRound) (id : RequestId) : Tenure :=
  if id ∈ s.added pass then ⟨pass.admittedAt id, false⟩ else s.tenure id

/-- The step of a pass, unless nothing runs or the engine fails. -/
def outcome (s : Watched) (pass : TimedRound) : Option DecodeStepOutcome :=
  if (s.worker.admitted pass.input).2.sched.concurrency = 0 then none
  else (pass.input.step (s.worker.admitted pass.input).1).toOption

/-- The call of `on_step` in a pass that makes one. -/
def stepCall (s : Watched) (pass : TimedRound) : Option StepCall :=
  (s.outcome pass).map fun _ =>
    ⟨(s.worker.admitted pass.input).2.sched, pass.input.now, fun id => (s.noted pass id).since⟩

/-- The clock never runs backwards. -/
def InOrder (s : Watched) (pass : TimedRound) : Prop :=
  s.clock ≤ pass.input.now ∧ ∀ id ∈ s.added pass, s.clock ≤ pass.admittedAt id ∧ pass.admittedAt id ≤ pass.input.now

def advanced (s : Watched) (pass : TimedRound) : List RequestId :=
  ((s.outcome pass).map fun step => step.tokens.map Prod.fst).getD []

def next (s : Watched) (pass : TimedRound) : Watched where
  worker := (s.worker.round pass.input).2
  clock := pass.input.now
  tenure id := { s.noted pass id with booked := (s.noted pass id).booked || decide (id ∈ s.advanced pass) }

end Watched

/-- A worker that starts with nothing running. -/
def watched : Machine.System Watched TimedRound :=
  .ofFun (fun s => ∃ sched numBlocks blockSize watermark, sched.running = ∅ ∧
    s.worker = .new sched numBlocks blockSize watermark) Watched.InOrder Watched.next

/-- What the stamps of the running sequences say about the real admissions. -/
def Stamped (clock : Millis) (sched : DecodeScheduler) (tenure : RequestId → Tenure) : Prop :=
  ∀ id seq, sched.running.lookup id = some seq → seq.admittedMs = seq.firstTokenMs ∧ (tenure id).since ≤ clock ∧
    if (tenure id).booked then (tenure id).since ≤ seq.lastTokenMs else seq.lastTokenMs = seq.firstTokenMs

/-- What the admission loop leaves in the running map: new entries for what it admitted, and the old ones. -/
def Entered (worker : DecodeWorker) (out : List DecodeSeqSpec × DecodeWorker) : Prop :=
  ∀ id seq, out.2.sched.running.lookup id = some seq →
    (id ∈ out.1.map (·.id) ∧ ∃ first osl, seq = .new id first osl) ∨
      (id ∉ out.1.map (·.id) ∧ worker.sched.running.lookup id = some seq)

theorem admission_entered (add : DecodeSeqSpec → Except Error Unit) (jobs : List DecodeAdmit) (worker : DecodeWorker) :
    Entered worker (admission add jobs worker) := by
  have kept : ∀ {worker next : DecodeWorker}, next.sched.running = worker.sched.running → Entered worker ([], next) :=
    fun same id seq found => .inr ⟨List.not_mem_nil, same ▸ found⟩
  induction jobs generalizing worker with
  | nil => exact kept rfl
  | cons job jobs ih =>
    have same : (worker.consult job).2.sched.running = worker.sched.running := DecodeScheduler.note_running _
    rw [admission]
    simp only
    split
    next => exact kept same
    next =>
      split
      next => exact kept same
      next blocks pool granted =>
        generalize held : ({ (worker.consult job).2 with
          pool, kv := (worker.consult job).2.kv.insert job.id blocks } : DecodeWorker) = holder
        have running : holder.sched.running = worker.sched.running := by
          rw [← held]
          exact same
        split
        next =>
          intro id seq found
          rcases ih (holder.undo job blocks) id seq found with new | ⟨other, old⟩
          · exact .inl new
          · exact .inr ⟨other, running ▸ old⟩
        next =>
          intro id seq found
          rw [List.map_cons, List.mem_cons, not_or]
          rcases ih (holder.start job) id seq found with ⟨later, new⟩ | ⟨other, old⟩
          · exact .inl ⟨.inr later, new⟩
          · change AList.lookup id (holder.sched.running.insert job.id _) = some seq at old
            by_cases here : id = job.id
            · rw [here, AList.lookup_insert] at old
              exact .inl ⟨.inl here, _, _, here ▸ (Option.some.inj old).symm⟩
            · rw [AList.lookup_insert_ne here, running] at old
              exact .inr ⟨⟨here, other⟩, old⟩

namespace Watched

variable {s : Watched} {pass : TimedRound}

theorem stamped_noted (stamped : Stamped s.clock s.worker.sched s.tenure) (order : s.InOrder pass) :
    Stamped pass.input.now (s.worker.admitted pass.input).2.sched (s.noted pass) := by
  intro id seq found
  rcases admission_entered _ _ _ id seq found with ⟨new, first, osl, rfl⟩ | ⟨old, before⟩
  · have since : s.noted pass id = ⟨pass.admittedAt id, false⟩ := if_pos new
    rw [since]
    exact ⟨rfl, (order.2 id new).2, rfl⟩
  · have since : s.noted pass id = s.tenure id := if_neg old
    rw [since]
    obtain ⟨stamp, past, last⟩ := stamped id seq before
    exact ⟨stamp, past.trans order.1, last⟩

/-- A pass that makes no step leaves the scheduler as its admissions did; one that does leaves it as `on_step` did. -/
theorem next_sched (s : Watched) (pass : TimedRound) : (s.next pass).worker.sched =
    ((s.outcome pass).map fun step => ((s.worker.admitted pass.input).2.sched.onStep pass.input.now step.elapsedMs
      (step.tokens.map Prod.fst) step.finished).2).getD (s.worker.admitted pass.input).2.sched := by
  change (s.worker.round pass.input).2.sched = _
  unfold round outcome
  simp only
  split
  next => rfl
  next =>
    cases pass.input.step (s.worker.admitted pass.input).1 with
    | error _ => rfl
    | ok step => exact (releasePages_frame _ _).1

theorem stamped_next (stamped : Stamped s.clock s.worker.sched s.tenure) (order : s.InOrder pass) :
    Stamped (s.next pass).clock (s.next pass).worker.sched (s.next pass).tenure := by
  have noted := stamped_noted stamped order
  intro id seq found
  rw [next_sched] at found
  change _ ∧ (s.noted pass id).since ≤ pass.input.now ∧
    if ((s.noted pass id).booked || decide (id ∈ s.advanced pass)) = true then (s.noted pass id).since ≤ _ else _
  unfold advanced
  cases stepped : s.outcome pass with
  | none =>
    rw [stepped] at found
    simpa using noted id seq found
  | some step =>
    rw [stepped] at found
    obtain ⟨old, before, quiet | ⟨emits, tokens, rfl⟩⟩ := DecodeScheduler.onStepIn_entries .stored .stored _ _ _ _ _ found
    · obtain ⟨still, rfl⟩ := quiet
      simpa [still] using noted id seq before
    · obtain ⟨stamp, past, -⟩ := noted id old before
      refine ⟨stamp, past, ?_⟩
      split
      next => exact past
      next silent => exact absurd ((Bool.or_eq_true _ _).mpr (.inr (decide_eq_true emits))) silent

theorem stamped_run {passes : List TimedRound} (run : Machine.Run watched passes s) :
    Stamped s.clock s.worker.sched s.tenure := by
  refine run.invariant (P := fun s => Stamped s.clock s.worker.sched s.tenure) ?_ ?_
  · rintro s ⟨sched, numBlocks, blockSize, watermark, empty, worker⟩ id seq found
    rw [worker, show (DecodeWorker.new sched numBlocks blockSize watermark).sched.running = ∅ from empty] at found
    simp at found
  · rintro s pass t stamped ⟨order, rfl⟩
    exact stamped_next stamped order

/-- A step is fair exactly when every sequence without a booked token was admitted by the time of its first token. -/
theorem fair_iff {passes : List TimedRound} (run : Machine.Run watched passes s) (order : s.InOrder pass)
    {call : StepCall} (called : s.stepCall pass = some call) :
    call.Fair ↔ ∀ id seq, call.sched.running.lookup id = some seq → (s.noted pass id).booked = false →
      call.since id ≤ seq.firstTokenMs := by
  obtain ⟨step, -, rfl⟩ := Option.map_eq_some_iff.mp called
  have noted := stamped_noted (stamped_run run) order
  refine forall_congr' fun id => forall_congr' fun seq => forall_congr' fun found => ?_
  rw [RunningSeq.ageMs_le_iff]
  obtain ⟨stamp, -, last⟩ := noted id seq found
  change (s.noted pass id).since ≤ _ ↔ (_ → (s.noted pass id).since ≤ _)
  cases booked : (s.noted pass id).booked with
  | true =>
    rw [booked, if_pos rfl] at last
    simp [last]
  | false =>
    rw [booked, if_neg Bool.false_ne_true] at last
    simp [stamp, last]

end Watched

end TrtLlm.Worker.DecodeWorker

namespace TrtLlm.Sim

open Engine KvCache Routing Sched

namespace DecodeWorkerSim

/-- The ids the admission loop took from the pending list and knew. -/
def admittedIds {cfg : Config} (reqs : HashMap RequestId (ReqState cfg.topology)) (pending rest : List RequestId) :
    List RequestId := (pending.take (pending.length - rest.length)).filter fun id => decide (id ∈ reqs)

/-- What the admission loop leaves in the running map: entries stamped now for what it admitted, and the old ones. -/
theorem admitLoop_entries {cfg : Config} {reqs : HashMap RequestId (ReqState cfg.topology)} {now : Millis}
    {tolerances : ℕ → IterOrder} {pending : List RequestId} {turn : ℕ} {worker out : DecodeWorkerSim}
    (done : admitLoop reqs now tolerances turn pending worker = some out) :
    ∃ taken, pending = taken ++ out.pending ∧ ∀ id seq, out.sched.running.lookup id = some seq →
      (id ∈ taken ∧ id ∈ reqs ∧ seq.admittedMs = now) ∨
        ((id ∉ taken ∨ id ∉ reqs) ∧ worker.sched.running.lookup id = some seq) := by
  induction pending generalizing turn worker with
  | nil =>
    obtain rfl := Option.some.inj done
    exact ⟨[], rfl, fun id seq found => .inr ⟨.inl List.not_mem_nil, found⟩⟩
  | cons first pending ih =>
    rw [admitLoop] at done
    split at done
    next unknown =>
      obtain ⟨taken, split, entries⟩ := ih done
      refine ⟨first :: taken, by rw [List.cons_append, ← split], fun id seq found => ?_⟩
      have missing : first ∉ reqs := AList.lookup_eq_none.mp unknown
      rcases entries id seq found with ⟨listed, known, stamp⟩ | ⟨other, old⟩
      · exact .inl ⟨.tail _ listed, known, stamp⟩
      · refine .inr ⟨?_, old⟩
        by_cases here : id = first
        · exact .inr (here ▸ missing)
        · simpa [here] using other
    next r known =>
      simp only at done
      split at done
      next =>
        split at done
        next => cases done
        next token emitted =>
          obtain ⟨taken, split, entries⟩ := ih done
          refine ⟨first :: taken, by rw [List.cons_append, ← split], fun id seq found => ?_⟩
          have member : first ∈ reqs := AList.mem_iff_exists_lookup.mpr ⟨_, known⟩
          rcases entries id seq found with ⟨listed, present, stamp⟩ | ⟨other, old⟩
          · exact .inl ⟨.tail _ listed, present, stamp⟩
          · change AList.lookup id (AList.insert first _ (worker.sched.note _).running) = some seq at old
            by_cases here : id = first
            · rw [here, AList.lookup_insert] at old
              exact .inl ⟨here ▸ .head _, here ▸ member, by rw [← Option.some.inj old]⟩
            · rw [AList.lookup_insert_ne here, DecodeScheduler.note_running] at old
              exact .inr ⟨by simpa [here] using other, old⟩
      next =>
        obtain rfl := Option.some.inj done
        exact ⟨[], rfl, fun id seq found => .inr ⟨.inl List.not_mem_nil, DecodeScheduler.note_running _ ▸ found⟩⟩

end DecodeWorkerSim

namespace Simulator

variable {cfg : Config} {s out : Simulator cfg}

/-! ### Which events touch the running sequences -/

theorem drainXferQueue_decode (s : Simulator cfg) : s.drainXferQueue.decode = s.decode := by
  obtain ⟨started, rest, state, -⟩ := drain_spec s
  rw [state]

theorem onArrival_decode (orders : EventOrders) (client : ℕ) (done : s.onArrival orders client = some out) :
    out.decode = s.decode := by
  unfold onArrival at done
  simp only at done
  split at done
  next => cases done
  next =>
    split at done
    next =>
      obtain rfl := Option.some.inj done
      rw [(tryStartPrefill_frame _ _).1, (accept_frame _ _ _ _ _ _).1]
      rfl
    next => cases done

theorem handOff_decode (finished : List RequestId) (done : handOff finished s = some out) : out.decode = s.decode := by
  induction finished generalizing s with
  | nil => rw [Option.some.inj done]
  | cons id finished ih =>
    rw [handOff] at done
    split at done
    next => cases done
    next => exact (ih done).trans rfl

theorem onPrefillDone_decode (w : Fin cfg.topology.prefillWorkers) (done : s.onPrefillDone w = some out) :
    out.decode = s.decode := by
  unfold onPrefillDone at done
  simp only at done
  split at done
  next => rw [Option.some.inj done]
  next =>
    split at done
    next => cases done
    next handed ended =>
      obtain rfl := Option.some.inj done
      rw [(tryStartPrefill_frame _ _).1, drainXferQueue_decode]
      exact (handOff_decode _ ended).trans rfl

theorem setDecode_sched (s : Simulator cfg) (w : Fin cfg.topology.decodeWorkers) {worker : DecodeWorkerSim}
    (same : worker.sched = (s.decode w).sched) (v : Fin cfg.topology.decodeWorkers) :
    ((s.setDecode w worker).decode v).sched = (s.decode v).sched :=
  forall_setDecode (P := fun v worker => worker.sched = (s.decode v).sched) w same (fun _ _ => rfl) v

theorem onKvArrived_sched (id : RequestId) (w v : Fin cfg.topology.decodeWorkers) :
    ((s.onKvArrived id w).decode v).sched = (s.decode v).sched := by
  let freed : Simulator cfg := { s with xferBusy := s.xferBusy - 1 }
  have drained : freed.drainXferQueue.decode = s.decode := freed.drainXferQueue_decode
  let landed : DecodeWorkerSim :=
    { freed.drainXferQueue.decode w with
      pending := (freed.drainXferQueue.decode w).pending ++ [id], stepping := true }
  have same : landed.sched = (freed.drainXferQueue.decode w).sched := rfl
  have queued := freed.drainXferQueue.setDecode_sched w same v
  rw [drained] at queued
  unfold onKvArrived
  simp only
  split
  · exact queued
  · exact queued

/-- A decode step leaves the other workers alone, and its own worker with what it had after its admissions. -/
theorem onDecodeStep_entries (orders : EventOrders) {w : Fin cfg.topology.decodeWorkers}
    (done : s.onDecodeStep orders w = some out) :
    (∀ v, v ≠ w → (out.decode v).sched = (s.decode v).sched) ∧ ∃ worker, s.admitDecode orders w = some worker ∧
      ∀ id seq, (out.decode w).sched.running.lookup id = some seq →
        ∃ old, worker.sched.running.lookup id = some old ∧ seq.admittedMs = old.admittedMs := by
  unfold onDecodeStep at done
  split at done
  next => cases done
  next worker admitted =>
    have replaced : ∀ final : DecodeWorkerSim, (∀ v, v ≠ w → ((s.setDecode w final).decode v).sched = (s.decode v).sched) ∧
        (s.setDecode w final).decode w = final := fun final =>
      ⟨fun v other => congrArg DecodeWorkerSim.sched (Function.update_of_ne other _ _), Function.update_self _ _ _⟩
    have still : ∀ final : DecodeWorkerSim, final.sched = worker.sched → ∀ id seq,
        ((s.setDecode w final).decode w).sched.running.lookup id = some seq →
        ∃ old, worker.sched.running.lookup id = some old ∧ seq.admittedMs = old.admittedMs := by
      intro final same id seq found
      rw [(replaced final).2, same] at found
      exact ⟨seq, found, rfl⟩
    split at done
    next =>
      split at done
      next =>
        obtain rfl := Option.some.inj done
        exact ⟨(replaced _).1, worker, admitted, still _ rfl⟩
      next =>
        obtain rfl := Option.some.inj done
        exact ⟨(replaced _).1, worker, admitted, still _ rfl⟩
    next =>
      obtain rfl := Option.some.inj done
      generalize stepped : worker.sched.onStepSyntheticIn orders.step
        (s.now + worker.curve.stepMs worker.sched.concurrency) (worker.curve.stepMs worker.sched.concurrency) = result
      obtain ⟨finished, sched⟩ := result
      obtain ⟨reqs, held, free, released, passed⟩ := forwardPass_spec orders s w worker rfl stepped
      rw [passed.state]
      refine ⟨(replaced _).1, worker, admitted, fun id seq found => ?_⟩
      change AList.lookup id ((s.setDecode w _).decode w).sched.running = some seq at found
      rw [(replaced _).2] at found
      refine DecodeScheduler.onStepSyntheticIn_stamp orders.step worker.sched
        (s.now + worker.curve.stepMs worker.sched.concurrency) (worker.curve.stepMs worker.sched.concurrency) ?_
      rw [stepped]
      exact found

/-! ### The admissions of a simulation -/

/-- The same state at a later time. -/
def atTime (s : Simulator cfg) (now : Millis) : Simulator cfg := { s with now }

/-- A simulation with the times at which its decode workers admitted the requests. -/
structure Watched (cfg : Config) where
  sim : Simulator cfg
  since : Fin cfg.topology.decodeWorkers → RequestId → Millis

namespace Watched

/-- The times for one worker after the admissions that a decode step at `now` begins with. -/
def noted (s : Watched cfg) (orders : EventOrders) (now : Millis) (w : Fin cfg.topology.decodeWorkers)
    (id : RequestId) : Millis :=
  match (s.sim.atTime now).admitDecode orders w with
  | none => s.since w id
  | some worker =>
    if id ∈ DecodeWorkerSim.admittedIds s.sim.reqs (s.sim.decode w).pending worker.pending then now else s.since w id

/-- The times after one event. -/
def recorded (s : Watched cfg) (orders : EventOrders) (entry : Scheduled cfg.topology) :
    Fin cfg.topology.decodeWorkers → RequestId → Millis :=
  match entry.event with
  | .decodeStep w => Function.update s.since w (s.noted orders entry.time w)
  | _ => s.since

/-- The call of `on_step` in the next turn, if it makes one. -/
def stepCall (s : Watched cfg) (orders : EventOrders) : Option StepCall :=
  match popEarliest s.sim.heap with
  | some (⟨now, _, .decodeStep w⟩, _) =>
    ((s.sim.atTime now).admitDecode orders w).bind fun worker =>
      if worker.sched.concurrency = 0 then none
      else some ⟨worker.sched, now + worker.curve.stepMs worker.sched.concurrency, s.noted orders now w⟩
  | _ => none

end Watched

def watched (cfg : Config) : Machine.System (Watched cfg) EventOrders where
  Init s := s.sim = start cfg
  Step s orders t := ∃ entry, s.sim.turn orders = .handled entry t.sim ∧ t.since = s.recorded orders entry

/-- Stamps are never earlier than the admissions. -/
def Stamped (since : RequestId → Millis) (sched : DecodeScheduler) : Prop :=
  ∀ id seq, sched.running.lookup id = some seq → since id ≤ seq.admittedMs

namespace Watched

variable {s t : Watched cfg}

theorem stamped_noted (orders : EventOrders) (now : Millis) {w : Fin cfg.topology.decodeWorkers}
    (stamped : Stamped (s.since w) (s.sim.decode w).sched) {worker : DecodeWorkerSim}
    (admitted : (s.sim.atTime now).admitDecode orders w = some worker) :
    Stamped (s.noted orders now w) worker.sched := by
  obtain ⟨taken, parts, entries⟩ := DecodeWorkerSim.admitLoop_entries admitted
  have front : (s.sim.decode w).pending.take ((s.sim.decode w).pending.length - worker.pending.length) = taken := by
    change (s.sim.decode w).pending = taken ++ worker.pending at parts
    rw [parts, List.length_append, Nat.add_sub_cancel, List.take_left]
  intro id seq found
  unfold noted DecodeWorkerSim.admittedIds
  simp only [admitted, front, List.mem_filter, decide_eq_true_eq]
  rcases entries id seq found with ⟨listed, known, stamp⟩ | ⟨other, old⟩
  · rw [if_pos ⟨listed, known⟩, stamp]
    exact le_rfl
  · rw [if_neg fun new => other.elim (fun apart => apart new.1) fun unknown => unknown new.2]
    exact stamped id seq old

theorem stamped_next (orders : EventOrders) (stamped : ∀ w, Stamped (s.since w) (s.sim.decode w).sched)
    (taken : (watched cfg).Step s orders t) : ∀ w, Stamped (t.since w) (t.sim.decode w).sched := by
  obtain ⟨entry, reached, since⟩ := taken
  obtain ⟨heap, popped, inside, handled⟩ := turn_handled reached
  obtain ⟨now, seq, event⟩ := entry
  have others : ∀ v, (t.sim.decode v).sched = (s.sim.decode v).sched → t.since v = s.since v →
      Stamped (t.since v) (t.sim.decode v).sched := by
    intro v same times
    rw [same, times]
    exact stamped v
  intro v
  cases event with
  | arrival client => exact others v (by rw [onArrival_decode orders client handled]) (by rw [since]; rfl)
  | prefillDone w => exact others v (by rw [onPrefillDone_decode w handled]) (by rw [since]; rfl)
  | kvArrived id w =>
    refine others v ?_ (by rw [since]; rfl)
    rw [← Option.some.inj handled]
    exact onKvArrived_sched id w v
  | decodeStep w =>
    have times : t.since = Function.update s.since w (s.noted orders now w) := since
    obtain ⟨apart, worker, admitted, entries⟩ := onDecodeStep_entries orders handled
    by_cases here : v = w
    · subst here
      rw [times, Function.update_self]
      intro id seq found
      obtain ⟨old, before, stamp⟩ := entries id seq found
      rw [stamp]
      exact stamped_noted orders now (stamped v) admitted id old before
    · exact others v (apart v here) (by rw [times, Function.update_of_ne here])

theorem stamped_run {orders : List EventOrders} (run : Machine.Run (watched cfg) orders s) :
    ∀ w, Stamped (s.since w) (s.sim.decode w).sched := by
  refine run.invariant (P := fun s => ∀ w, Stamped (s.since w) (s.sim.decode w).sched) ?_ ?_
  · intro s first w id seq found
    obtain ⟨arrivals, state, -⟩ := start_spec cfg
    rw [show s.sim = _ from first, state] at found
    change AList.lookup id (newDecodeScheduler cfg).running = some seq at found
    rw [newDecodeScheduler_running] at found
    simp at found
  · intro s orders t stamped taken
    exact stamped_next orders stamped taken

/-- Every step of a simulation is fair. -/
theorem fair {orders : List EventOrders} (run : Machine.Run (watched cfg) orders s) {next : EventOrders}
    {call : StepCall} (called : s.stepCall next = some call) : call.Fair := by
  have stamped := stamped_run run
  unfold stepCall at called
  split at called
  next now _ w _ _ =>
    obtain ⟨worker, admitted, stepping⟩ := Option.bind_eq_some_iff.mp called
    split at stepping
    next => cases stepping
    next =>
      obtain rfl := Option.some.inj stepping
      intro id seq found
      rw [RunningSeq.ageMs_le_iff]
      exact (stamped_noted next now (stamped w) admitted id seq found).trans (le_max_right _ _)
  next => cases called

/-- Handle a number of events, each with the stored iteration orders. -/
def handleMany : ℕ → Watched cfg → Option (Watched cfg)
  | 0, s => some s
  | n + 1, s =>
    match s.sim.turn .stored with
    | .handled entry sim => handleMany n ⟨sim, s.recorded .stored entry⟩
    | _ => none

theorem handleMany_run {n : ℕ} {orders : List EventOrders} (run : Machine.Run (watched cfg) orders s)
    (done : handleMany n s = some t) : Machine.Run (watched cfg) (orders ++ List.replicate n .stored) t := by
  induction n generalizing s orders with
  | zero =>
    obtain rfl := Option.some.inj done
    simpa using run
  | succ n ih =>
    rw [handleMany] at done
    split at done
    next entry sim reached =>
      have step : (watched cfg).Step s .stored ⟨sim, s.recorded .stored entry⟩ := ⟨entry, reached, rfl⟩
      have later := ih (run.snoc step) done
      rwa [List.append_assoc, List.singleton_append, ← List.replicate_succ] at later
    next => cases done

end Watched

end Simulator

end TrtLlm.Sim

namespace TrtLlm.Sched

open Engine Worker Sim

/-- When steering charges a sequence only for time since its admission. The simulator always does. The worker does at a
step exactly when every sequence of which no token has been booked was admitted by the time of its first token. -/
theorem steering_charge_since_admission (cfg : Config) :
    (∀ passes (s : DecodeWorker.Watched), Machine.Run DecodeWorker.watched passes s → ∀ pass, s.InOrder pass →
      ∀ call, s.stepCall pass = some call →
        (call.Fair ↔ ∀ id seq, call.sched.running.lookup id = some seq → (s.noted pass id).booked = false →
          call.since id ≤ seq.firstTokenMs)) ∧
    ∀ orders (s : Simulator.Watched cfg), Machine.Run (Simulator.watched cfg) orders s → ∀ next call,
      s.stepCall next = some call → call.Fair :=
  ⟨fun _ _ run _ order _ called => DecodeWorker.Watched.fair_iff run order called,
    fun _ _ run _ _ called => Simulator.Watched.fair run called⟩

/-- A worker with room for one sequence, and a pass that admits one at 171 ms and steps at 180 ms. -/
def freshWorker : DecodeWorker.Watched :=
  ⟨.new (.new 20 (.new 20 8 1 64)) 64 16 0, 0, fun _ => ⟨0, false⟩⟩

def admitAt171 (firstTokenMs : Millis) : DecodeWorker.TimedRound :=
  ⟨⟨[⟨1, 7, 16, 4, firstTokenMs⟩], fun _ => .ok (), fun _ => .ok { elapsedMs := 9, tokens := [(1, 8)] }, 180⟩, fun _ => 171⟩

theorem freshWorker_run : Machine.Run DecodeWorker.watched [] freshWorker :=
  .start ⟨_, _, _, _, rfl, rfl⟩

theorem admitAt171_inOrder (firstTokenMs : Millis) : freshWorker.InOrder (admitAt171 firstTokenMs) := by
  have early : (0 : ℚ) ≤ 171 ∧ (171 : ℚ) ≤ 180 := by norm_num
  exact ⟨early.1.trans early.2, fun _ _ => early⟩

/-- A first token at 0 ms whose transfer ends at 171 ms: nine milliseconds after the admission steering charges 180. -/
theorem transfer_charged_to_decode :
    ¬∀ passes (s : DecodeWorker.Watched), Machine.Run DecodeWorker.watched passes s → ∀ pass, s.InOrder pass →
      ∀ call, s.stepCall pass = some call → call.Fair := by
  intro claimed
  have computed : (freshWorker.stepCall (admitAt171 0)).any fun call => decide
      (call.sched.running.lookup 1 = some ⟨1, 0, 0, 0, 1, 4⟩ ∧ call.now = 180 ∧ call.since 1 = 171) := by
    decide +kernel
  obtain ⟨call, called, found, now, since⟩ : ∃ call, freshWorker.stepCall (admitAt171 0) = some call ∧
      call.sched.running.lookup 1 = some ⟨1, 0, 0, 0, 1, 4⟩ ∧ call.now = 180 ∧ call.since 1 = 171 := by
    simpa [Option.any_eq_true] using computed
  have charge := claimed [] freshWorker freshWorker_run _ (admitAt171_inOrder 0) call called 1 _ found
  rw [now, since] at charge
  exact absurd charge (by decide +kernel)

/-- A sequence admitted at the time of its first token, and the first decode step of a simulation. -/
theorem steering_charge_since_admission_steps :
    (∃ call, freshWorker.stepCall (admitAt171 171) = some call ∧ call.sched.concurrency = 1 ∧ call.Fair) ∧
    ∃ s : Simulator.Watched Simulator.smallConfig, ∃ call,
      Machine.Run (Simulator.watched Simulator.smallConfig) (List.replicate 4 .stored) s ∧
        s.stepCall .stored = some call ∧ call.sched.concurrency = 1 ∧ call.Fair := by
  obtain ⟨worker, simulator⟩ := steering_charge_since_admission Simulator.smallConfig
  refine ⟨?_, ?_⟩
  · have computed : (freshWorker.stepCall (admitAt171 171)).any fun call => decide
        (call.sched.running.entries = [⟨1, ⟨1, 171, 171, 171, 1, 4⟩⟩] ∧ call.since 1 = 171) := by
      decide +kernel
    obtain ⟨call, called, entries, since⟩ : ∃ call, freshWorker.stepCall (admitAt171 171) = some call ∧
        call.sched.running.entries = [⟨1, ⟨1, 171, 171, 171, 1, 4⟩⟩] ∧ call.since 1 = 171 := by
      simpa [Option.any_eq_true] using computed
    have size : call.sched.concurrency = 1 := congrArg List.length entries
    refine ⟨call, called, size, ?_⟩
    refine (worker [] freshWorker freshWorker_run _ (admitAt171_inOrder 171) call called).mpr fun id seq found _ => ?_
    have member := AList.mem_lookup_iff.mp found
    rw [entries, List.mem_singleton, Sigma.mk.injEq, heq_eq_eq] at member
    obtain ⟨rfl, rfl⟩ := member
    exact since.le
  · let first : Simulator.Watched Simulator.smallConfig := ⟨Simulator.start Simulator.smallConfig, fun _ _ => 0⟩
    have computed : ((Simulator.Watched.handleMany 4 first).bind fun s => s.stepCall .stored).any fun call =>
        decide (call.sched.concurrency = 1) := by
      decide +kernel
    obtain ⟨call, ⟨s, done, called⟩, size⟩ : ∃ call, (∃ s, Simulator.Watched.handleMany 4 first = some s ∧
        s.stepCall .stored = some call) ∧ call.sched.concurrency = 1 := by
      simpa [Option.any_eq_true, Option.bind_eq_some_iff] using computed
    have begun : Machine.Run (Simulator.watched Simulator.smallConfig) [] first := .start rfl
    have run := Simulator.Watched.handleMany_run begun done
    exact ⟨s, call, run, called, size, simulator _ s run .stored call called⟩

end TrtLlm.Sched
