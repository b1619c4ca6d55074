import Mathlib.Data.List.Nodup
import TrtLlm.Model.Sched.Iteration
import TrtLlm.Model.Worker.DecodeWorker
import TrtLlm.ToMathlib.AListLookup
import TrtLlm.ToMathlib.ListCount

/-! # What one pass of the decode worker does

The admission loop takes jobs from the front of the pending queue; each taken job starts running or, when
the engine refuses it, is gone. The step then retires running sequences the engine reports as finished, each
once.
-/

namespace TrtLlm.Sched.DecodeScheduler

variable {sched : DecodeScheduler}

/-- Running sequences sit under their own ids. -/
def Keyed (sched : DecodeScheduler) : Prop := ∀ id seq, sched.running.lookup id = some seq → seq.id = id

theorem Keyed.admitted (keyed : sched.Keyed) (seq : RunningSeq) : Keyed (sched.admitSeq seq) := by
  intro id other found
  by_cases here : id = seq.id
  · subst here
    rw [show (sched.admitSeq seq).running.lookup seq.id = some seq from AList.lookup_insert _] at found
    rw [← Option.some.inj found]
  · rw [show (sched.admitSeq seq).running.lookup id = sched.running.lookup id from AList.lookup_insert_ne here] at found
    exact keyed _ _ found

theorem note_running (decision : AdmitDecision) : (sched.note decision).running = sched.running := by
  cases decision <;> rfl

theorem Keyed.note (keyed : sched.Keyed) (decision : AdmitDecision) : (sched.note decision).Keyed := by
  unfold Keyed
  rw [note_running]
  exact keyed

theorem advance_frame (now : Millis) (sched : DecodeScheduler) (keyed : sched.Keyed) (id : RequestId) :
    (advance now sched id).Keyed ∧ ∀ other, other ∈ (advance now sched id).running ↔ other ∈ sched.running := by
  unfold advance
  split
  next seq found =>
    constructor
    · intro other after here
      by_cases same : other = id
      · subst same
        rw [AList.lookup_insert] at here
        rw [← Option.some.inj here]
        exact (keyed _ _ found : seq.id = other)
      · rw [AList.lookup_insert_ne same] at here
        exact keyed _ _ here
    · intro other
      rw [AList.mem_insert]
      constructor
      · rintro (rfl | member)
        · exact AList.mem_iff_exists_lookup.mpr ⟨_, found⟩
        · exact member
      · exact .inr
  next => exact ⟨keyed, fun _ => Iff.rfl⟩

theorem advanceAll_frame (now : Millis) (ids : List RequestId) (sched : DecodeScheduler) (keyed : sched.Keyed) :
    (ids.foldl (advance now) sched).Keyed ∧
      ∀ other, other ∈ (ids.foldl (advance now) sched).running ↔ other ∈ sched.running := by
  induction ids generalizing sched with
  | nil => exact ⟨keyed, fun _ => Iff.rfl⟩
  | cons id ids ih =>
    obtain ⟨advanced, same⟩ := advance_frame now sched keyed id
    obtain ⟨final, rest⟩ := ih (advance now sched id) advanced
    exact ⟨final, fun other => (rest other).trans (same other)⟩

theorem Keyed.erase (keyed : sched.Keyed) (id : RequestId) (flagged : Finset RequestId) :
    ({ sched with running := sched.running.erase id, flagged } : DecodeScheduler).Keyed := by
  intro other seq found
  exact keyed other seq (AList.lookup_of_erase found)

/-- What retiring a list of reported ids does: exactly the running ones among them leave, each once. -/
structure Retired (sched : DecodeScheduler) (finished : List RequestId)
    (out : List RunningSeq × DecodeScheduler) : Prop where
  keyed : out.2.Keyed
  running : ∀ id, id ∈ out.2.running ↔ id ∈ sched.running ∧ id ∉ finished
  retired : ∀ id, id ∈ out.1.map (·.id) ↔ id ∈ sched.running ∧ id ∈ finished
  once : (out.1.map (·.id)).Nodup

/-- The running ids are dealt out between those that stay and those that leave. -/
theorem Retired.count_keys {finished : List RequestId} {out : List RunningSeq × DecodeScheduler}
    (retired : sched.Retired finished out) (id : RequestId) :
    out.2.running.keys.count id + (out.1.map (·.id)).count id = sched.running.keys.count id := by
  have stays := retired.running id
  have leaves := retired.retired id
  rw [AList.count_keys, AList.count_keys, List.count_eq_ite_of_nodup retired.once]
  by_cases was : id ∈ sched.running <;> by_cases now : id ∈ finished <;> simp [stays, leaves, was, now]

theorem retire_spec (finished : List RequestId) (sched : DecodeScheduler) (keyed : sched.Keyed) :
    sched.Retired finished (retire finished sched) := by
  induction finished generalizing sched with
  | nil => exact ⟨keyed, fun id => by simp [retire], fun id => by simp [retire], List.nodup_nil⟩
  | cons first finished ih =>
    rw [retire]
    split
    next seq found =>
      have rest := ih _ (keyed.erase first (sched.flagged.erase first))
      have known : first ∈ sched.running := AList.mem_iff_exists_lookup.mpr ⟨_, found⟩
      have erased : ∀ id, id ∈ (sched.running.erase first) ↔ id ≠ first ∧ id ∈ sched.running := fun id =>
        AList.mem_erase
      refine ⟨rest.keyed, fun id => ?_, fun id => ?_, ?_⟩
      · rw [rest.running, List.mem_cons]
        simp only [erased]
        tauto
      · rw [List.map_cons, List.mem_cons, rest.retired, List.mem_cons, keyed _ _ found]
        simp only [erased]
        constructor
        · rintro (rfl | ⟨⟨_, running⟩, later⟩)
          · exact ⟨known, .inl rfl⟩
          · exact ⟨running, .inr later⟩
        · rintro ⟨running, same | later⟩
          · exact .inl same
          · by_cases same : id = first
            · exact .inl same
            · exact .inr ⟨⟨same, running⟩, later⟩
      · rw [List.map_cons, List.nodup_cons, keyed _ _ found]
        refine ⟨fun again => ?_, rest.once⟩
        exact ((erased first).mp ((rest.retired first).mp again).1).1 rfl
    next missing =>
      have absent : first ∉ sched.running := AList.lookup_eq_none.mp missing
      have rest := ih { sched with unknownFinishReports := sched.unknownFinishReports + 1 } keyed
      refine ⟨rest.keyed, fun id => ?_, fun id => ?_, rest.once⟩
      · rw [rest.running, List.mem_cons, not_or]
        constructor
        · rintro ⟨running, later⟩
          exact ⟨running, fun same => absent (same ▸ running), later⟩
        · rintro ⟨running, _, later⟩
          exact ⟨running, later⟩
      · rw [rest.retired, List.mem_cons]
        constructor
        · rintro ⟨running, later⟩
          exact ⟨running, .inr later⟩
        · rintro ⟨running, same | later⟩
          · exact absurd (same ▸ running) absent
          · exact ⟨running, later⟩

theorem flagDone_running (seqs : List RunningSeq) (sched : DecodeScheduler) :
    (seqs.foldl flagDone sched).running = sched.running := by
  induction seqs generalizing sched with
  | nil => rfl
  | cons seq seqs ih =>
    rw [List.foldl_cons, ih]
    unfold flagDone
    split <;> rfl

/-- Booking tokens stamps the advanced sequences and leaves the others alone. -/
theorem advanceAll_entries (now : Millis) (ids : List RequestId) (sched : DecodeScheduler) {id : RequestId}
    {seq : RunningSeq} (found : (ids.foldl (advance now) sched).running.lookup id = some seq) :
    ∃ old, sched.running.lookup id = some old ∧ (id ∉ ids ∧ seq = old ∨
      id ∈ ids ∧ ∃ tokens, seq = { old with tokensEmitted := tokens, lastTokenMs := now }) := by
  induction ids generalizing sched with
  | nil => exact ⟨seq, found, .inl ⟨List.not_mem_nil, rfl⟩⟩
  | cons first ids ih =>
    obtain ⟨old, before, booked⟩ := ih (advance now sched first) found
    unfold advance at before
    split at before
    next known here =>
      by_cases same : id = first
      · subst same
        rw [AList.lookup_insert] at before
        obtain rfl := Option.some.inj before
        refine ⟨known, here, .inr ⟨.head _, ?_⟩⟩
        rcases booked with ⟨-, rfl⟩ | ⟨-, tokens, rfl⟩
        · exact ⟨_, rfl⟩
        · exact ⟨tokens, rfl⟩
      · rw [AList.lookup_insert_ne same] at before
        simpa [same] using ⟨old, before, booked⟩
    next missing =>
      have other : id ≠ first := by
        rintro rfl
        rw [missing] at before
        cases before
      simpa [other] using ⟨old, before, booked⟩

theorem retire_entries (finished : List RequestId) (sched : DecodeScheduler) {id : RequestId} {seq : RunningSeq}
    (found : (retire finished sched).2.running.lookup id = some seq) : sched.running.lookup id = some seq := by
  induction finished generalizing sched with
  | nil => exact found
  | cons first finished ih =>
    rw [retire] at found
    split at found
    next =>
      have kept : AList.lookup id (sched.running.erase first) = some seq := ih _ found
      by_cases same : id = first
      · rw [same, AList.lookup_erase] at kept
        cases kept
      · rwa [AList.lookup_erase_ne same] at kept
    next => exact ih { sched with unknownFinishReports := sched.unknownFinishReports + 1 } found

/-- What a step leaves of a running sequence: the sequence as it was, or with tokens booked now if it advanced. -/
theorem onStepIn_entries (ages flags : IterOrder) (sched : DecodeScheduler) (now stepMs : Millis)
    (advanced finished : List RequestId) {id : RequestId} {seq : RunningSeq}
    (found : (sched.onStepIn ages flags now stepMs advanced finished).2.running.lookup id = some seq) :
    ∃ old, sched.running.lookup id = some old ∧ (id ∉ advanced ∧ seq = old ∨
      id ∈ advanced ∧ ∃ tokens, seq = { old with tokensEmitted := tokens, lastTokenMs := now }) := by
  let steer := ((sched.rehash ages).steeringItlMs now).getD stepMs
  let observed : DecodeScheduler := { sched with controller := sched.controller.observe steer sched.concurrency }
  change AList.lookup id (List.foldl flagDone _ _).running = some seq at found
  rw [flagDone_running] at found
  exact advanceAll_entries now advanced observed (retire_entries finished _ found)

/-- A simulated step leaves the admission stamps alone. -/
theorem onStepSyntheticIn_stamp (orders : StepOrders) (sched : DecodeScheduler) (now stepMs : Millis) {id : RequestId}
    {seq : RunningSeq} (found : (sched.onStepSyntheticIn orders now stepMs).2.running.lookup id = some seq) :
    ∃ old, sched.running.lookup id = some old ∧ seq.admittedMs = old.admittedMs := by
  obtain ⟨old, before, ⟨-, rfl⟩ | ⟨-, tokens, rfl⟩⟩ := onStepIn_entries orders.ages orders.flags sched now stepMs _ _ found
  · exact ⟨_, before, rfl⟩
  · exact ⟨old, before, rfl⟩

/-- One reported step retires exactly the running sequences among those reported as finished, in whatever order the
running map is iterated. -/
theorem onStepIn_spec (ages flags : IterOrder) (keyed : sched.Keyed) (now stepMs : Millis)
    (advanced finished : List RequestId) :
    sched.Retired finished (sched.onStepIn ages flags now stepMs advanced finished) := by
  let steer := ((sched.rehash ages).steeringItlMs now).getD stepMs
  let observed : DecodeScheduler := { sched with controller := sched.controller.observe steer sched.concurrency }
  obtain ⟨booked, same⟩ := advanceAll_frame now advanced observed keyed
  have retired := retire_spec finished _ booked
  have flagged := flagDone_running ((retire finished (advanced.foldl (advance now) observed)).2.rehash flags).runningSeqs
    (retire finished (advanced.foldl (advance now) observed)).2
  refine ⟨?_, fun id => ?_, fun id => ?_, retired.once⟩
  · intro id seq found
    change AList.lookup id (List.foldl flagDone _ _).running = _ at found
    rw [flagged] at found
    exact retired.keyed _ _ found
  · change id ∈ (List.foldl flagDone _ _).running ↔ _
    rw [flagged, retired.running, same]
  · exact (retired.retired id).trans (and_congr_left' (same id))

/-- The same for a simulated step, which finishes the sequences whose next token reaches their budget. -/
theorem onStepSyntheticIn_spec (orders : StepOrders) (keyed : sched.Keyed) (now stepMs : Millis) :
    ∃ finished, sched.Retired finished (sched.onStepSyntheticIn orders now stepMs) :=
  ⟨_, onStepIn_spec orders.ages orders.flags keyed now stepMs _ _⟩

theorem onStep_spec (keyed : sched.Keyed) (now stepMs : Millis) (advanced finished : List RequestId) :
    sched.Retired finished (sched.onStep now stepMs advanced finished) :=
  onStepIn_spec .stored .stored keyed now stepMs advanced finished

end TrtLlm.Sched.DecodeScheduler

namespace TrtLlm.Worker.DecodeWorker

open KvCache Sched Engine

variable {worker : DecodeWorker}

/-- What the admission loop does with a list of jobs. -/
structure Admission (add : DecodeSeqSpec → Except Error Unit) (jobs : List DecodeAdmit) (worker : DecodeWorker)
    (out : List DecodeSeqSpec × DecodeWorker) : Prop where
  keyed : out.2.sched.Keyed
  running : ∀ id, id ∈ out.2.sched.running ↔ id ∈ worker.sched.running ∨ id ∈ out.1.map (·.id)
  /-- The loop takes a front part of the jobs, and what the engine added comes from it. -/
  taken : ∃ taken, jobs = taken ++ out.2.pending ∧ (out.1.map (·.id)).Sublist (taken.map (·.id)) ∧
    (∀ spec ∈ out.1, ∃ job ∈ taken, spec.id = job.id ∧ spec.maxTokens = job.maxTokens) ∧
    ∀ job ∈ taken, (∀ spec, spec.id = job.id → add spec = .ok ()) → job.id ∈ out.1.map (·.id)

/-- The loop stops before its first job. -/
theorem Admission.refuse (add : DecodeSeqSpec → Except Error Unit) (jobs : List DecodeAdmit)
    {next : DecodeWorker} (keyed : next.sched.Keyed) (running : next.sched.running = worker.sched.running)
    (pending : next.pending = jobs) : Admission add jobs worker ([], next) where
  keyed := keyed
  running id := by simp [running]
  taken := ⟨[], by simp [pending], .slnil, by simp, by simp⟩

/-- The engine refuses the first job and the loop goes on without it. -/
theorem Admission.skip {add : DecodeSeqSpec → Except Error Unit} {job : DecodeAdmit} {jobs : List DecodeAdmit}
    {next : DecodeWorker} {out : List DecodeSeqSpec × DecodeWorker} (rest : Admission add jobs next out)
    (running : next.sched.running = worker.sched.running) {spec : DecodeSeqSpec} (same : spec.id = job.id)
    {error : Error} (failed : add spec = .error error) : Admission add (job :: jobs) worker out := by
  obtain ⟨taken, split, within, source, complete⟩ := rest.taken
  refine ⟨rest.keyed, fun id => by rw [rest.running, running], job :: taken, by rw [List.cons_append, ← split],
    within.cons _, ?_, ?_⟩
  · intro spec member
    obtain ⟨origin, listed, facts⟩ := source spec member
    exact ⟨origin, .tail _ listed, facts⟩
  · intro origin member accepts
    rcases List.mem_cons.mp member with rfl | later
    · rw [accepts spec same] at failed
      cases failed
    · exact complete origin later accepts

/-- The engine takes the first job and the loop goes on. -/
theorem Admission.take {add : DecodeSeqSpec → Except Error Unit} {job : DecodeAdmit} {jobs : List DecodeAdmit}
    {next : DecodeWorker} {out : List DecodeSeqSpec × DecodeWorker} (rest : Admission add jobs next out)
    (running : ∀ id, id ∈ next.sched.running ↔ id = job.id ∨ id ∈ worker.sched.running)
    {spec : DecodeSeqSpec} (same : spec.id = job.id) (budget : spec.maxTokens = job.maxTokens) :
    Admission add (job :: jobs) worker (spec :: out.1, out.2) := by
  obtain ⟨taken, split, within, source, complete⟩ := rest.taken
  refine ⟨rest.keyed, fun id => ?_, job :: taken, by rw [List.cons_append, ← split], ?_, ?_, ?_⟩
  · rw [rest.running, running, List.map_cons, List.mem_cons, same, or_assoc]
    exact or_left_comm
  · rw [List.map_cons, List.map_cons, same]
    exact within.cons_cons _
  · intro other member
    rcases List.mem_cons.mp member with rfl | later
    · exact ⟨job, .head _, same, budget⟩
    · obtain ⟨origin, listed, facts⟩ := source other later
      exact ⟨origin, .tail _ listed, facts⟩
  · intro origin member accepts
    rw [List.map_cons, same, List.mem_cons]
    rcases List.mem_cons.mp member with rfl | later
    · exact .inl rfl
    · exact .inr (complete origin later accepts)

theorem admission_spec (add : DecodeSeqSpec → Except Error Unit) (jobs : List DecodeAdmit) (worker : DecodeWorker)
    (keyed : worker.sched.Keyed) : Admission add jobs worker (admission add jobs worker) := by
  induction jobs generalizing worker with
  | nil => exact .refuse add [] keyed rfl rfl
  | cons job jobs ih =>
    have same : (worker.consult job).2.sched.running = worker.sched.running := DecodeScheduler.note_running _
    have noted : (worker.consult job).2.sched.Keyed := keyed.note _
    rw [admission]
    simp only
    split
    next => exact .refuse add _ noted same rfl
    next =>
      split
      next => exact .refuse add _ noted same rfl
      next blocks pool granted =>
        split
        next error failed =>
          refine Admission.skip (ih _ ?_) ?_ ?_ failed
          · exact noted
          · exact same
          · rfl
        next accepted =>
          refine Admission.take (ih _ ?_) (fun id => ?_) ?_ ?_
          · exact noted.admitted _
          · refine (AList.mem_insert _).trans ?_
            rw [same]
            rfl
          · rfl
          · rfl

/-- What a whole pass does. -/
structure Pass (worker : DecodeWorker) (input : DecodeRound) (out : DecodeReport × DecodeWorker) : Prop where
  admitted : Admission input.add (worker.pending ++ input.jobs) worker (out.1.added, (worker.admitted input).2)
  pending : out.2.pending = (worker.admitted input).2.pending
  keyed : out.2.sched.Keyed
  running : ∀ id, id ∈ out.2.sched.running ↔
    id ∈ (worker.admitted input).2.sched.running ∧ id ∉ out.1.retired.map (·.id)
  retired : ∀ id ∈ out.1.retired.map (·.id), id ∈ (worker.admitted input).2.sched.running
  once : (out.1.retired.map (·.id)).Nodup
  /-- A pass that made no successful step sends nothing; otherwise it reports the step. -/
  events : ((worker.admitted input).2.sched.concurrency = 0 ∨ ∃ error, input.step out.1.added = .error error) ∧
      out.1.retired = [] ∧ out.1.events = [] ∨
    ∃ step, (worker.admitted input).2.sched.concurrency ≠ 0 ∧ input.step out.1.added = .ok step ∧
    (∀ id, id ∈ out.1.retired.map (·.id) ↔ id ∈ (worker.admitted input).2.sched.running ∧ id ∈ step.finished) ∧
    out.1.events = (step.tokens.map fun emitted => .token emitted.1 emitted.2) ++
      out.1.retired.map fun seq => .finished seq.id seq.tokensEmitted

theorem releasePages_frame (seqs : List RunningSeq) (worker : DecodeWorker) :
    (seqs.foldl releasePages worker).sched = worker.sched ∧
      (seqs.foldl releasePages worker).pending = worker.pending := by
  induction seqs generalizing worker with
  | nil => exact ⟨rfl, rfl⟩
  | cons seq seqs ih =>
    obtain ⟨sched, pending⟩ := ih (worker.releasePages seq)
    refine ⟨sched.trans ?_, pending.trans ?_⟩ <;> unfold releasePages <;> split <;> rfl

theorem round_pass (worker : DecodeWorker) (input : DecodeRound) (keyed : worker.sched.Keyed) :
    Pass worker input (worker.round input) := by
  have admission : Admission input.add (worker.pending ++ input.jobs) worker (worker.admitted input) :=
    admission_spec _ _ worker keyed
  have quiet : (worker.admitted input).2.sched.concurrency = 0 ∨
        (∃ error, input.step (worker.admitted input).1 = .error error) →
      Pass worker input ({ added := (worker.admitted input).1 }, (worker.admitted input).2) := fun unstepped =>
    ⟨admission, rfl, admission.keyed, fun id => by simp, by simp, List.nodup_nil, .inl ⟨unstepped, rfl, rfl⟩⟩
  unfold round
  simp only
  split
  next none => exact quiet (.inl none)
  next some =>
    split
    next error failed => exact quiet (.inr ⟨error, failed⟩)
    next step answered =>
      have stepped := DecodeScheduler.onStep_spec admission.keyed input.now step.elapsedMs
        (step.tokens.map Prod.fst) step.finished
      obtain ⟨sched, pending⟩ := releasePages_frame
        ((worker.admitted input).2.sched.onStep input.now step.elapsedMs (step.tokens.map Prod.fst) step.finished).1
        { (worker.admitted input).2 with sched := ((worker.admitted input).2.sched.onStep input.now step.elapsedMs
          (step.tokens.map Prod.fst) step.finished).2 }
      refine ⟨admission, pending, ?_, fun id => ?_, fun id member => ((stepped.retired id).mp member).1,
        stepped.once, .inr ⟨step, some, answered, stepped.retired, rfl⟩⟩
      · change (List.foldl releasePages _ _).sched.Keyed
        rw [sched]
        exact stepped.keyed
      · change id ∈ (List.foldl releasePages _ _).sched.running ↔ _ ∧ id ∉ List.map _ (DecodeScheduler.onStep ..).1
        rw [sched, stepped.running, stepped.retired]
        tauto

end TrtLlm.Worker.DecodeWorker
