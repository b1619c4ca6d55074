import TrtLlm.Model.Worker.Deployment
import TrtLlm.Soundness.DecodeRound
import TrtLlm.Soundness.PrefillRound
import TrtLlm.ToMathlib.ListCount

/-! # Who carries a request

A request is carried by a prefill job channel or queue, by a completion on its way to the first pump, by a
decode job channel, pending list or running set, or by a finish event on its way to the second pump. A task
that has ended carries nothing. The lemmas count a request at one worker before and after a pass: a pass
never multiplies it, and keeps it unless one of the branches that forget it was taken.
-/

namespace TrtLlm.Worker

open KvCache Sched Engine

/-- The requests announced as finished. -/
def finishedIds (events : List DecodeEvent) : List RequestId :=
  events.filterMap fun
    | .token _ _ => none
    | .finished id _ => some id

theorem finishedIds_append (left right : List DecodeEvent) :
    finishedIds (left ++ right) = finishedIds left ++ finishedIds right := List.filterMap_append

theorem finishedIds_tokens (tokens : List (RequestId × TokenId)) :
    finishedIds (tokens.map fun emitted => .token emitted.1 emitted.2) = [] := by
  induction tokens with
  | nil => rfl
  | cons emitted tokens ih => exact ih

theorem finishedIds_retired (seqs : List RunningSeq) :
    finishedIds (seqs.map fun seq => .finished seq.id seq.tokensEmitted) = seqs.map (·.id) := by
  induction seqs with
  | nil => rfl
  | cons seq seqs ih => exact congrArg (seq.id :: ·) ih

namespace PrefillSite

variable {site : PrefillSite} {call : PrefillCall} {outOpen : Bool}

def carried (site : PrefillSite) : List RequestId :=
  if site.alive then site.jobs.map (·.id) ++ site.worker.sched.queue.keys else []

theorem count_carried (site : PrefillSite) (alive : site.alive = true) (id : RequestId) : site.carried.count id =
    (site.jobs.map (·.id)).count id + if id ∈ site.worker.sched.queue then 1 else 0 := by
  rw [carried, if_pos alive, List.count_append, AList.count_keys]

/-- A job sent to a live task is carried there. -/
theorem count_push (alive : site.alive = true) (job : PrefillJob) (id : RequestId) :
    ({ site with jobs := site.jobs ++ [job] } : PrefillSite).carried.count id =
      site.carried.count id + if id = job.id then 1 else 0 := by
  rw [count_carried site alive, count_carried { site with jobs := site.jobs ++ [job] } alive, List.map_append,
    List.count_append, List.map_singleton, List.count_singleton]
  simp only [beq_iff_eq, eq_comm (a := job.id)]
  omega

/-- The pass does not forget a request: if its call returns `Ok`, then its completions can be sent, and the pool
covers the batch up to a chunk that completes the request, or nothing of it at all. -/
def Keeps (site : PrefillSite) (call : PrefillCall) (outOpen : Bool) (id : RequestId) : Prop :=
  ∀ outcome, call.answer (site.worker.resolved (site.input call outOpen)).1 = .ok outcome →
    (outOpen = true ∨ outcome.firstTokens = []) ∧
      ((∃ first, (site.worker.planned (site.input call outOpen)).1.chunks.head? = some first ∧
          ¬(site.worker.planned (site.input call outOpen)).2.Covers [first]) ∨
        ∀ front chunk back, (site.worker.planned (site.input call outOpen)).1.chunks = front ++ chunk :: back →
          chunk.id = id → chunk.completes = true →
            (site.worker.planned (site.input call outOpen)).2.Covers (front ++ [chunk]))

/-- A request taken from the channel sits in the queue, once. -/
theorem count_accept (worker : PrefillWorker) (jobs : List PrefillJob) (id : RequestId) :
    (if id ∈ (worker.accept jobs).sched.queue then 1 else 0) ≤
        (jobs.map (·.id)).count id + (if id ∈ worker.sched.queue then 1 else 0) ∧
      ((jobs.map (·.id)).count id + (if id ∈ worker.sched.queue then 1 else 0) ≤ 1 →
        (if id ∈ (worker.accept jobs).sched.queue then 1 else 0) =
          (jobs.map (·.id)).count id + (if id ∈ worker.sched.queue then 1 else 0)) := by
  refine ite_or_count ?_
  rw [List.count_pos_iff]
  exact worker.mem_accept jobs id

/-- The completions of an answered pass against the requests it finishes: the ones cut off are missing. -/
theorem count_firstTokens (worker : PrefillWorker) (input : PrefillRound)
    (samples : Deployment.SamplesCompleted input.answer) {outcome : PrefillOutcome}
    (answered : input.answer (worker.resolved input).1 = .ok outcome) {rest : List PrefillChunk}
    (split : (worker.planned input).1.chunks = (worker.resolved input).1.map PrefillWorker.asChunk ++ rest)
    (id : RequestId) : (worker.finishes input).count id =
      (outcome.firstTokens.map Prod.fst).count id + ((rest.filter (·.completes)).map (·.id)).count id := by
  rw [PrefillWorker.finishes, split, List.filter_append, List.map_append, List.count_append,
    (samples _ _ answered).count_eq, List.filter_map, List.map_map]
  rfl

/-- What is queued or finished after an answered pass was queued when it started. -/
theorem count_finishes {worker : PrefillWorker} (stocked : worker.Stocked) {input : PrefillRound}
    {outcome : PrefillOutcome} {out : PrefillReport × PrefillWorker}
    (booking : worker.Booking input outcome out) (id : RequestId) :
    (if id ∈ out.2.sched.queue then 1 else 0) + (worker.finishes input).count id =
      if id ∈ (worker.accept input.jobs).sched.queue then 1 else 0 := by
  have plan := stocked.plan input
  have distinct : (worker.finishes input).Nodup :=
    plan.distinct.sublist (List.filter_sublist.map _)
  have queued : id ∈ worker.finishes input → id ∈ (worker.accept input.jobs).sched.queue := by
    intro member
    obtain ⟨chunk, kept, rfl⟩ := List.mem_map.mp member
    obtain ⟨p, found, _⟩ := plan.fits chunk (List.mem_filter.mp kept).1
    rw [PrefillWorker.planned_lookup] at found
    exact AList.mem_iff_exists_lookup.mpr ⟨_, found⟩
  have after : id ∈ out.2.sched.queue ↔
      id ∉ worker.finishes input ∧ id ∈ (worker.accept input.jobs).sched.queue := by
    rw [← AList.lookup_isSome, booking.queue, ← AList.lookup_isSome]
    split <;> simp [*]
  rw [List.count_eq_ite_of_nodup distinct]
  by_cases finished : id ∈ worker.finishes input
  · rw [if_pos finished, if_pos (queued finished), if_neg fun member => (after.mp member).1 finished]
  · rw [if_neg finished, Nat.add_zero]
    exact if_congr (after.trans (and_iff_right finished)) rfl rfl

/-- The chunks cut off hold nothing of a request the pass keeps. -/
theorem Keeps.cut (stocked : site.worker.Stocked) {id : RequestId} (keeps : site.Keeps call outOpen id)
    {outcome : PrefillOutcome} (nonempty : (site.worker.resolved (site.input call outOpen)).1 ≠ [])
    (answered : call.answer (site.worker.resolved (site.input call outOpen)).1 = .ok outcome)
    {rest : List PrefillChunk} (split : (site.worker.planned (site.input call outOpen)).1.chunks =
      (site.worker.resolved (site.input call outOpen)).1.map PrefillWorker.asChunk ++ rest) :
    ((rest.filter (·.completes)).map (·.id)).count id = 0 := by
  refine List.count_eq_zero.mpr fun member => ?_
  obtain ⟨chunk, kept, rfl⟩ := List.mem_map.mp member
  obtain ⟨listed, completes⟩ := List.mem_filter.mp kept
  obtain ⟨before, after, rfl⟩ := List.append_of_mem listed
  rcases (keeps outcome answered).2 with ⟨first, head, uncovered⟩ | covered
  · obtain ⟨tail, planned⟩ := List.head?_eq_some_iff.mp head
    exact uncovered ((stocked.resolved_reaches [first] planned).mp (List.length_pos_iff.mpr nonempty))
  · rw [← List.append_assoc] at split
    have covers := covered _ chunk after split rfl completes
    rw [List.append_cons] at split
    have reached := (stocked.resolved_reaches _ split).mpr covers
    simp only [List.length_append, List.length_map, List.length_singleton] at reached
    omega

theorem count_carried_round (alive : site.alive = true) (id : RequestId) :
    (site.round call outOpen).2.carried.count id =
      if (site.worker.round (site.input call outOpen)).1.returned then 0
      else ((site.jobs.drop call.drained).map (·.id)).count id +
        if id ∈ (site.worker.round (site.input call outOpen)).2.sched.queue then 1 else 0 := by
  unfold round
  simp only
  split
  · rfl
  · rw [count_carried]
    exact alive

/-- A pass never multiplies a request, and keeps the ones it must. -/
theorem count_round (stocked : site.worker.Stocked) (alive : site.alive = true)
    (samples : Deployment.SamplesCompleted call.answer) (outOpen : Bool) (id : RequestId) :
    (site.round call outOpen).2.carried.count id + ((site.round call outOpen).1.map (·.id)).count id ≤
        site.carried.count id ∧
      (site.Keeps call outOpen id → site.carried.count id ≤ 1 →
        (site.round call outOpen).2.carried.count id + ((site.round call outOpen).1.map (·.id)).count id =
          site.carried.count id) := by
  have taken : (site.jobs.map (·.id)).count id = ((site.jobs.take call.drained).map (·.id)).count id +
      ((site.jobs.drop call.drained).map (·.id)).count id := by
    rw [← List.count_append, ← List.map_append, List.take_append_drop]
  obtain ⟨poured, exact⟩ := count_accept site.worker (site.jobs.take call.drained) id
  rw [count_carried_round alive, count_carried site alive]
  change _ + ((site.worker.round (site.input call outOpen)).1.sent.map (·.id)).count id ≤ _ ∧ (_ → _ → _ +
    ((site.worker.round (site.input call outOpen)).1.sent.map (·.id)).count id = _)
  rcases stocked.round_cases (site.input call outOpen) with ⟨_, unchanged⟩ | ⟨outcome, nonempty, answered, booking⟩
  · have queue : id ∈ (site.worker.round (site.input call outOpen)).2.sched.queue ↔
        id ∈ (site.worker.accept (site.jobs.take call.drained)).sched.queue := by
      rw [unchanged, ← AList.lookup_isSome, ← AList.lookup_isSome]
      exact iff_of_eq (congrArg (·.isSome = true) (PrefillWorker.resolved_lookup _ id))
    have sent : (site.worker.round (site.input call outOpen)).1.sent = [] := by rw [unchanged]
    have returned : (site.worker.round (site.input call outOpen)).1.returned = false := by rw [unchanged]
    rw [returned, sent, if_neg Bool.false_ne_true, if_congr queue rfl rfl]
    simp only [List.map_nil, List.count_nil]
    omega
  · rcases booking.sent with ⟨returned, closed, some, sent⟩ | ⟨returned, sent⟩
    · rw [returned, sent, if_pos rfl]
      refine ⟨Nat.zero_le _, fun keeps _ => ?_⟩
      rcases (keeps outcome answered).1 with listening | none
      · exact absurd listening (by rw [show outOpen = false from closed]; decide)
      · exact absurd none some
    · obtain ⟨rest, split⟩ := stocked.resolved_front (site.input call outOpen)
      have finishes := count_finishes stocked booking id
      have cut := count_firstTokens site.worker (site.input call outOpen) samples answered split id
      have ids : (site.worker.round (site.input call outOpen)).1.sent.map (·.id) =
          outcome.firstTokens.map Prod.fst := by
        rw [← sent, List.map_map]
        rfl
      rw [returned, ids, if_neg Bool.false_ne_true]
      change _ = ite (id ∈ (site.worker.accept (site.jobs.take call.drained)).sched.queue) 1 0 at finishes
      refine ⟨by omega, fun keeps single => ?_⟩
      have whole := keeps.cut stocked nonempty answered split
      omega

end PrefillSite

namespace DecodeSite

variable {site : DecodeSite} {call : DecodeCall} {outOpen : Bool}

def carried (site : DecodeSite) : List RequestId :=
  if site.alive then site.jobs.map (·.id) ++ site.worker.pending.map (·.id) ++ site.worker.sched.running.keys else []

theorem count_carried (site : DecodeSite) (alive : site.alive = true) (id : RequestId) : site.carried.count id =
    (site.jobs.map (·.id)).count id + (site.worker.pending.map (·.id)).count id +
      if id ∈ site.worker.sched.running then 1 else 0 := by
  rw [carried, if_pos alive, List.count_append, List.count_append, AList.count_keys]

/-- A job sent to a live task is carried there. -/
theorem count_push (alive : site.alive = true) (job : DecodeAdmit) (id : RequestId) :
    ({ site with jobs := site.jobs ++ [job] } : DecodeSite).carried.count id =
      site.carried.count id + if id = job.id then 1 else 0 := by
  rw [count_carried site alive, count_carried { site with jobs := site.jobs ++ [job] } alive, List.map_append,
    List.count_append, List.map_singleton, List.count_singleton]
  simp only [beq_iff_eq, eq_comm (a := job.id)]
  omega

/-- The pass does not forget a request: the engine takes it if asked, and the pass's events can be sent. -/
def Keeps (call : DecodeCall) (outOpen : Bool) (id : RequestId) : Prop :=
  (∀ spec, spec.id = id → call.add spec = .ok ()) ∧
    (outOpen = true ∨ ∀ added step, call.step added = .ok step → step.tokens = [] ∧ step.finished = [])

/-- Pending, running and retired requests after a pass against those before it. -/
theorem count_pass {worker : DecodeWorker} {input : DecodeRound} {out : DecodeReport × DecodeWorker}
    (pass : worker.Pass input out) (id : RequestId) :
    ((out.2.pending.map (·.id)).count id + (if id ∈ out.2.sched.running then 1 else 0) +
        (out.1.retired.map (·.id)).count id ≤
      (worker.pending.map (·.id)).count id + (input.jobs.map (·.id)).count id +
        if id ∈ worker.sched.running then 1 else 0) ∧
    ((∀ spec, spec.id = id → input.add spec = .ok ()) →
      ((worker.pending.map (·.id)).count id + (input.jobs.map (·.id)).count id +
        if id ∈ worker.sched.running then 1 else 0) ≤ 1 →
      (out.2.pending.map (·.id)).count id + (if id ∈ out.2.sched.running then 1 else 0) +
          (out.1.retired.map (·.id)).count id =
        (worker.pending.map (·.id)).count id + (input.jobs.map (·.id)).count id +
          if id ∈ worker.sched.running then 1 else 0) := by
  obtain ⟨taken, split, within, _, complete⟩ := pass.admitted.taken
  have jobs : (worker.pending.map (·.id)).count id + (input.jobs.map (·.id)).count id =
      (taken.map (·.id)).count id + (out.2.pending.map (·.id)).count id := by
    rw [← List.count_append, ← List.map_append, split, pass.pending, List.map_append, List.count_append]
  have running : (if id ∈ out.2.sched.running then 1 else 0) + (out.1.retired.map (·.id)).count id =
      if id ∈ (worker.admitted input).2.sched.running then 1 else 0 := by
    rw [List.count_eq_ite_of_nodup pass.once, if_congr (pass.running id) rfl rfl]
    by_cases retired : id ∈ out.1.retired.map (·.id)
    · rw [if_pos retired, if_pos (pass.retired id retired), if_neg fun both => both.2 retired]
    · rw [if_neg retired, Nat.add_zero]
      exact if_congr (and_iff_left retired) rfl rfl
  have added : (out.1.added.map (·.id)).count id ≤ (taken.map (·.id)).count id := within.count_le id
  obtain ⟨poured, exact⟩ := ite_or_count (p := id ∈ (worker.admitted input).2.sched.running)
    (q := id ∈ worker.sched.running) (n := (out.1.added.map (·.id)).count id)
    ((pass.admitted.running id).trans (by rw [List.count_pos_iff, or_comm]))
  refine ⟨by omega, fun accepts single => ?_⟩
  have started : (taken.map (·.id)).count id ≤ (out.1.added.map (·.id)).count id := by
    by_cases member : id ∈ taken.map (·.id)
    · obtain ⟨job, listed, rfl⟩ := List.mem_map.mp member
      have positive : 0 < (out.1.added.map (·.id)).count job.id :=
        List.count_pos_iff.mpr (complete job listed accepts)
      omega
    · rw [List.count_eq_zero.mpr member]
      exact Nat.zero_le _
  omega

theorem finishedIds_pass {worker : DecodeWorker} {input : DecodeRound} {out : DecodeReport × DecodeWorker}
    (pass : worker.Pass input out) : finishedIds out.1.events = out.1.retired.map (·.id) := by
  rcases pass.events with ⟨_, retired, events⟩ | ⟨step, _, _, _, events⟩
  · rw [retired, events]
    rfl
  · rw [events, finishedIds_append, finishedIds_tokens, finishedIds_retired]
    rfl

/-- A pass whose step reports nothing sends nothing. -/
theorem quiet_pass {worker : DecodeWorker} {input : DecodeRound} {out : DecodeReport × DecodeWorker}
    (pass : worker.Pass input out)
    (silent : ∀ added step, input.step added = .ok step → step.tokens = [] ∧ step.finished = []) :
    out.1.events = [] := by
  rcases pass.events with ⟨_, _, events⟩ | ⟨step, _, answered, retired, events⟩
  · exact events
  · obtain ⟨tokens, finished⟩ := silent _ _ answered
    have none : out.1.retired = [] := by
      rw [List.eq_nil_iff_forall_not_mem]
      intro seq member
      have reported := ((retired seq.id).mp (List.mem_map_of_mem member)).2
      rw [finished] at reported
      cases reported
    rw [events, tokens, none]
    rfl

theorem count_carried_round (alive : site.alive = true) (id : RequestId) :
    (site.round call outOpen).2.carried.count id =
      if !outOpen ∧ (site.worker.round (site.input call)).1.events ≠ [] then 0
      else ((site.jobs.drop call.drained).map (·.id)).count id +
        ((site.worker.round (site.input call)).2.pending.map (·.id)).count id +
        if id ∈ (site.worker.round (site.input call)).2.sched.running then 1 else 0 := by
  unfold round
  simp only
  split
  · rfl
  · rw [count_carried]
    exact alive

/-- A pass never multiplies a request, and keeps the ones it must. -/
theorem count_round (keyed : site.worker.sched.Keyed) (alive : site.alive = true) (call : DecodeCall)
    (outOpen : Bool) (id : RequestId) :
    (site.round call outOpen).2.carried.count id + (finishedIds (site.round call outOpen).1).count id ≤
        site.carried.count id ∧
      (Keeps call outOpen id → site.carried.count id ≤ 1 →
        (site.round call outOpen).2.carried.count id + (finishedIds (site.round call outOpen).1).count id =
          site.carried.count id) := by
  have pass := site.worker.round_pass (site.input call) keyed
  have taken : (site.jobs.map (·.id)).count id = ((site.jobs.take call.drained).map (·.id)).count id +
      ((site.jobs.drop call.drained).map (·.id)).count id := by
    rw [← List.count_append, ← List.map_append, List.take_append_drop]
  obtain ⟨within, exact⟩ := count_pass pass id
  change _ ≤ _ + ((site.jobs.take call.drained).map (·.id)).count id + _ at within
  change _ → _ + ((site.jobs.take call.drained).map (·.id)).count id + _ ≤ _ →
    _ = _ + ((site.jobs.take call.drained).map (·.id)).count id + _ at exact
  rw [count_carried_round alive, count_carried site alive]
  unfold round
  simp only
  split
  next closed =>
    refine ⟨by simp [finishedIds], fun keeps _ => absurd (quiet_pass pass ?_) closed.2⟩
    rcases keeps.2 with listening | silent
    · rw [listening] at closed
      exact absurd closed.1 Bool.false_ne_true
    · exact silent
  next =>
    rw [finishedIds_pass pass]
    refine ⟨by omega, fun keeps single => ?_⟩
    have same := exact keeps.1 (by omega)
    omega

end DecodeSite

end TrtLlm.Worker
