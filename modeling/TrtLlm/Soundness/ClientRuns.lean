import TrtLlm.Soundness.ClientPumps

/-! # Every stream follows its script

A pass of a decode worker over its mock engine gives each sequence it runs one more chunk, and the end to those
whose budget is used up, in that order. With the steps of the other tasks this makes the invariant hold in
every run, whatever the interleaving, the pool sizes and the order in which engines visit their sequences.
-/

namespace TrtLlm.Worker

open KvCache Sched Engine MockEngine

namespace Deployment

theorem send_tokenizer (s : Deployment) (id : RequestId) (chunk : StreamChunk) :
    (s.send id chunk).2.tokenizer = s.tokenizer := by
  unfold send
  split <;> rfl

theorem handOff_tokenizer (s : Deployment) (entry : Inflight) (job : DecodeAdmit) :
    (s.handOff entry job).tokenizer = s.tokenizer := by
  unfold handOff
  split
  · split
    · rfl
    · exact s.send_tokenizer _ _
  · rfl

theorem deliverFirst_tokenizer (s : Deployment) (done : PrefillComplete) :
    (s.deliverFirst done).tokenizer = s.tokenizer := by
  unfold deliverFirst
  split
  · rfl
  · simp only
    split
    · rfl
    · split
      · exact (send_tokenizer _ _ _).trans (s.send_tokenizer _ _)
      · exact (handOff_tokenizer _ _ _).trans (s.send_tokenizer _ _)

theorem deliver_tokenizer (s : Deployment) (event : DecodeEvent) : (s.deliver event).tokenizer = s.tokenizer := by
  unfold deliver
  split
  · split
    · simp only
      split
      · exact s.send_tokenizer _ _
      · rfl
    · rfl
  · split
    · exact send_tokenizer _ _ _
    · rfl

/-- Only the two pumps write to clients. -/
theorem step_quiet (s : Deployment) {event : DeployEvent} (prefill : event ≠ .pumpPrefill)
    (decode : event ≠ .pumpDecode) : (s.step event).streams = s.streams ∧ (s.step event).tokenizer = s.tokenizer := by
  cases event with
  | generate req route =>
    rw [step]
    unfold generate
    cases route with
    | error reason => exact ⟨rfl, rfl⟩
    | ok decision =>
      simp only
      split
      · split <;> exact ⟨rfl, rfl⟩
      · exact ⟨rfl, rfl⟩
  | prefillRound i call =>
    rw [step, prefillRound]
    split <;> exact ⟨rfl, rfl⟩
  | decodeRound j call =>
    rw [step, decodeRound]
    split <;> exact ⟨rfl, rfl⟩
  | pumpPrefill => exact absurd rfl prefill
  | pumpDecode => exact absurd rfl decode
  | stopPrefill i =>
    rw [step, stopPrefill]
    split <;> exact ⟨rfl, rfl⟩
  | stopDecode j =>
    rw [step, stopDecode]
    split <;> exact ⟨rfl, rfl⟩
  | hangUp id => exact ⟨rfl, rfl⟩
  | closePrefillDone => exact ⟨rfl, rfl⟩
  | closeDecodeEvents => exact ⟨rfl, rfl⟩

theorem tokenizer_step (s : Deployment) (event : DeployEvent) : (s.step event).tokenizer = s.tokenizer := by
  cases event with
  | pumpPrefill =>
    rw [step, pumpPrefill]
    split
    · rfl
    · exact deliverFirst_tokenizer _ _
  | pumpDecode =>
    rw [step, pumpDecode]
    split
    · rfl
    · exact deliver_tokenizer _ _
  | _ => exact (s.step_quiet (by rintro ⟨⟩) (by rintro ⟨⟩)).2

/-- Tokens of a pass, seen by one client. -/
theorem chunks_tokens (s : Deployment) (r : RequestId) (tokens : List (RequestId × TokenId)) :
    (tokens.map fun emitted => DecodeEvent.token emitted.1 emitted.2).filterMap (s.chunkFor r) =
      (tokens.filter fun emitted => emitted.1 = r).map fun emitted => s.tokenChunk emitted.2 := by
  induction tokens with
  | nil => rfl
  | cons emitted tokens ih =>
    rw [List.map_cons, List.filterMap_cons, ih, chunkFor, List.filter_cons]
    by_cases own : emitted.1 = r
    · simp [own]
    · simp [own]

/-- Finish events of a pass, seen by one client. -/
theorem chunks_retired (s : Deployment) (r : RequestId) (seqs : List RunningSeq) :
    (seqs.map fun seq => DecodeEvent.finished seq.id seq.tokensEmitted).filterMap (s.chunkFor r) =
      List.replicate ((seqs.map (·.id)).count r) (.done "length") := by
  induction seqs with
  | nil => rfl
  | cons seq seqs ih =>
    rw [List.map_cons, List.filterMap_cons, ih, chunkFor, List.map_cons, List.count_cons]
    by_cases own : seq.id = r
    · simp [own, List.replicate_succ]
    · simp [own]

/-- A pass, seen by one client: its tokens and then at most one end. -/
theorem chunks_pass (s : Deployment) (r : RequestId) (tokens : List (RequestId × TokenId)) {retired : List RunningSeq}
    (once : (retired.map (·.id)).Nodup) :
    ((tokens.map fun emitted => DecodeEvent.token emitted.1 emitted.2) ++
        retired.map fun seq => DecodeEvent.finished seq.id seq.tokensEmitted).filterMap (s.chunkFor r) =
      ((tokens.filter fun emitted => emitted.1 = r).map fun emitted => s.tokenChunk emitted.2) ++
        if r ∈ retired.map (·.id) then [.done "length"] else [] := by
  rw [List.filterMap_append, s.chunks_tokens, s.chunks_retired, List.count_eq_ite_of_nodup once]
  split <;> rfl

/-- A request at one decode worker is nowhere else. -/
theorem Tracked.elsewhere {s : Deployment} (tracked : s.Tracked) {j : ℕ} {site : DecodeSite}
    (found : s.decode[j]? = some site) {r : RequestId} (held : r ∈ site.carried) :
    (∀ other ∈ s.prefill, r ∉ other.carried) ∧ r ∉ s.prefillDone.map (·.id) ∧
      (∀ k other, s.decode[k]? = some other → k ≠ j → r ∉ other.carried) ∧ r ∉ finishedIds s.decodeEvents := by
  -- With this worker stopped nobody carries the request.
  have removed := List.count_flatMap_set DecodeSite.carried r found site.stop
  rw [show site.stop.carried = [] from rfl, List.count_nil] at removed
  have here := List.count_pos_iff.mpr held
  have once := tracked.once r
  rw [count_carriers] at once
  refine ⟨fun other listed again => ?_, fun again => ?_, fun k other there apart again => ?_, fun again => ?_⟩
  · obtain ⟨i, there⟩ := List.mem_iff_getElem?.mp listed
    have inside := List.count_le_flatMap PrefillSite.carried r there
    have positive := List.count_pos_iff.mpr again
    omega
  · have positive := List.count_pos_iff.mpr again
    omega
  · have kept : (s.decode.set j site.stop)[k]? = some other := by rwa [List.getElem?_set_ne (Ne.symm apart)]
    have inside := List.count_le_flatMap DecodeSite.carried r kept
    have positive := List.count_pos_iff.mpr again
    omega
  · have positive := List.count_pos_iff.mpr again
    omega

end Deployment

namespace MockDeployment

/-- What a pass does for one request, given the sequence it is for the engine once jobs are attached. -/
structure Streamed (dep : Deployment) (site : DecodeSite) (engine : MockEngine) (out : List DecodeEvent × DecodeSite)
    (after : MockEngine) (r : RequestId) (seq? : Option MockSeq) : Prop where
  /-- It was attached before, or a waiting job was attached now. -/
  source : ∀ seq, seq? = some seq → seq.spec.id = r ∧ (engine.decode.lookup r = some seq ∨
    ∃ job ∈ site.jobs ++ site.worker.pending, job.id = r ∧ seq.spec.maxTokens = job.maxTokens ∧ seq.emitted = 1)
  lookup : after.decode.lookup r = seq?.bind fun seq => if Finishes seq then none else some (next seq)
  running : r ∈ out.2.worker.sched.running ↔ ∃ seq, seq? = some seq ∧ ¬Finishes seq
  finished : r ∈ finishedIds out.1 ↔ ∃ seq, seq? = some seq ∧ Finishes seq
  unchanged : seq? = none → out.1.filterMap (dep.chunkFor r) = []
  chunks : ∀ seq, seq? = some seq → out.1.filterMap (dep.chunkFor r) =
    dep.tokenChunk (fakeToken r (seq.emitted + 1)) :: if Finishes seq then [.done "length"] else []

variable {site : DecodeSite} {engine : MockEngine} {drained : ℕ} {now elapsedMs : Millis}
  {arrange : List RequestId → List RequestId}

/-- After the jobs of a pass are attached, the engine holds exactly what the worker runs. -/
theorem Attached.admission (attached : Attached site engine) {add : DecodeSeqSpec → Except Error Unit}
    {jobs : List DecodeAdmit} {out : List DecodeSeqSpec × DecodeWorker}
    (admission : DecodeWorker.Admission add jobs site.worker out) (r : RequestId) :
    (r ∈ (out.1.foldl addDecodeSeq engine).decode ↔ r ∈ out.2.sched.running) ∧
      ∀ seq, (out.1.foldl addDecodeSeq engine).decode.lookup r = some seq → engine.decode.lookup r = some seq ∨
        ∃ job ∈ jobs, job.id = r ∧ seq.spec.maxTokens = job.maxTokens ∧ seq.emitted = 1 := by
  obtain ⟨kept, placed⟩ := attach_lookup out.1 engine r
  rw [admission.running, ← attached.running, ← AList.lookup_isSome, ← AList.lookup_isSome]
  by_cases member : r ∈ out.1.map (·.id)
  · obtain ⟨spec, listed, name, here⟩ := placed member
    refine ⟨iff_of_true (Option.isSome_of_eq_some here) (.inr member), fun seq found => .inr ?_⟩
    obtain ⟨taken, split, _, source, _⟩ := admission.taken
    obtain ⟨job, waited, same, budget⟩ := source spec listed
    refine ⟨job, split ▸ List.mem_append_left _ waited, same.symm.trans name, ?_⟩
    rw [← Option.some.inj (here.symm.trans found)]
    exact ⟨budget, rfl⟩
  · rw [kept member, or_iff_left member]
    exact ⟨Iff.rfl, fun seq found => .inl found⟩

/-- A pass with a listening pump sends all its events. -/
theorem round_listening (site : DecodeSite) (call : DecodeCall) : site.round call true =
    ((site.worker.round (site.input call)).1.events,
      { site with worker := (site.worker.round (site.input call)).2, jobs := site.jobs.drop call.drained }) := by
  unfold DecodeSite.round
  exact if_neg (by simp)

/-- What still waits after a pass waited before it. -/
theorem mem_jobs_round (keyed : site.worker.sched.Keyed) (call : DecodeCall) {job : DecodeAdmit}
    (member : job ∈ (site.round call true).2.jobs ++ (site.round call true).2.worker.pending) :
    job ∈ site.jobs ++ site.worker.pending := by
  have pass := site.worker.round_pass (site.input call) keyed
  obtain ⟨taken, split, _⟩ := pass.admitted.taken
  rw [round_listening] at member
  rcases List.mem_append.mp member with queued | pending
  · exact List.mem_append_left _ (List.mem_of_mem_drop queued)
  · have before : job ∈ site.worker.pending ++ site.jobs.take call.drained := by
      change site.worker.pending ++ site.jobs.take call.drained = _ at split
      rw [split, ← pass.pending]
      exact List.mem_append_right _ pending
    rcases List.mem_append.mp before with waited | queued
    · exact List.mem_append_right _ waited
    · exact List.mem_append_left _ (List.mem_of_mem_take queued)

theorem not_mem_running_of_idle {sched : DecodeScheduler} (idle : sched.concurrency = 0) (r : RequestId) :
    r ∉ sched.running := by
  rw [AList.mem_keys, AList.keys, List.eq_nil_of_length_eq_zero idle]
  exact List.not_mem_nil

theorem round_streamed (dep : Deployment) (attached : Attached site engine) (keyed : site.worker.sched.Keyed)
    (arranged : ∀ ids, (arrange ids).Perm ids) (r : RequestId) :
    ∃ seq?, Streamed dep site engine (site.round (decodeCall engine drained now elapsedMs arrange) true)
      (engineAfter engine site (decodeCall engine drained now elapsedMs arrange) elapsedMs arrange) r seq? := by
  have pass := site.worker.round_pass (site.input (decodeCall engine drained now elapsedMs arrange)) keyed
  rw [round_listening, engineAfter]
  generalize site.worker.round (site.input (decodeCall engine drained now elapsedMs arrange)) = out at pass
  obtain ⟨held, source⟩ := attached.admission pass.admitted r
  have placed := attached.keyed.attach out.1.added
  have origin : ∀ seq, (out.1.added.foldl addDecodeSeq engine).decode.lookup r = some seq → seq.spec.id = r ∧
      (engine.decode.lookup r = some seq ∨
        ∃ job ∈ site.jobs ++ site.worker.pending, job.id = r ∧ seq.spec.maxTokens = job.maxTokens ∧ seq.emitted = 1) := by
    intro seq found
    refine ⟨placed r seq found, (source seq found).imp_right ?_⟩
    rintro ⟨job, listed, facts⟩
    refine ⟨job, ?_, facts⟩
    rcases List.mem_append.mp listed with pending | queued
    · exact List.mem_append_right _ pending
    · exact List.mem_append_left _ (List.mem_of_mem_take queued)
  have answer : (site.input (decodeCall engine drained now elapsedMs arrange)).step out.1.added =
      .ok ((out.1.added.foldl addDecodeSeq engine).decodeStep arrange elapsedMs).1 := rfl
  generalize out.1.added.foldl addDecodeSeq engine = filled at held placed origin answer ⊢
  refine ⟨filled.decode.lookup r, ?_⟩
  rcases pass.events with ⟨unstepped, retired, events⟩ | ⟨step, some, answered, retired, events⟩
  · have idle : (site.worker.admitted (site.input (decodeCall engine drained now elapsedMs arrange))).2.sched.concurrency
        = 0 := by
      rcases unstepped with none | ⟨error, failed⟩
      · exact none
      · rw [answer] at failed
        cases failed
    have absent := not_mem_running_of_idle idle r
    have none : filled.decode.lookup r = none := AList.lookup_eq_none.mpr fun member => absent (held.mp member)
    have vacant : ¬r ∈ out.2.sched.running := fun member => absent ((pass.running r).mp member).1
    rw [none] at origin ⊢
    refine ⟨origin, ?_, iff_of_false vacant (by simp), iff_of_false ?_ (by simp), fun _ => ?_, nofun⟩
    · simp only [retired, if_pos idle]
      exact none
    · rw [events]
      exact List.not_mem_nil
    · rw [events]
      rfl
  · rw [answer] at answered
    obtain rfl := Except.ok.inj answered
    have stepped := decodeStep_spec placed arranged elapsedMs r
    have ended : r ∈ out.1.retired.map (·.id) ↔ ∃ seq, filled.decode.lookup r = .some seq ∧ Finishes seq := by
      rw [retired, ← held, stepped.finished]
      refine and_iff_right_of_imp ?_
      rintro ⟨seq, found, _⟩
      exact AList.mem_iff_exists_lookup.mpr ⟨_, found⟩
    have sent : out.1.events.filterMap (dep.chunkFor r) =
        (((filled.decode.lookup r).map emits).toList.map fun emitted => dep.tokenChunk emitted.2) ++
          if r ∈ out.1.retired.map (·.id) then [.done "length"] else [] := by
      rw [events, dep.chunks_pass r _ pass.once, stepped.tokens]
    refine ⟨origin, ?_, ?_, ?_, fun none => ?_, fun seq found => ?_⟩
    · simp only [if_neg some]
      rw [removeAll_lookup, stepped.lookup]
      split
      next reported =>
        obtain ⟨seq, found, done⟩ := ended.mp reported
        rw [found, Option.bind_some, if_pos done]
      next => rfl
    · refine (pass.running r).trans ?_
      rw [ended, ← held, ← AList.lookup_isSome, Option.isSome_iff_exists]
      constructor
      · rintro ⟨⟨seq, found⟩, unfinished⟩
        exact ⟨seq, found, fun done => unfinished ⟨seq, found, done⟩⟩
      · rintro ⟨seq, found, goes⟩
        refine ⟨⟨seq, found⟩, ?_⟩
        rintro ⟨other, same, done⟩
        exact goes (Option.some.inj (found.symm.trans same) ▸ done)
    · rw [← ended, DecodeSite.finishedIds_pass pass]
    · rw [sent, none, if_neg fun reported => ?_]
      · rfl
      · obtain ⟨seq, found, _⟩ := ended.mp reported
        cases none.symm.trans found
    · have reported : r ∈ out.1.retired.map (·.id) ↔ Finishes seq := by
        rw [ended, found]
        simp
      rw [sent, found, if_congr reported rfl rfl, ← (origin seq found).1]
      rfl

section Pass

variable {s : MockDeployment} {j : ℕ} {out : List DecodeEvent × DecodeSite} {after : MockEngine} {r : RequestId}
  {maxTokens : ℕ}

/-- The deployment after a pass at worker `j`. -/
def passed (s : MockDeployment) (j : ℕ) (out : List DecodeEvent × DecodeSite) (after : MockEngine) : MockDeployment :=
  ⟨{ s.dep with decode := s.dep.decode.set j out.2, decodeEvents := s.dep.decodeEvents ++ out.1 }, s.engines.set j after⟩

theorem line_passed : (s.passed j out after).dep.line r = s.dep.line r ++ out.1.filterMap (s.dep.chunkFor r) := by
  rw [Deployment.line, Deployment.line, List.append_assoc, Deployment.pendingFor, Deployment.pendingFor]
  exact congrArg _ List.filterMap_append

/-- A pass that keeps a request at its worker, or reports it, keeps it carried. -/
theorem mem_carriers_passed (found : s.dep.decode[j]? = some site)
    (moved : out.2.carried.count r + (finishedIds out.1).count r = site.carried.count r) :
    r ∈ (s.passed j out after).dep.carriers ↔ r ∈ s.dep.carriers := by
  have total : (s.passed j out after).dep.carriers.count r + _ = _ := Deployment.count_decode found out.2 out.1 r
  rw [← List.count_pos_iff, ← List.count_pos_iff]
  omega

/-- A pass that has nothing for a request leaves it where it was. -/
theorem Stage.idle (stage : s.Stage r maxTokens) (found : s.dep.decode[j]? = some site)
    (streamed : Streamed s.dep site engine out after r none)
    (jobs : ∀ job ∈ out.2.jobs ++ out.2.worker.pending, job ∈ site.jobs ++ site.worker.pending)
    (moved : out.2.carried.count r + (finishedIds out.1).count r = site.carried.count r) :
    (s.passed j out after).Stage r maxTokens := by
  have kept : r ∈ (s.passed j out after).dep.carriers ↔ r ∈ s.dep.carriers := mem_carriers_passed found moved
  have unchanged := streamed.unchanged rfl
  have line : (s.passed j out after).dep.line r = s.dep.line r := by rw [line_passed, unchanged, List.append_nil]
  refine stage.transport rfl line (fun carried => ⟨kept.mp carried, rfl⟩) (fun other listed held =>
    ⟨other, listed, held⟩) (fun done listed _ => .inl listed) ?_ ?_ ?_ ?_
  · intro other listed job member same
    rcases List.eq_or_getElem?_of_mem_set listed with rfl | ⟨k, _, there⟩
    · exact ⟨site, List.mem_of_getElem? found, jobs job member⟩
    · exact ⟨other, List.mem_of_getElem? there, member⟩
  · intro other listed seq lookup
    rcases List.eq_or_getElem?_of_mem_set listed with rfl | ⟨k, _, there⟩
    · rw [streamed.lookup] at lookup
      cases lookup
    · exact ⟨other, List.mem_of_getElem? there, lookup⟩
  · intro reported
    change r ∈ finishedIds (s.dep.decodeEvents ++ out.1) at reported
    rw [finishedIds_append, List.mem_append] at reported
    refine reported.resolve_right fun last => ?_
    obtain ⟨seq, none, _⟩ := streamed.finished.mp last
    cases none
  · intro absent
    obtain ⟨none, sent⟩ := stage.nowhere fun carried => absent (kept.mpr carried)
    refine ⟨?_, sent⟩
    change (s.dep.decodeEvents ++ out.1).filterMap (s.dep.chunkFor r) = []
    rw [List.filterMap_append, unchanged, List.append_nil]
    exact none

/-- Where a sequence stood before the pass that gives it a token. -/
theorem Stage.budget (stage : s.Stage r maxTokens) (found : s.dep.decode[j]? = some site)
    (present : s.engines[j]? = some engine) {seq : MockSeq}
    (streamed : Streamed s.dep site engine out after r (some seq)) : seq.spec.maxTokens = maxTokens ∧
      1 ≤ seq.emitted ∧ seq.emitted < maxTokens ∧ s.dep.line r = tokensUpTo s.dep.tokenizer r seq.emitted := by
  obtain ⟨_, running | ⟨job, waited, name, budget, first⟩⟩ := streamed.source seq rfl
  · exact stage.running engine (List.mem_of_getElem? present) seq running
  · obtain ⟨same, long, line⟩ := stage.admitted site (List.mem_of_getElem? found) job waited name
    rw [first]
    exact ⟨budget.trans same, le_rfl, long, line⟩

/-- A pass that emits for a request moves its line by one token, and to the end of its script if it finishes. -/
theorem Stage.emitted (stage : s.Stage r maxTokens) (streaming : s.Streaming) (found : s.dep.decode[j]? = some site)
    (present : s.engines[j]? = some engine) (held : r ∈ site.carried) {seq : MockSeq}
    (streamed : Streamed s.dep site engine out after r (some seq)) (alive : out.2.alive = true)
    (moved : out.2.carried.count r + (finishedIds out.1).count r = site.carried.count r) :
    (s.passed j out after).Stage r maxTokens := by
  obtain ⟨budget, started, within, before⟩ := stage.budget found present streamed
  have line : (s.passed j out after).dep.line r = tokensUpTo s.dep.tokenizer r (seq.emitted + 1) ++
      if Finishes seq then [.done "length"] else [] := by
    rw [line_passed, before, streamed.chunks seq rfl, tokensUpTo_succ _ _ started, List.append_assoc]
    rfl
  have carried : r ∈ s.dep.carriers :=
    Deployment.mem_carriers.mpr (.inr (.inr (.inl ⟨site, List.mem_of_getElem? found, held⟩)))
  obtain ⟨prefill, done, decode, events⟩ := streaming.tracked.elsewhere found held
  refine ⟨fun _ => stage.entry carried, fun other listed again => (prefill other listed again).elim,
    fun other listed same => (done (same ▸ List.mem_map_of_mem listed)).elim, fun other listed job member same => ?_,
    fun other listed now lookup => ?_, fun reported => ?_, fun absent => ?_⟩
  · have waits : r ∈ (other.jobs ++ other.worker.pending).map (·.id) := same ▸ List.mem_map_of_mem member
    rcases List.eq_or_getElem?_of_mem_set listed with rfl | ⟨k, apart, there⟩
    · -- The request runs or has finished, so it cannot also wait here.
      have once := (Deployment.count_site_decode found r).trans (streaming.tracked.once r)
      have positive := List.count_pos_iff.mpr waits
      rw [List.map_append, List.count_append] at positive
      rw [DecodeSite.count_carried _ alive] at moved
      by_cases ended : Finishes seq
      · have last := List.count_pos_iff.mpr (streamed.finished.mpr ⟨seq, rfl, ended⟩)
        omega
      · rw [if_pos (streamed.running.mpr ⟨seq, rfl, ended⟩)] at moved
        omega
    · refine absurd ?_ (decode k other there apart)
      rw [DecodeSite.mem_carried (streaming.decode_alive other (List.mem_of_getElem? there))]
      exact .inl waits
  · rcases List.eq_or_getElem?_of_mem_set listed with rfl | ⟨k, apart, there⟩
    · rw [streamed.lookup, Option.bind_some] at lookup
      split at lookup
      next => cases lookup
      next ended =>
        obtain rfl := Option.some.inj lookup
        rw [line, if_neg ended, List.append_nil]
        rw [Finishes, budget, not_le] at ended
        exact ⟨budget, Nat.le_add_left 1 _, ended, rfl⟩
    · obtain ⟨other, known, again⟩ := streaming.engine_carried there lookup
      exact absurd again (decode k other known apart)
  · change r ∈ finishedIds (s.dep.decodeEvents ++ out.1) at reported
    rw [finishedIds_append, List.mem_append, or_iff_right events, streamed.finished] at reported
    obtain ⟨_, ⟨rfl⟩, ended⟩ := reported
    rw [line, if_pos ended]
    rw [Finishes, budget] at ended
    rw [le_antisymm within ended]
    rfl
  · exact absurd ((mem_carriers_passed found moved).mpr carried) absent

/-- Something the pass has a sequence for was carried by its worker. -/
theorem Streamed.carried (attached : Attached site engine) (alive : site.alive = true) {seq : MockSeq}
    (streamed : Streamed s.dep site engine out after r (some seq)) : r ∈ site.carried := by
  rw [DecodeSite.mem_carried alive]
  obtain ⟨_, running | ⟨job, waited, name, _⟩⟩ := streamed.source seq rfl
  · exact .inr ((attached.running r).mp (AList.mem_iff_exists_lookup.mpr ⟨_, running⟩))
  · exact .inl (name ▸ List.mem_map_of_mem waited)

/-- After the pass the engine again holds exactly what the worker runs. -/
theorem Attached.round (streamed : ∀ r, ∃ seq?, Streamed s.dep site engine out after r seq?) :
    Attached out.2 after := by
  refine ⟨fun r now found => ?_, fun r => ?_⟩
  · obtain ⟨seq?, facts⟩ := streamed r
    rw [facts.lookup] at found
    obtain ⟨seq, here, goes⟩ := Option.bind_eq_some_iff.mp found
    split at goes
    next => cases goes
    next =>
      rw [← Option.some.inj goes]
      exact (facts.source seq here).1
  · obtain ⟨seq?, facts⟩ := streamed r
    rw [facts.running, ← AList.lookup_isSome, facts.lookup]
    cases seq? with
    | none => simp
    | some seq => by_cases ended : Finishes seq <;> simp [ended]

theorem Streaming.passed (streaming : s.Streaming) (found : s.dep.decode[j]? = some site)
    (present : s.engines[j]? = some engine) (tracked : (s.passed j out after).dep.Tracked)
    (streamed : ∀ r, ∃ seq?, Streamed s.dep site engine out after r seq?) (alive : out.2.alive = true)
    (jobs : ∀ job ∈ out.2.jobs ++ out.2.worker.pending, job ∈ site.jobs ++ site.worker.pending)
    (moved : ∀ r, out.2.carried.count r + (finishedIds out.1).count r = site.carried.count r) :
    (s.passed j out after).Streaming := by
  have attached := streaming.attached j site engine found present
  have living := streaming.decode_alive site (List.mem_of_getElem? found)
  have paired : (s.engines.set j after).length = (s.dep.decode.set j out.2).length := by
    rw [List.length_set, List.length_set]
    exact streaming.paired
  refine ⟨tracked, streaming.prefill_alive, fun other listed => ?_, streaming.done_open, streaming.events_open, paired,
    fun k other machine there known => ?_, fun r outside => ?_, streaming.gone, fun req listed listening => ?_⟩
  · rcases List.mem_or_eq_of_mem_set listed with before | rfl
    · exact streaming.decode_alive other before
    · exact alive
  · change (s.dep.decode.set j out.2)[k]? = some other at there
    change (s.engines.set j after)[k]? = some machine at known
    by_cases same : k = j
    · subst same
      rw [List.getElem?_set_self (List.getElem?_eq_some_iff.mp found).1] at there
      rw [List.getElem?_set_self (List.getElem?_eq_some_iff.mp present).1] at known
      rw [← Option.some.inj there, ← Option.some.inj known]
      exact .round streamed
    · rw [List.getElem?_set_ne (Ne.symm same)] at there known
      exact streaming.attached k other machine there known
  · obtain ⟨seq?, facts⟩ := streamed r
    rw [line_passed, streaming.silent r outside]
    cases seq? with
    | none => rw [facts.unchanged rfl, List.append_nil]
    | some seq =>
      have held := facts.carried attached living
      refine absurd (streaming.tracked.called r ?_) outside
      exact Deployment.mem_carriers.mpr (.inr (.inr (.inl ⟨site, List.mem_of_getElem? found, held⟩)))
  · have stage := streaming.stage req listed listening
    obtain ⟨seq?, facts⟩ := streamed req.id
    cases seq? with
    | none => exact stage.idle found facts jobs (moved req.id)
    | some seq => exact stage.emitted streaming found present (facts.carried attached living) facts alive (moved req.id)

end Pass

variable {s : MockDeployment}

theorem Streaming.decodeRound (streaming : s.Streaming) {j : ℕ}
    (enabled : s.Enabled (.decodeRound j drained now elapsedMs arrange)) :
    (s.step (.decodeRound j drained now elapsedMs arrange)).Streaming := by
  obtain ⟨possible, arranged⟩ := enabled
  have tracked := streaming.tracked.step possible
  obtain ⟨site, found, alive⟩ := possible
  obtain ⟨engine, present, attached⟩ := streaming.engine found
  have keyed := streaming.tracked.sound.decode site (List.mem_of_getElem? found)
  have same : s.engines.getD j .new = engine := by rw [List.getD_eq_getElem?_getD, present, Option.getD_some]
  have after : s.step (.decodeRound j drained now elapsedMs arrange) = s.passed j
      (site.round (decodeCall engine drained now elapsedMs arrange) s.dep.decodeEventsOpen)
      (engineAfter engine site (decodeCall engine drained now elapsedMs arrange) elapsedMs arrange) := by
    rw [step, event, enginesAfter, found, present, Deployment.step, Deployment.decodeRound, found, same]
    rfl
  change (s.step (.decodeRound j drained now elapsedMs arrange)).dep.Tracked at tracked
  rw [after, streaming.events_open] at tracked ⊢
  refine streaming.passed found present tracked (fun r => round_streamed s.dep attached keyed arranged r) ?_
    (fun job member => mem_jobs_round keyed _ member) fun r => ?_
  · rw [round_listening]
    exact alive
  · have single := (Deployment.count_site_decode found r).trans (streaming.tracked.once r)
    exact (DecodeSite.count_round keyed alive _ true r).2 ⟨fun _ _ => rfl, .inl rfl⟩ single

theorem Streaming.step (streaming : s.Streaming) {event : MockEvent} (enabled : s.Enabled event) :
    (s.step event).Streaming := by
  cases event with
  | generate req route => exact streaming.generate enabled.1
  | prefillRound i drained now elapsedMs doneAt => exact streaming.prefillRound enabled.1
  | decodeRound j drained now elapsedMs arrange => exact streaming.decodeRound enabled
  | pumpPrefill => exact streaming.pumpPrefill
  | pumpDecode => exact streaming.pumpDecode
  | hangUp id => exact streaming.hangUp enabled.1

/-! ### Whole runs -/

/-- The deployment of any configuration over any number of mock engines, under any callers and clients. -/
def system (cfg : DeployConfig) (prefillEngines decodeEngines : ℕ) : Machine.System MockDeployment MockEvent :=
  .ofFun (fun s => s = spawn cfg prefillEngines decodeEngines) Enabled step

theorem streaming_spawn (cfg : DeployConfig) (prefillEngines decodeEngines : ℕ) :
    (spawn cfg prefillEngines decodeEngines).Streaming := by
  have alive : ∀ site ∈ (spawn cfg prefillEngines decodeEngines).dep.decode, site.alive = true := by
    intro site member
    rw [List.eq_of_mem_replicate member]
  refine ⟨Deployment.tracked_spawn cfg prefillEngines decodeEngines, fun site member => ?_, alive, rfl, rfl, ?_,
    fun j site engine found present => ?_, fun r _ => rfl, fun req listed => (nomatch listed),
    fun req listed => (nomatch listed)⟩
  · rw [List.eq_of_mem_replicate member]
  · exact (List.length_replicate).trans (List.length_replicate).symm
  · obtain ⟨idle, -⟩ := Deployment.spawn_decode (List.mem_of_getElem? found)
    rw [List.eq_of_mem_replicate (List.mem_of_getElem? present)]
    refine ⟨fun id seq found => ?_, fun id => iff_of_false (AList.notMem_empty _) ?_⟩
    · simp [MockEngine.new] at found
    · rw [idle]
      exact AList.notMem_empty _

theorem length_tokensUpTo (text : List TokenId → String) (id : RequestId) (maxTokens : ℕ) :
    (tokensUpTo text id maxTokens).length = max 1 maxTokens := by
  rw [tokensUpTo, List.length_cons, List.length_map, List.length_range']
  omega

theorem run_streaming {cfg : DeployConfig} {prefillEngines decodeEngines : ℕ} {events : List MockEvent}
    {s : MockDeployment} (run : Machine.Run (system cfg prefillEngines decodeEngines) events s) :
    s.Streaming ∧ s.dep.tokenizer = cfg.tokenizer := by
  refine run.invariant (P := fun s => s.Streaming ∧ s.dep.tokenizer = cfg.tokenizer) ?_ ?_
  · rintro s rfl
    exact ⟨streaming_spawn cfg prefillEngines decodeEngines, rfl⟩
  · rintro s event t ⟨streaming, same⟩ ⟨enabled, rfl⟩
    exact ⟨streaming.step enabled, (s.dep.tokenizer_step _).trans same⟩

/-- A front part of a script that has an end in it is the whole script. -/
theorem whole_of_done {text : List TokenId → String} {id : RequestId} {maxTokens : ℕ} {sent : List StreamChunk}
    (front : sent <+: script text id maxTokens) {reason : String} (ended : .done reason ∈ sent) :
    reason = "length" ∧ sent = script text id maxTokens := by
  obtain ⟨rest, split⟩ := front
  obtain ⟨first, second, rfl⟩ := List.append_of_mem ended
  have listed : StreamChunk.done reason ∈ script text id maxTokens := split ▸ List.mem_append_left _ ended
  have length : reason = "length" := by
    rw [script, List.mem_append, List.mem_singleton] at listed
    rcases listed with token | last
    · rw [tokensUpTo, List.mem_cons, List.mem_map] at token
      rcases token with none | ⟨_, _, none⟩ <;> cases none
    · exact StreamChunk.done.inj last
  subst length
  rw [List.append_assoc, List.cons_append] at split
  obtain ⟨_, rfl⟩ := List.append_eq_nil_iff.mp (nil_of_script split)
  rw [List.append_nil] at split
  exact ⟨rfl, by rw [← split]⟩

/-- **Every client stream is a front part of its script.** The end comes after exactly `max 1 maxTokens` tokens, and
nothing comes after it. -/
theorem streams_follow_script (cfg : DeployConfig) (prefillEngines decodeEngines : ℕ) (events : List MockEvent)
    (s : MockDeployment) (run : Machine.Run (system cfg prefillEngines decodeEngines) events s)
    (req : GenerateRequest) (called : req ∈ s.dep.calls) :
    s.dep.streams req.id <+: script cfg.tokenizer req.id req.maxTokens ∧
      ∀ reason, .done reason ∈ s.dep.streams req.id → ∃ tokens, s.dep.streams req.id = tokens ++ [.done reason] ∧
        tokens.length = max 1 req.maxTokens ∧ ∀ chunk ∈ tokens, chunk.isTerminal = false := by
  obtain ⟨streaming, same⟩ := run_streaming run
  have front := streaming.received called
  rw [same] at front
  refine ⟨front, fun reason ended => ?_⟩
  obtain ⟨rfl, whole⟩ := whole_of_done front ended
  refine ⟨_, whole, length_tokensUpTo _ _ _, fun chunk listed => ?_⟩
  rw [tokensUpTo, List.mem_cons, List.mem_map] at listed
  rcases listed with rfl | ⟨_, _, rfl⟩ <;> rfl

/-- A request for two tokens over one mock worker of each kind. -/
theorem streams_follow_script_served :
    let s := ([.generate ⟨1, [5], 2, 0⟩ (.ok (0, 1000)), .prefillRound 0 1 0 1 1, .pumpPrefill, .decodeRound 0 1 2 1 id,
      .pumpDecode, .pumpDecode] : List MockEvent).foldl step (spawn Deployment.smallConfig 1 1)
    s.dep.streams 1 = [.token (fakeToken 1 0) "", .token (fakeToken 1 2) "", .done "length"] ∧
      s.dep.streams 1 <+: script Deployment.smallConfig.tokenizer 1 2 := by
  intro s
  have start : Machine.Run (system Deployment.smallConfig 1 1) [] (spawn Deployment.smallConfig 1 1) := .start rfl
  have called := start.apply (.generate ⟨1, [5], 2, 0⟩ (.ok (0, 1000)))
    ⟨⟨by decide, by rintro _ ⟨rfl⟩; decide⟩, trivial⟩
  have prefilled := called.apply (.prefillRound 0 1 0 1 1)
    ⟨⟨⟨_, rfl, rfl⟩, samplesCompleted_prefillCall _ _ _ _⟩, trivial⟩
  have pumped := prefilled.apply .pumpPrefill ⟨trivial, trivial⟩
  have decoded := pumped.apply (.decodeRound 0 1 2 1 id)
    ⟨(Option.any_eq_true _ _).mp (by decide +kernel), fun ids => .refl ids⟩
  have final := (decoded.apply .pumpDecode ⟨trivial, trivial⟩).apply .pumpDecode ⟨trivial, trivial⟩
  refine ⟨by decide +kernel, ?_⟩
  exact (streams_follow_script Deployment.smallConfig 1 1 _ _ final ⟨1, [5], 2, 0⟩ (by decide +kernel)).1

end MockDeployment

end TrtLlm.Worker
