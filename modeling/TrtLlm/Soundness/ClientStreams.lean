import TrtLlm.Model.Worker.MockDeployment
import TrtLlm.Soundness.DeploymentOwnership
import TrtLlm.Soundness.MockEngineStep

/-! # What a client receives

The line of a request is what its client has received followed by what waits for it in the event channel. The
invariant ties the line to the one place that carries the request: nothing before the first pump, one token on
the way to the decode worker, as many tokens as the engine has emitted while it runs, everything once its
finish event is out. A request cut off in prefill is carried nowhere and its line stays empty.
-/

namespace TrtLlm.Worker

open KvCache Sched Engine

/-- The chunk of one token. -/
def textChunk (text : List TokenId → String) (token : TokenId) : StreamChunk := .token token (text [token])

/-- The first `emitted` tokens of a request: the prefill sample at position 0, then positions 2, 3, … -/
def tokensUpTo (text : List TokenId → String) (id : RequestId) (emitted : ℕ) : List StreamChunk :=
  textChunk text (fakeToken id 0) :: (List.range' 2 (emitted - 1)).map fun position => textChunk text (fakeToken id position)

/-- The whole stream of a request: `max 1 maxTokens` tokens and the end. -/
def script (text : List TokenId → String) (id : RequestId) (maxTokens : ℕ) : List StreamChunk :=
  tokensUpTo text id maxTokens ++ [.done "length"]

theorem tokensUpTo_succ (text : List TokenId → String) (id : RequestId) {emitted : ℕ} (started : 1 ≤ emitted) :
    tokensUpTo text id (emitted + 1) = tokensUpTo text id emitted ++ [textChunk text (fakeToken id (emitted + 1))] := by
  obtain ⟨n, rfl⟩ := Nat.exists_eq_add_of_le' started
  rw [tokensUpTo, tokensUpTo, Nat.add_sub_cancel, Nat.add_sub_cancel, List.range'_1_concat, List.map_append,
    List.map_singleton, Nat.add_comm 2 n]
  rfl

theorem tokensUpTo_prefix (text : List TokenId → String) (id : RequestId) {emitted maxTokens : ℕ}
    (started : 1 ≤ emitted) (within : emitted ≤ maxTokens) :
    tokensUpTo text id emitted <+: script text id maxTokens := by
  have tokens : tokensUpTo text id emitted <+: tokensUpTo text id maxTokens := by
    induction maxTokens, within using Nat.le_induction with
    | base => exact List.prefix_rfl
    | succ n bound ih =>
      rw [tokensUpTo_succ text id (started.trans bound)]
      exact ih.trans (List.prefix_append _ _)
  exact tokens.trans (List.prefix_append _ _)

/-- The end comes only once, so nothing waits behind it. -/
theorem nil_of_script {text : List TokenId → String} {id : RequestId} {maxTokens : ℕ} {sent later : List StreamChunk}
    (split : sent ++ .done "length" :: later = script text id maxTokens) : later = [] := by
  by_contra waiting
  have earlier : StreamChunk.done "length" ∈ (sent ++ .done "length" :: later).dropLast := by
    rw [List.dropLast_append_of_ne_nil (List.cons_ne_nil _ _), List.dropLast_cons_of_ne_nil waiting]
    exact List.mem_append_right _ (.head _)
  rw [split, script, List.dropLast_concat, tokensUpTo, List.mem_cons, List.mem_map] at earlier
  rcases earlier with first | ⟨position, _, later⟩
  · cases first
  · cases later

namespace Deployment

/-- What one event will send to one client. -/
def chunkFor (s : Deployment) (r : RequestId) : DecodeEvent → Option StreamChunk
  | .token id token => if id = r then some (s.tokenChunk token) else none
  | .finished id _ => if id = r then some (.done "length") else none

/-- Chunks on their way to one client. -/
def pendingFor (s : Deployment) (r : RequestId) : List StreamChunk := s.decodeEvents.filterMap (s.chunkFor r)

/-- What one client has received or will receive from the events sent so far. -/
def line (s : Deployment) (r : RequestId) : List StreamChunk := s.streams r ++ s.pendingFor r

variable {s : Deployment}

theorem mem_carriers {r : RequestId} : r ∈ s.carriers ↔ (∃ site ∈ s.prefill, r ∈ site.carried) ∨
    r ∈ s.prefillDone.map (·.id) ∨ (∃ site ∈ s.decode, r ∈ site.carried) ∨ r ∈ finishedIds s.decodeEvents := by
  rw [carriers, List.mem_append, List.mem_append, List.mem_append, List.mem_flatMap, List.mem_flatMap, or_assoc,
    or_assoc]

/-- A call changes who carries its own request only. -/
theorem Called.mem_carriers {req : GenerateRequest} {route : Except String (WorkerId × WorkerId)} {t : Deployment}
    (called : Called s req route t) {r : RequestId} (apart : r ≠ req.id) : r ∈ t.carriers ↔ r ∈ s.carriers := by
  have count := called.count r
  rw [if_neg apart] at count
  rw [← List.count_pos_iff, ← List.count_pos_iff]
  omega

end Deployment

theorem DecodeSite.mem_carried {site : DecodeSite} (alive : site.alive = true) {r : RequestId} :
    r ∈ site.carried ↔ r ∈ (site.jobs ++ site.worker.pending).map (·.id) ∨ r ∈ site.worker.sched.running := by
  rw [DecodeSite.carried, if_pos alive, List.mem_append, List.map_append, ← AList.mem_keys]

namespace MockDeployment

/-- Where the request of a listening client stands. -/
structure Stage (s : MockDeployment) (r : RequestId) (maxTokens : ℕ) : Prop where
  entry : r ∈ s.dep.carriers → ∃ entry, s.dep.inflight.lookup r = some entry ∧ entry.maxTokens = maxTokens
  waiting : ∀ site ∈ s.dep.prefill, r ∈ site.carried → s.dep.line r = []
  first : ∀ done ∈ s.dep.prefillDone, done.id = r → done.firstToken = fakeToken r 0 ∧ s.dep.line r = []
  admitted : ∀ site ∈ s.dep.decode, ∀ job ∈ site.jobs ++ site.worker.pending, job.id = r →
    job.maxTokens = maxTokens ∧ 1 < maxTokens ∧ s.dep.line r = tokensUpTo s.dep.tokenizer r 1
  running : ∀ engine ∈ s.engines, ∀ seq, engine.decode.lookup r = some seq →
    seq.spec.maxTokens = maxTokens ∧ 1 ≤ seq.emitted ∧ seq.emitted < maxTokens ∧
      s.dep.line r = tokensUpTo s.dep.tokenizer r seq.emitted
  finished : r ∈ finishedIds s.dep.decodeEvents → s.dep.line r = script s.dep.tokenizer r maxTokens
  nowhere : r ∉ s.dep.carriers → s.dep.pendingFor r = [] ∧
    (s.dep.streams r = [] ∨ s.dep.streams r = script s.dep.tokenizer r maxTokens)

/-- An engine holds exactly the sequences its worker runs. -/
structure Attached (site : DecodeSite) (engine : MockEngine) : Prop where
  keyed : engine.Keyed
  running : ∀ id, id ∈ engine.decode ↔ id ∈ site.worker.sched.running

/-- Every task lives, every channel is open, engines and workers agree, nobody hears of a request that was not
made, and each client's stream follows its script. -/
structure Streaming (s : MockDeployment) : Prop where
  tracked : s.dep.Tracked
  prefill_alive : ∀ site ∈ s.dep.prefill, site.alive = true
  decode_alive : ∀ site ∈ s.dep.decode, site.alive = true
  done_open : s.dep.prefillDoneOpen = true
  events_open : s.dep.decodeEventsOpen = true
  paired : s.engines.length = s.dep.decode.length
  attached : ∀ (j : ℕ) site engine, s.dep.decode[j]? = some site → s.engines[j]? = some engine → Attached site engine
  silent : ∀ r, r ∉ s.dep.calls.map (·.id) → s.dep.line r = []
  gone : ∀ req ∈ s.dep.calls, req.id ∈ s.dep.hungUp →
    s.dep.streams req.id <+: script s.dep.tokenizer req.id req.maxTokens
  stage : ∀ req ∈ s.dep.calls, req.id ∉ s.dep.hungUp → s.Stage req.id req.maxTokens

variable {s t : MockDeployment} {r : RequestId} {maxTokens : ℕ}

/-- A worker's engine. -/
theorem Streaming.engine (streaming : s.Streaming) {j : ℕ} {site : DecodeSite} (found : s.dep.decode[j]? = some site) :
    ∃ engine, s.engines[j]? = some engine ∧ Attached site engine := by
  have bound : j < s.engines.length := streaming.paired ▸ (List.getElem?_eq_some_iff.mp found).1
  have present : s.engines[j]? = some s.engines[j] := List.getElem?_eq_getElem bound
  exact ⟨_, present, streaming.attached j site _ found present⟩

/-- What an engine runs is carried by its worker. -/
theorem Streaming.engine_carried (streaming : s.Streaming) {j : ℕ} {engine : MockEngine}
    (found : s.engines[j]? = some engine) {seq : MockSeq} (running : engine.decode.lookup r = some seq) :
    ∃ site, s.dep.decode[j]? = some site ∧ r ∈ site.carried := by
  have bound : j < s.dep.decode.length := streaming.paired ▸ (List.getElem?_eq_some_iff.mp found).1
  have present : s.dep.decode[j]? = some s.dep.decode[j] := List.getElem?_eq_getElem bound
  have alive := streaming.decode_alive _ (List.getElem_mem bound)
  refine ⟨_, present, (DecodeSite.mem_carried alive).mpr (.inr ?_)⟩
  rw [← (streaming.attached j _ _ present found).running]
  exact AList.mem_iff_exists_lookup.mpr ⟨_, running⟩

/-- A listening client's line, wherever its request stands, is a front part of its script. -/
theorem Stage.line_isPrefix (stage : s.Stage r maxTokens) (streaming : s.Streaming) :
    s.dep.line r <+: script s.dep.tokenizer r maxTokens := by
  by_cases carried : r ∈ s.dep.carriers
  · rcases Deployment.mem_carriers.mp carried with ⟨site, listed, held⟩ | done | ⟨site, listed, held⟩ | finished
    · rw [stage.waiting site listed held]
      exact List.nil_prefix
    · obtain ⟨completion, listed, same⟩ := List.mem_map.mp done
      rw [(stage.first completion listed same).2]
      exact List.nil_prefix
    · rcases (DecodeSite.mem_carried (streaming.decode_alive site listed)).mp held with waiting | running
      · obtain ⟨job, member, same⟩ := List.mem_map.mp waiting
        obtain ⟨_, budget, line⟩ := stage.admitted site listed job member same
        rw [line]
        exact tokensUpTo_prefix _ _ le_rfl budget.le
      · obtain ⟨j, found⟩ := List.mem_iff_getElem?.mp listed
        obtain ⟨engine, present, attached⟩ := streaming.engine found
        obtain ⟨seq, lookup⟩ := AList.mem_iff_exists_lookup.mp ((attached.running r).mpr running)
        obtain ⟨_, started, budget, line⟩ := stage.running engine (List.mem_of_getElem? present) seq lookup
        rw [line]
        exact tokensUpTo_prefix _ _ started budget.le
    · rw [stage.finished finished]
  · obtain ⟨none, sent⟩ := stage.nowhere carried
    rw [Deployment.line, none, List.append_nil]
    rcases sent with empty | whole
    · rw [empty]
      exact List.nil_prefix
    · rw [whole]

/-- Every client has received a front part of its script. -/
theorem Streaming.received (streaming : s.Streaming) {req : GenerateRequest} (called : req ∈ s.dep.calls) :
    s.dep.streams req.id <+: script s.dep.tokenizer req.id req.maxTokens := by
  by_cases listening : req.id ∈ s.dep.hungUp
  · exact streaming.gone req called listening
  · exact (List.prefix_append _ _).trans ((streaming.stage req called listening).line_isPrefix streaming)

/-- A step that leaves a request where it is, or loses it before its first token. -/
theorem Stage.transport (stage : s.Stage r maxTokens) (tokenizer : t.dep.tokenizer = s.dep.tokenizer)
    (line : t.dep.line r = s.dep.line r)
    (entry : r ∈ t.dep.carriers → r ∈ s.dep.carriers ∧ t.dep.inflight.lookup r = s.dep.inflight.lookup r)
    (waiting : ∀ site ∈ t.dep.prefill, r ∈ site.carried → ∃ site ∈ s.dep.prefill, r ∈ site.carried)
    (first : ∀ done ∈ t.dep.prefillDone, done.id = r → done ∈ s.dep.prefillDone ∨
      done.firstToken = fakeToken r 0 ∧ ∃ site ∈ s.dep.prefill, r ∈ site.carried)
    (admitted : ∀ site ∈ t.dep.decode, ∀ job ∈ site.jobs ++ site.worker.pending, job.id = r →
      ∃ site ∈ s.dep.decode, job ∈ site.jobs ++ site.worker.pending)
    (running : ∀ engine ∈ t.engines, ∀ seq, engine.decode.lookup r = some seq →
      ∃ engine ∈ s.engines, engine.decode.lookup r = some seq)
    (finished : r ∈ finishedIds t.dep.decodeEvents → r ∈ finishedIds s.dep.decodeEvents)
    (nowhere : r ∉ t.dep.carriers → t.dep.pendingFor r = [] ∧
      (t.dep.streams r = [] ∨ t.dep.streams r = script s.dep.tokenizer r maxTokens)) : t.Stage r maxTokens where
  entry carried := by
    obtain ⟨before, same⟩ := entry carried
    rw [same]
    exact stage.entry before
  waiting site listed held := by
    obtain ⟨before, known, carried⟩ := waiting site listed held
    rw [line]
    exact stage.waiting before known carried
  first done listed same := by
    rw [line]
    rcases first done listed same with before | ⟨sample, site, known, carried⟩
    · exact stage.first done before same
    · exact ⟨sample, stage.waiting site known carried⟩
  admitted site listed job member same := by
    obtain ⟨before, known, kept⟩ := admitted site listed job member same
    rw [line, tokenizer]
    exact stage.admitted before known job kept same
  running engine listed seq lookup := by
    obtain ⟨before, known, kept⟩ := running engine listed seq lookup
    rw [line, tokenizer]
    exact stage.running before known seq kept
  finished reported := by
    rw [line, tokenizer]
    exact stage.finished (finished reported)
  nowhere absent := by
    rw [tokenizer]
    exact nowhere absent

/-! ### Calls -/

/-- Engines hold nothing that the decode workers do not carry. -/
theorem Streaming.unattached (streaming : s.Streaming) (uncarried : ∀ site ∈ s.dep.decode, r ∉ site.carried) :
    ∀ engine ∈ s.engines, r ∉ engine.decode := by
  intro engine listed member
  obtain ⟨j, found⟩ := List.mem_iff_getElem?.mp listed
  obtain ⟨seq, lookup⟩ := AList.mem_iff_exists_lookup.mp member
  obtain ⟨site, present, held⟩ := streaming.engine_carried found lookup
  exact uncarried site (List.mem_of_getElem? present) held

/-- A request that nobody carries, whose client has heard nothing or everything. -/
theorem stage_uncarried (alive : ∀ site ∈ s.dep.decode, site.alive = true)
    (unattached : ∀ engine ∈ s.engines, r ∉ engine.decode) (absent : r ∉ s.dep.carriers)
    (heard : s.dep.pendingFor r = [] ∧
      (s.dep.streams r = [] ∨ s.dep.streams r = script s.dep.tokenizer r maxTokens)) : s.Stage r maxTokens where
  entry carried := absurd carried absent
  waiting site listed held := absurd (Deployment.mem_carriers.mpr (.inl ⟨site, listed, held⟩)) absent
  first done listed same := absurd (Deployment.mem_carriers.mpr (.inr (.inl (same ▸ List.mem_map_of_mem listed)))) absent
  admitted site listed job member same := by
    refine absurd (Deployment.mem_carriers.mpr (.inr (.inr (.inl ⟨site, listed, ?_⟩)))) absent
    rw [DecodeSite.mem_carried (alive site listed)]
    exact .inl (same ▸ List.mem_map_of_mem member)
  running engine listed seq lookup :=
    absurd (AList.mem_iff_exists_lookup.mpr ⟨_, lookup⟩) (unattached engine listed)
  finished reported := absurd (Deployment.mem_carriers.mpr (.inr (.inr (.inr reported)))) absent
  nowhere _ := heard

theorem Streaming.generate (streaming : s.Streaming) {req : GenerateRequest}
    {route : Except String (WorkerId × WorkerId)} (enabled : s.dep.Enabled (.generate req route)) :
    (s.step (.generate req route)).Streaming := by
  have called : Deployment.Called s.dep req route (s.dep.generate req route) := Deployment.generate_called enabled
  have tracked : (s.dep.generate req route).Tracked := streaming.tracked.step enabled
  have unheard : s.dep.line req.id = [] := streaming.silent req.id enabled.1
  have uncarried : req.id ∉ s.dep.carriers := fun member => enabled.1 (streaming.tracked.called _ member)
  change (⟨s.dep.generate req route, s.engines⟩ : MockDeployment).Streaming
  generalize s.dep.generate req route = dep at called tracked
  have known : ∀ r, r ∉ (s.dep.calls ++ [req]).map (·.id) → r ∉ s.dep.calls.map (·.id) := by
    intro r outside listed
    rw [List.map_append] at outside
    exact outside (List.mem_append_left _ listed)
  have gone : ∀ other ∈ s.dep.calls ++ [req], other.id ∈ s.dep.hungUp →
      s.dep.streams other.id <+: script s.dep.tokenizer other.id other.maxTokens := by
    intro other listed left
    rcases List.mem_append.mp listed with before | last
    · exact streaming.gone other before left
    · rw [List.mem_singleton.mp last, show s.dep.streams req.id = [] from (List.append_eq_nil_iff.mp unheard).1]
      exact List.nil_prefix
  obtain ⟨sent, pending⟩ := List.append_eq_nil_iff.mp unheard
  have unstarted : s.Stage req.id req.maxTokens := by
    refine stage_uncarried streaming.decode_alive (streaming.unattached fun site listed held => ?_) uncarried
      ⟨pending, .inl sent⟩
    exact uncarried (Deployment.mem_carriers.mpr (.inr (.inr (.inl ⟨site, listed, held⟩))))
  have others := fun {r : RequestId} (apart : r ≠ req.id) => called.mem_carriers apart
  cases called with
  | rejected reason refused =>
    refine ⟨tracked, streaming.prefill_alive, streaming.decode_alive, streaming.done_open, streaming.events_open,
      streaming.paired, streaming.attached, fun r outside => streaming.silent r (known r outside), gone, ?_⟩
    intro other listed listening
    rcases List.mem_append.mp listed with before | last
    · have stage := streaming.stage other before listening
      exact ⟨stage.entry, stage.waiting, stage.first, stage.admitted, stage.running, stage.finished, stage.nowhere⟩
    · rw [List.mem_singleton.mp last]
      exact ⟨unstarted.entry, unstarted.waiting, unstarted.first, unstarted.admitted, unstarted.running,
        unstarted.finished, unstarted.nowhere⟩
  | queued decision site job accepted found alive same =>
    have pushed : ∀ next ∈ s.dep.prefill.set decision.1 { site with jobs := site.jobs ++ [job] },
        next ∈ s.dep.prefill ∨ next = { site with jobs := site.jobs ++ [job] } := fun next member =>
      List.mem_or_eq_of_mem_set member
    refine ⟨tracked, fun next member => ?_, streaming.decode_alive, streaming.done_open, streaming.events_open,
      streaming.paired, streaming.attached, fun r outside => streaming.silent r (known r outside), gone, ?_⟩
    · rcases pushed next member with before | rfl
      · exact streaming.prefill_alive next before
      · exact alive
    intro other listed listening
    rcases List.mem_append.mp listed with before | last
    · have stage := streaming.stage other before listening
      have apart : other.id ≠ req.id := fun here => enabled.1 (here ▸ List.mem_map_of_mem before)
      refine stage.transport rfl rfl ?_ ?_ (fun done listed _ => .inl listed)
        (fun site listed job member _ => ⟨site, listed, member⟩) (fun engine listed seq lookup => ⟨engine, listed, lookup⟩)
        (fun reported => reported) ?_
      · exact fun carried => ⟨(others apart).mp carried, AList.lookup_insert_ne apart⟩
      · intro next member held
        rcases pushed next member with inside | rfl
        · exact ⟨next, inside, held⟩
        · refine ⟨site, List.mem_of_getElem? found, List.count_pos_iff.mp ?_⟩
          have positive := List.count_pos_iff.mpr held
          rwa [PrefillSite.count_push alive, if_neg fun here => apart (here.trans same), Nat.add_zero] at positive
      · exact fun absent => stage.nowhere fun carried => absent ((others apart).mpr carried)
    · rw [List.mem_singleton.mp last]
      exact ⟨fun _ => ⟨_, AList.lookup_insert _, rfl⟩, fun _ _ _ => unheard, unstarted.first, unstarted.admitted,
        unstarted.running, unstarted.finished, fun _ => unstarted.nowhere uncarried⟩
  | forgotten decision site accepted found ended =>
    rw [streaming.prefill_alive site (List.mem_of_getElem? found)] at ended
    cases ended

/-! ### Prefill passes -/

theorem samplesCompleted_prefillCall (drained : ℕ) (now elapsedMs doneAt : Millis) :
    Deployment.SamplesCompleted (prefillCall drained now elapsedMs doneAt).answer := by
  intro work outcome answered
  rw [← Except.ok.inj answered, MockEngine.prefill, List.map_map]
  exact .refl _

/-- With a listening pump the task goes on, and what it sends are the mock engine's samples. -/
theorem prefill_round (site : PrefillSite) (stocked : site.worker.Stocked) (drained : ℕ)
    (now elapsedMs doneAt : Millis) {outOpen : Bool} (listening : outOpen = true) :
    (site.round (prefillCall drained now elapsedMs doneAt) outOpen).2.alive = site.alive ∧
      ∀ done ∈ (site.round (prefillCall drained now elapsedMs doneAt) outOpen).1,
        done.firstToken = fakeToken done.id 0 := by
  unfold PrefillSite.round
  simp only
  rcases stocked.round_cases (site.input (prefillCall drained now elapsedMs doneAt) outOpen) with
    ⟨_, unchanged⟩ | ⟨outcome, _, answered, booking⟩
  · rw [unchanged]
    exact ⟨rfl, fun done listed => (nomatch listed)⟩
  · rcases booking.sent with ⟨_, closed, _⟩ | ⟨returned, sent⟩
    · exact absurd (listening.symm.trans closed) (by decide)
    · rw [returned]
      refine ⟨rfl, fun done listed => ?_⟩
      have sample : (done.id, done.firstToken) ∈ outcome.firstTokens := by
        rw [← sent]
        exact List.mem_map_of_mem listed
      rw [← Except.ok.inj answered] at sample
      obtain ⟨spec, _, same⟩ := List.mem_map.mp sample
      obtain ⟨id, token⟩ := Prod.mk.inj same
      rw [← token, ← id]

theorem Streaming.prefillRound (streaming : s.Streaming) {i drained : ℕ} {now elapsedMs doneAt : Millis}
    (enabled : s.dep.Enabled (.prefillRound i (prefillCall drained now elapsedMs doneAt))) :
    (s.step (.prefillRound i drained now elapsedMs doneAt)).Streaming := by
  have tracked := streaming.tracked.step enabled
  obtain ⟨_, le, _⟩ := Deployment.prefillRound_spec streaming.tracked.sound enabled
  have kept : ∀ r ∈ (s.dep.prefillRound i (prefillCall drained now elapsedMs doneAt)).carriers, r ∈ s.dep.carriers :=
    fun r carried => List.count_pos_iff.mp ((List.count_pos_iff.mpr carried).trans_le (le r))
  obtain ⟨⟨site, found, alive⟩, samples⟩ := enabled
  have stocked := streaming.tracked.sound.prefill site (List.mem_of_getElem? found)
  obtain ⟨living, fakes⟩ := prefill_round site stocked drained now elapsedMs doneAt streaming.done_open
  have counted := PrefillSite.count_round stocked alive samples s.dep.prefillDoneOpen
  have after : s.dep.prefillRound i (prefillCall drained now elapsedMs doneAt) = { s.dep with
      prefill := s.dep.prefill.set i (site.round (prefillCall drained now elapsedMs doneAt) s.dep.prefillDoneOpen).2
      prefillDone := s.dep.prefillDone ++
        (site.round (prefillCall drained now elapsedMs doneAt) s.dep.prefillDoneOpen).1 } := by
    rw [Deployment.prefillRound, found]
  change (⟨s.dep.prefillRound i (prefillCall drained now elapsedMs doneAt), s.engines⟩ : MockDeployment).Streaming
  change (s.dep.prefillRound i (prefillCall drained now elapsedMs doneAt)).Tracked at tracked
  generalize site.round (prefillCall drained now elapsedMs doneAt) s.dep.prefillDoneOpen = out
    at living fakes counted after
  rw [after] at tracked kept ⊢
  have replaced : ∀ other ∈ s.dep.prefill.set i out.2, other ∈ s.dep.prefill ∨ other = out.2 := fun other member =>
    List.mem_or_eq_of_mem_set member
  refine ⟨tracked, fun other member => ?_, streaming.decode_alive, streaming.done_open, streaming.events_open,
    streaming.paired, streaming.attached, streaming.silent, streaming.gone, fun req listed listening => ?_⟩
  · rcases replaced other member with before | rfl
    · exact streaming.prefill_alive other before
    · exact living.trans alive
  have stage := streaming.stage req listed listening
  refine stage.transport rfl rfl (fun carried => ⟨kept _ carried, rfl⟩) ?_ ?_
    (fun site listed job member _ => ⟨site, listed, member⟩) (fun engine listed seq lookup => ⟨engine, listed, lookup⟩)
    (fun reported => reported) ?_
  · intro other member held
    rcases replaced other member with before | rfl
    · exact ⟨other, before, held⟩
    · refine ⟨site, List.mem_of_getElem? found, List.count_pos_iff.mp ?_⟩
      have positive := List.count_pos_iff.mpr held
      have bound := (counted req.id).1
      omega
  · intro done member same
    rcases List.mem_append.mp member with before | sent
    · exact .inl before
    · refine .inr ⟨same ▸ fakes done sent, site, List.mem_of_getElem? found, List.count_pos_iff.mp ?_⟩
      have positive : 0 < (out.1.map (·.id)).count req.id := List.count_pos_iff.mpr (same ▸ List.mem_map_of_mem sent)
      have bound := (counted req.id).1
      omega
  · intro absent
    by_cases before : req.id ∈ s.dep.carriers
    · -- The request was lost in this pass, so it was still waiting for its first token.
      have line : s.dep.line req.id = [] := by
        rcases Deployment.mem_carriers.mp before with ⟨other, inside, held⟩ | done | elsewhere
        · exact stage.waiting other inside held
        · refine (absent (Deployment.mem_carriers.mpr (.inr (.inl ?_)))).elim
          rw [List.map_append]
          exact List.mem_append_left _ done
        · exact (absent (Deployment.mem_carriers.mpr (.inr (.inr elsewhere)))).elim
      obtain ⟨sent, pending⟩ := List.append_eq_nil_iff.mp line
      exact ⟨pending, .inl sent⟩
    · exact stage.nowhere before

end MockDeployment

end TrtLlm.Worker
