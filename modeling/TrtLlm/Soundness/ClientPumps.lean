import TrtLlm.Soundness.ClientStreams

/-! # What the pumps deliver

While every task lives, a pump moves chunks from a request's pending part to its client, hands the request on,
or ends it. Only the request of the handled message moves; everything the invariant says about the others
carries over as it is.
-/

namespace TrtLlm.Worker

open KvCache Sched Engine

namespace Deployment

variable {s : Deployment}

theorem send_listening {id : RequestId} (listening : id ∉ s.hungUp) (chunk : StreamChunk) :
    s.send id chunk = (true, { s with streams := Function.update s.streams id (s.streams id ++ [chunk]) }) :=
  if_neg listening

theorem send_gone {id : RequestId} (gone : id ∈ s.hungUp) (chunk : StreamChunk) : s.send id chunk = (false, s) :=
  if_pos gone

/-- What handling a first token does. -/
inductive FirstDelivered (s : Deployment) (done : PrefillComplete) : Deployment → Prop
  | unknown (missing : s.inflight.lookup done.id = none) : FirstDelivered s done s
  | gone (left : done.id ∈ s.hungUp) : FirstDelivered s done (s.drop done.id)
  | ended (entry : Inflight) (found : s.inflight.lookup done.id = some entry) (listening : done.id ∉ s.hungUp)
      (short : entry.maxTokens ≤ 1) : FirstDelivered s done { s with
        inflight := s.inflight.erase done.id
        streams := Function.update s.streams done.id
          (s.streams done.id ++ [s.tokenChunk done.firstToken, .done "length"]) }
  | handed (entry : Inflight) (site : DecodeSite) (job : DecodeAdmit)
      (found : s.inflight.lookup done.id = some entry) (listening : done.id ∉ s.hungUp) (long : 1 < entry.maxTokens)
      (there : s.decode[entry.decodeWorker]? = some site) (name : job.id = done.id)
      (budget : job.maxTokens = entry.maxTokens) : FirstDelivered s done { s with
        decode := s.decode.set entry.decodeWorker { site with jobs := site.jobs ++ [job] }
        streams := Function.update s.streams done.id (s.streams done.id ++ [s.tokenChunk done.firstToken]) }

theorem deliverFirst_delivered (done : PrefillComplete)
    (routed : ∀ {id entry}, s.inflight.lookup id = some entry → entry.decodeWorker < s.decode.length)
    (alive : ∀ site ∈ s.decode, site.alive = true) : FirstDelivered s done (s.deliverFirst done) := by
  unfold deliverFirst
  cases found : s.inflight.lookup done.id with
  | none => exact .unknown found
  | some entry =>
    simp only
    by_cases left : done.id ∈ s.hungUp
    · rw [send_gone left]
      exact .gone left
    · rw [send_listening left]
      simp only [Bool.not_true, Bool.false_eq_true, if_false]
      split
      next short =>
        rw [send_listening (by exact left)]
        simp only [Function.update_self, Function.update_idem, List.append_assoc]
        exact .ended entry found left short
      next long =>
        obtain ⟨site, there⟩ : ∃ site, s.decode[entry.decodeWorker]? = some site :=
          ⟨_, List.getElem?_eq_getElem (routed found)⟩
        unfold handOff
        simp only [there]
        rw [if_pos (alive site (List.mem_of_getElem? there))]
        refine .handed entry site _ found left (not_le.mp long) there ?_ ?_
        · rfl
        · rfl

/-- An event has something for one client only. -/
theorem addressee (s : Deployment) (event : DecodeEvent) :
    ∃ id chunk, s.chunkFor id event = some chunk ∧ ∀ other, other ≠ id → s.chunkFor other event = none := by
  cases event with
  | token id token => exact ⟨id, _, if_pos rfl, fun other apart => if_neg (Ne.symm apart)⟩
  | finished id emitted => exact ⟨id, _, if_pos rfl, fun other apart => if_neg (Ne.symm apart)⟩

/-- What handling a decode event does. -/
inductive EventDelivered (s : Deployment) : DecodeEvent → Deployment → Prop
  | unknown (event : DecodeEvent) (missing : ∀ chunk id, s.chunkFor id event = some chunk → id ∉ s.inflight) :
      EventDelivered s event s
  | gone (event : DecodeEvent) (id : RequestId) (chunk : StreamChunk) (own : s.chunkFor id event = some chunk)
      (left : id ∈ s.hungUp) : EventDelivered s event (s.drop id)
  | token (id : RequestId) (token : TokenId) (listening : id ∉ s.hungUp) : EventDelivered s (.token id token)
      { s with streams := Function.update s.streams id (s.streams id ++ [s.tokenChunk token]) }
  | finished (id : RequestId) (emitted : ℕ) (listening : id ∉ s.hungUp) : EventDelivered s (.finished id emitted)
      { s with
        inflight := s.inflight.erase id
        streams := Function.update s.streams id (s.streams id ++ [.done "length"]) }

theorem deliver_delivered (event : DecodeEvent) : EventDelivered s event (s.deliver event) := by
  cases event with
  | token id token =>
    rw [deliver]
    split
    next =>
      simp only
      by_cases left : id ∈ s.hungUp
      · rw [send_gone left]
        exact .gone _ id (s.tokenChunk token) (if_pos rfl) left
      · rw [send_listening left]
        exact .token id token left
    next absent =>
      refine .unknown _ fun chunk other own member => absent ?_
      rw [chunkFor] at own
      split at own
      next same => exact same ▸ member
      next => cases own
  | finished id emitted =>
    rw [deliver]
    split
    next =>
      by_cases left : id ∈ s.hungUp
      · rw [send_gone (by exact left)]
        exact .gone _ id (.done "length") (if_pos rfl) left
      · rw [send_listening (by exact left)]
        exact .finished id emitted left
    next absent =>
      refine .unknown _ fun chunk other own member => absent ?_
      rw [chunkFor] at own
      split at own
      next same => exact same ▸ member
      next => cases own

end Deployment

namespace MockDeployment

variable {s : MockDeployment}

/-- Nothing moved but one request. -/
structure Beside (x : RequestId) (before after : Deployment) : Prop where
  tokenizer : after.tokenizer = before.tokenizer
  prefill : after.prefill = before.prefill
  done : ∀ done ∈ after.prefillDone, done ∈ before.prefillDone
  alive : ∀ site ∈ after.decode, site.alive = true
  workers : after.decode.map (·.worker) = before.decode.map (·.worker)
  jobs : ∀ site ∈ after.decode, ∀ job ∈ site.jobs ++ site.worker.pending, job.id ≠ x →
    ∃ site ∈ before.decode, job ∈ site.jobs ++ site.worker.pending
  pending : ∀ r, r ≠ x → after.pendingFor r = before.pendingFor r
  finished : ∀ r, r ≠ x → r ∈ finishedIds after.decodeEvents → r ∈ finishedIds before.decodeEvents
  streams : ∀ r, r ≠ x → after.streams r = before.streams r
  inflight : ∀ r, r ≠ x → after.inflight.lookup r = before.inflight.lookup r
  carriers : ∀ r, r ≠ x → (r ∈ after.carriers ↔ r ∈ before.carriers)
  hungUp : after.hungUp = before.hungUp
  calls : after.calls = before.calls
  doneOpen : after.prefillDoneOpen = before.prefillDoneOpen
  eventsOpen : after.decodeEventsOpen = before.decodeEventsOpen

theorem Beside.line {x : RequestId} {before after : Deployment} (beside : Beside x before after) {r : RequestId}
    (apart : r ≠ x) : after.line r = before.line r := by
  rw [Deployment.line, Deployment.line, beside.streams r apart, beside.pending r apart]

theorem Beside.trans {x : RequestId} {before between after : Deployment} (first : Beside x before between)
    (second : Beside x between after) : Beside x before after where
  tokenizer := second.tokenizer.trans first.tokenizer
  prefill := second.prefill.trans first.prefill
  done done listed := first.done done (second.done done listed)
  alive := second.alive
  workers := second.workers.trans first.workers
  jobs site listed job member apart := by
    obtain ⟨middle, known, kept⟩ := second.jobs site listed job member apart
    exact first.jobs middle known job kept apart
  pending r apart := (second.pending r apart).trans (first.pending r apart)
  finished r apart reported := first.finished r apart (second.finished r apart reported)
  streams r apart := (second.streams r apart).trans (first.streams r apart)
  inflight r apart := (second.inflight r apart).trans (first.inflight r apart)
  carriers r apart := (second.carriers r apart).trans (first.carriers r apart)
  hungUp := second.hungUp.trans first.hungUp
  calls := second.calls.trans first.calls
  doneOpen := second.doneOpen.trans first.doneOpen
  eventsOpen := second.eventsOpen.trans first.eventsOpen

/-- Only the entry and the stream of one request change. -/
theorem Beside.client {x : RequestId} {s : Deployment} (alive : ∀ site ∈ s.decode, site.alive = true)
    (inflight : HashMap RequestId Inflight) (streams : RequestId → List StreamChunk)
    (entries : ∀ r, r ≠ x → inflight.lookup r = s.inflight.lookup r) (sent : ∀ r, r ≠ x → streams r = s.streams r) :
    Beside x s { s with inflight, streams } where
  tokenizer := rfl
  prefill := rfl
  done _ listed := listed
  alive := alive
  workers := rfl
  jobs site listed _ member _ := ⟨site, listed, member⟩
  pending _ _ := rfl
  finished _ _ reported := reported
  streams := sent
  inflight := entries
  carriers _ _ := Iff.rfl
  hungUp := rfl
  calls := rfl
  doneOpen := rfl
  eventsOpen := rfl

theorem Beside.drop {x : RequestId} {s : Deployment} (alive : ∀ site ∈ s.decode, site.alive = true) :
    Beside x s (s.drop x) :=
  .client alive _ _ (fun _ apart => AList.lookup_erase_ne apart) fun _ _ => rfl

/-- One job is handed to a worker, and one chunk sent. -/
theorem Beside.push {x : RequestId} {s : Deployment} (alive : ∀ site ∈ s.decode, site.alive = true) {j : ℕ}
    {site : DecodeSite} (found : s.decode[j]? = some site) (job : DecodeAdmit) (name : job.id = x)
    (streams : RequestId → List StreamChunk) (sent : ∀ r, r ≠ x → streams r = s.streams r) :
    Beside x s { s with decode := s.decode.set j { site with jobs := site.jobs ++ [job] }, streams } where
  tokenizer := rfl
  prefill := rfl
  done _ listed := listed
  alive other listed := by
    rcases List.mem_or_eq_of_mem_set listed with before | rfl
    · exact alive other before
    · exact alive site (List.mem_of_getElem? found)
  workers := by
    refine List.ext_getElem? fun k => ?_
    rw [List.getElem?_map, List.getElem?_map, List.getElem?_set]
    split
    next same =>
      subst same
      rw [found, if_pos (List.getElem?_eq_some_iff.mp found).1]
      rfl
    next => rfl
  jobs other listed job member apart := by
    rcases List.mem_or_eq_of_mem_set listed with before | rfl
    · exact ⟨other, before, member⟩
    · refine ⟨site, List.mem_of_getElem? found, ?_⟩
      rcases List.mem_append.mp member with queued | pending
      · rcases List.mem_append.mp queued with earlier | last
        · exact List.mem_append_left _ earlier
        · rw [List.mem_singleton.mp last] at apart
          exact absurd name apart
      · exact List.mem_append_right _ pending
  pending _ _ := rfl
  finished _ _ reported := reported
  streams := sent
  inflight _ _ := rfl
  carriers r apart := by
    have moved := List.count_flatMap_set DecodeSite.carried r found { site with jobs := site.jobs ++ [job] }
    rw [DecodeSite.count_push (alive site (List.mem_of_getElem? found)), if_neg (name ▸ apart)] at moved
    rw [← List.count_pos_iff, ← List.count_pos_iff, Deployment.count_carriers, Deployment.count_carriers s]
    simp only
    omega
  hungUp := rfl
  calls := rfl
  doneOpen := rfl
  eventsOpen := rfl

theorem Stage.beside {x : RequestId} {dep : Deployment} (beside : Beside x s.dep dep) {r : RequestId} {maxTokens : ℕ}
    (stage : s.Stage r maxTokens) (apart : r ≠ x) : Stage ⟨dep, s.engines⟩ r maxTokens := by
  refine stage.transport beside.tokenizer (beside.line apart) ?_ ?_ ?_ ?_ (fun engine listed seq lookup =>
    ⟨engine, listed, lookup⟩) (beside.finished r apart) fun absent => ?_
  · exact fun carried => ⟨(beside.carriers r apart).mp carried, beside.inflight r apart⟩
  · exact fun site listed held => ⟨site, beside.prefill ▸ listed, held⟩
  · exact fun done listed _ => .inl (beside.done done listed)
  · rintro site listed job member rfl
    exact beside.jobs site listed job member apart
  · change dep.pendingFor r = [] ∧ (dep.streams r = [] ∨ dep.streams r = _)
    rw [beside.pending r apart, beside.streams r apart]
    exact stage.nowhere fun carried => absent ((beside.carriers r apart).mpr carried)

/-- A pump step only has to account for the request it handles. -/
theorem Streaming.beside (streaming : s.Streaming) {x : RequestId} {dep : Deployment} (beside : Beside x s.dep dep)
    (called : x ∈ s.dep.calls.map (·.id)) (tracked : dep.Tracked)
    (gone : ∀ req ∈ s.dep.calls, req.id = x → x ∈ s.dep.hungUp →
      dep.streams x <+: script s.dep.tokenizer x req.maxTokens)
    (stage : ∀ req ∈ s.dep.calls, req.id = x → x ∉ s.dep.hungUp → Stage ⟨dep, s.engines⟩ x req.maxTokens) :
    Streaming ⟨dep, s.engines⟩ := by
  have length := congrArg List.length beside.workers
  rw [List.length_map, List.length_map] at length
  refine ⟨tracked, fun site listed => streaming.prefill_alive site (beside.prefill ▸ listed), beside.alive,
    beside.doneOpen.trans streaming.done_open, beside.eventsOpen.trans streaming.events_open,
    streaming.paired.trans length.symm, fun j site engine found present => ?_, fun r outside => ?_,
    fun req listed left => ?_, fun req listed listening => ?_⟩
  · have worker : (s.dep.decode.map (·.worker))[j]? = some site.worker := by
      rw [← beside.workers, List.getElem?_map, show dep.decode[j]? = some site from found]
      rfl
    rw [List.getElem?_map] at worker
    obtain ⟨old, known, same⟩ := Option.map_eq_some_iff.mp worker
    have attached := streaming.attached j old engine known present
    exact ⟨attached.keyed, fun id => same ▸ attached.running id⟩
  · rw [show (⟨dep, s.engines⟩ : MockDeployment).dep.calls = _ from beside.calls] at outside
    rw [← streaming.silent r outside]
    exact beside.line fun same => outside (same ▸ called)
  · change req ∈ dep.calls at listed
    change req.id ∈ dep.hungUp at left
    change dep.streams req.id <+: script dep.tokenizer req.id req.maxTokens
    rw [beside.calls] at listed
    rw [beside.hungUp] at left
    rw [beside.tokenizer]
    by_cases same : req.id = x
    · rw [same] at left ⊢
      exact gone req listed same left
    · rw [beside.streams _ same]
      exact streaming.gone req listed left
  · change req ∈ dep.calls at listed
    change req.id ∉ dep.hungUp at listening
    rw [beside.calls] at listed
    rw [beside.hungUp] at listening
    by_cases same : req.id = x
    · rw [same] at listening ⊢
      exact stage req listed same listening
    · exact (streaming.stage req listed listening).beside beside same

/-- The state of the first pump while it holds a message. -/
theorem Streaming.take_done (streaming : s.Streaming) {done : PrefillComplete} {rest : List PrefillComplete}
    (split : s.dep.prefillDone = done :: rest) :
    Beside done.id s.dep { s.dep with prefillDone := rest } ∧ done.id ∈ s.dep.carriers ∧
      done.id ∉ ({ s.dep with prefillDone := rest } : Deployment).carriers := by
  have held : done.id ∈ s.dep.carriers := Deployment.mem_carriers.mpr (.inr (.inl (split ▸ .head _)))
  have taken : ∀ r, ({ s.dep with prefillDone := rest } : Deployment).carriers.count r +
      (if done.id = r then 1 else 0) = s.dep.carriers.count r := by
    intro r
    rw [Deployment.count_carriers, Deployment.count_carriers s.dep, split, List.map_cons, List.count_cons]
    simp only [beq_iff_eq]
    omega
  refine ⟨⟨rfl, rfl, fun other listed => split ▸ .tail _ listed, streaming.decode_alive, rfl,
    fun site listed job member _ => ⟨site, listed, member⟩, fun _ _ => rfl, fun _ _ reported => reported, fun _ _ => rfl,
    fun _ _ => rfl, fun r apart => ?_, rfl, rfl, rfl, rfl⟩, held, fun again => ?_⟩
  · rw [← List.count_pos_iff, ← List.count_pos_iff, ← taken r, if_neg (Ne.symm apart), Nat.add_zero]
  · have once := streaming.tracked.once done.id
    have total := taken done.id
    have positive := List.count_pos_iff.mpr again
    rw [if_pos rfl] at total
    omega

/-- A request that nobody carried is handed to a decode worker with its first token sent. -/
theorem stage_handed {s : Deployment} {engines : List MockEngine} {x : RequestId}
    (alive : ∀ site ∈ s.decode, site.alive = true) (unattached : ∀ engine ∈ engines, x ∉ engine.decode)
    (absent : x ∉ s.carriers) {j : ℕ} {site : DecodeSite} (found : s.decode[j]? = some site) {job : DecodeAdmit}
    (name : job.id = x) (long : 1 < job.maxTokens) {entry : Inflight} (known : s.inflight.lookup x = some entry)
    (budget : job.maxTokens = entry.maxTokens) {streams : RequestId → List StreamChunk}
    (line : streams x ++ s.pendingFor x = tokensUpTo s.tokenizer x 1) : Stage
      ⟨{ s with decode := s.decode.set j { site with jobs := site.jobs ++ [job] }, streams }, engines⟩ x
        entry.maxTokens := by
  have elsewhere : ∀ other ∈ s.decode, x ∉ (other.jobs ++ other.worker.pending).map (·.id) := by
    intro other listed waits
    exact absent (Deployment.mem_carriers.mpr (.inr (.inr (.inl
      ⟨other, listed, (DecodeSite.mem_carried (alive other listed)).mpr (.inl waits)⟩))))
  refine ⟨fun _ => ⟨entry, known, rfl⟩, fun other listed held => ?_, fun done listed same => ?_,
    fun other listed job member same => ?_, fun engine listed seq lookup => ?_, fun reported => ?_, fun gone => ?_⟩
  · exact (absent (Deployment.mem_carriers.mpr (.inl ⟨other, listed, held⟩))).elim
  · exact (absent (Deployment.mem_carriers.mpr (.inr (.inl (same ▸ List.mem_map_of_mem listed))))).elim
  · rcases List.mem_or_eq_of_mem_set listed with before | rfl
    · exact absurd (same ▸ List.mem_map_of_mem member) (elsewhere other before)
    · simp only [List.append_assoc, List.mem_append, List.mem_singleton] at member
      rcases member with queued | rfl | pending
      · refine absurd ?_ (elsewhere site (List.mem_of_getElem? found))
        exact same ▸ List.mem_map_of_mem (List.mem_append_left _ queued)
      · exact ⟨budget, budget ▸ long, line⟩
      · refine absurd ?_ (elsewhere site (List.mem_of_getElem? found))
        exact same ▸ List.mem_map_of_mem (List.mem_append_right _ pending)
  · exact absurd (AList.mem_iff_exists_lookup.mpr ⟨_, lookup⟩) (unattached engine listed)
  · exact (absent (Deployment.mem_carriers.mpr (.inr (.inr (.inr reported))))).elim
  · have bound := (List.getElem?_eq_some_iff.mp found).1
    refine (gone (Deployment.mem_carriers.mpr (.inr (.inr (.inl ⟨_, List.mem_set bound _, ?_⟩))))).elim
    refine (DecodeSite.mem_carried ?_).mpr (.inl (name ▸ List.mem_map_of_mem ?_))
    · exact alive site (List.mem_of_getElem? found)
    exact List.mem_append_left _ (List.mem_append_right _ (.head _))

/-- A first token reaches its client, and the request ends there or goes on to its decode worker. -/
theorem Streaming.pumpPrefill (streaming : s.Streaming) : (s.step .pumpPrefill).Streaming := by
  have enabled : s.dep.Enabled .pumpPrefill := trivial
  have tracked : s.dep.pumpPrefill.Tracked := streaming.tracked.step enabled
  change Streaming ⟨s.dep.pumpPrefill, s.engines⟩
  cases split : s.dep.prefillDone with
  | nil =>
    have idle : s.dep.pumpPrefill = s.dep := by rw [Deployment.pumpPrefill, split]
    rw [idle]
    exact streaming
  | cons done rest =>
    have pumped : s.dep.pumpPrefill = ({ s.dep with prefillDone := rest } : Deployment).deliverFirst done := by
      rw [Deployment.pumpPrefill, split]
    obtain ⟨taken, held, absent⟩ := streaming.take_done split
    have delivered := Deployment.deliverFirst_delivered (s := { s.dep with prefillDone := rest }) done
      streaming.tracked.sound.routed streaming.decode_alive
    have called := streaming.tracked.called _ held
    have unattached := streaming.unattached (r := done.id) fun site listed carried =>
      absent (Deployment.mem_carriers.mpr (.inr (.inr (.inl ⟨site, listed, carried⟩))))
    rw [pumped] at tracked ⊢
    generalize ({ s.dep with prefillDone := rest } : Deployment).deliverFirst done = dep at tracked delivered
    -- A client that has left has heard what it had heard.
    have left : ∀ req ∈ s.dep.calls, req.id = done.id → done.id ∈ s.dep.hungUp →
        s.dep.streams done.id <+: script s.dep.tokenizer done.id req.maxTokens := by
      rintro req listed here gone
      rw [← here] at gone ⊢
      exact streaming.gone req listed gone
    have fresh : ∀ req ∈ s.dep.calls, req.id = done.id → done.id ∉ s.dep.hungUp →
        (∃ entry, s.dep.inflight.lookup done.id = some entry ∧ entry.maxTokens = req.maxTokens) ∧
          done.firstToken = fakeToken done.id 0 ∧ s.dep.streams done.id = [] ∧ s.dep.pendingFor done.id = [] := by
      intro req listed here listening
      rw [← here] at listening held ⊢
      have stage := streaming.stage req listed listening
      obtain ⟨sample, line⟩ := stage.first done (split ▸ .head _) here.symm
      obtain ⟨sent, pending⟩ := List.append_eq_nil_iff.mp line
      exact ⟨stage.entry held, sample, sent, pending⟩
    cases delivered with
    | unknown missing =>
      refine streaming.beside taken called tracked left fun req listed here listening => ?_
      obtain ⟨⟨entry, found, _⟩, _⟩ := fresh req listed here listening
      rw [show s.dep.inflight.lookup done.id = none from missing] at found
      cases found
    | gone gone =>
      exact streaming.beside (taken.trans (.drop taken.alive)) called tracked left fun _ _ _ listening =>
        absurd gone listening
    | ended entry found listening short =>
      refine streaming.beside (taken.trans (.client taken.alive _ _
        (fun _ apart => AList.lookup_erase_ne apart) fun _ apart => Function.update_of_ne apart _ _)) called tracked
        (fun _ _ _ gone => absurd gone listening) fun req listed here _ => ?_
      obtain ⟨⟨other, known, budget⟩, sample, sent, pending⟩ := fresh req listed here listening
      obtain rfl := Option.some.inj (found.symm.trans known)
      refine stage_uncarried streaming.decode_alive unattached absent ⟨pending, .inr ?_⟩
      change Function.update s.dep.streams done.id _ done.id = _
      rw [Function.update_self, sent, sample, ← budget, script, tokensUpTo, Nat.sub_eq_zero_of_le short]
      rfl
    | handed entry site job found listening long there name budget =>
      refine streaming.beside (taken.trans (.push taken.alive there job name _ fun _ apart =>
        Function.update_of_ne apart _ _)) called tracked
        (fun _ _ _ gone => absurd gone listening) fun req listed here _ => ?_
      obtain ⟨⟨other, known, same⟩, sample, sent, pending⟩ := fresh req listed here listening
      obtain rfl := Option.some.inj (found.symm.trans known)
      rw [← same]
      refine stage_handed taken.alive unattached absent there name (budget ▸ long) found budget ?_
      change Function.update s.dep.streams done.id _ done.id ++ s.dep.pendingFor done.id = _
      rw [Function.update_self, sent, pending, sample]
      rfl

/-! ### Decode events -/

/-- The state of the second pump while it holds an event. -/
theorem Streaming.take_event (streaming : s.Streaming) {event : DecodeEvent} {rest : List DecodeEvent}
    (split : s.dep.decodeEvents = event :: rest) {x : RequestId}
    (others : ∀ r, r ≠ x → s.dep.chunkFor r event = none) :
    Beside x s.dep { s.dep with decodeEvents := rest } := by
  have reported : ∀ r, r ≠ x → (r ∈ finishedIds rest ↔ r ∈ finishedIds s.dep.decodeEvents) := by
    intro r apart
    rw [split]
    cases event with
    | token id token => exact Iff.rfl
    | finished id emitted =>
      have other : r ≠ id := by
        rintro rfl
        have own := others r apart
        rw [Deployment.chunkFor, if_pos rfl] at own
        cases own
      rw [show finishedIds (.finished id emitted :: rest) = id :: finishedIds rest from rfl, List.mem_cons]
      exact (or_iff_right other).symm
  refine ⟨rfl, rfl, fun _ listed => listed, streaming.decode_alive, rfl, fun site listed job member _ =>
    ⟨site, listed, member⟩, fun r apart => ?_, fun r apart => (reported r apart).mp, fun _ _ => rfl, fun _ _ => rfl,
    fun r apart => ?_, rfl, rfl, rfl, rfl⟩
  · rw [Deployment.pendingFor, Deployment.pendingFor, split, List.filterMap_cons, others r apart]
    rfl
  · rw [Deployment.mem_carriers, Deployment.mem_carriers]
    simp only [reported r apart]

/-- Delivering a token moves it from the pending part of its request's line to the received part. -/
theorem Stage.token_delivered {x : RequestId} {maxTokens : ℕ} (stage : s.Stage x maxTokens) {token : TokenId}
    {rest : List DecodeEvent} (split : s.dep.decodeEvents = .token x token :: rest) : Stage
      ⟨{ s.dep with
        decodeEvents := rest
        streams := Function.update s.dep.streams x (s.dep.streams x ++ [s.dep.tokenChunk token]) }, s.engines⟩ x
        maxTokens := by
  have pending : s.dep.pendingFor x =
      s.dep.tokenChunk token :: ({ s.dep with decodeEvents := rest } : Deployment).pendingFor x := by
    rw [Deployment.pendingFor, split, List.filterMap_cons, Deployment.chunkFor, if_pos rfl]
    rfl
  have reported : finishedIds s.dep.decodeEvents = finishedIds rest := by
    rw [split]
    rfl
  have carriers : ∀ streams, ({ s.dep with decodeEvents := rest, streams } : Deployment).carriers = s.dep.carriers := by
    intro streams
    rw [Deployment.carriers, Deployment.carriers, reported]
  refine stage.transport rfl ?_ (fun carried => ⟨carriers _ ▸ carried, rfl⟩) (fun site listed held =>
    ⟨site, listed, held⟩) (fun done listed _ => .inl listed) (fun site listed job member _ => ⟨site, listed, member⟩)
    (fun engine listed seq lookup => ⟨engine, listed, lookup⟩) (fun member => reported ▸ member) fun absent => ?_
  · change Function.update s.dep.streams x _ x ++ ({ s.dep with decodeEvents := rest } : Deployment).pendingFor x = _
    rw [Function.update_self, List.append_assoc, List.singleton_append, ← pending]
    rfl
  · obtain ⟨none, _⟩ := stage.nowhere fun carried => absent (by rw [carriers]; exact carried)
    rw [none] at pending
    cases pending

/-- Delivering the end completes its request's script, and nobody carries the request any longer. -/
theorem Streaming.end_delivered (streaming : s.Streaming) {x : RequestId} {maxTokens emitted : ℕ}
    (stage : s.Stage x maxTokens) {rest : List DecodeEvent}
    (split : s.dep.decodeEvents = .finished x emitted :: rest) : Stage
      ⟨{ s.dep with
        decodeEvents := rest
        inflight := s.dep.inflight.erase x
        streams := Function.update s.dep.streams x (s.dep.streams x ++ [.done "length"]) }, s.engines⟩ x
        maxTokens := by
  have pending : s.dep.pendingFor x =
      .done "length" :: ({ s.dep with decodeEvents := rest } : Deployment).pendingFor x := by
    rw [Deployment.pendingFor, split, List.filterMap_cons, Deployment.chunkFor, if_pos rfl]
    rfl
  have whole := stage.finished (split ▸ .head _)
  rw [Deployment.line, pending] at whole
  have last := nil_of_script whole
  rw [last] at whole
  have absent : x ∉ ({ s.dep with decodeEvents := rest } : Deployment).carriers := by
    intro again
    have once := streaming.tracked.once x
    have positive := List.count_pos_iff.mpr again
    rw [Deployment.count_carriers] at once positive
    simp only at positive
    rw [split, show finishedIds (.finished x emitted :: rest) = x :: finishedIds rest from rfl,
      List.count_cons_self] at once
    omega
  refine stage_uncarried streaming.decode_alive (streaming.unattached fun site listed held => ?_) absent
    ⟨last, .inr ?_⟩
  · exact absent (Deployment.mem_carriers.mpr (.inr (.inr (.inl ⟨site, listed, held⟩))))
  · exact (Function.update_self x _ s.dep.streams).trans whole

theorem Streaming.pumpDecode (streaming : s.Streaming) : (s.step .pumpDecode).Streaming := by
  have enabled : s.dep.Enabled .pumpDecode := trivial
  have tracked : s.dep.pumpDecode.Tracked := streaming.tracked.step enabled
  change Streaming ⟨s.dep.pumpDecode, s.engines⟩
  cases split : s.dep.decodeEvents with
  | nil =>
    have idle : s.dep.pumpDecode = s.dep := by rw [Deployment.pumpDecode, split]
    rw [idle]
    exact streaming
  | cons event rest =>
    have pumped : s.dep.pumpDecode = ({ s.dep with decodeEvents := rest } : Deployment).deliver event := by
      rw [Deployment.pumpDecode, split]
    obtain ⟨x, chunk, own, others⟩ := s.dep.addressee event
    have taken := streaming.take_event split others
    have waiting : s.dep.pendingFor x ≠ [] := by
      rw [Deployment.pendingFor, split, List.filterMap_cons, own]
      exact List.cons_ne_nil _ _
    have called : x ∈ s.dep.calls.map (·.id) := by
      by_contra outside
      exact waiting (List.append_eq_nil_iff.mp (streaming.silent x outside)).2
    have left : ∀ req ∈ s.dep.calls, req.id = x → x ∈ s.dep.hungUp →
        s.dep.streams x <+: script s.dep.tokenizer x req.maxTokens := by
      rintro req listed rfl gone
      exact streaming.gone req listed gone
    have delivered := Deployment.deliver_delivered (s := { s.dep with decodeEvents := rest }) event
    rw [pumped] at tracked ⊢
    generalize ({ s.dep with decodeEvents := rest } : Deployment).deliver event = dep at tracked delivered
    cases delivered with
    | unknown event missing =>
      refine streaming.beside taken called tracked left fun req listed here listening => ?_
      -- A chunk is on its way, so the request is carried and has its entry.
      rw [← here] at listening waiting own
      have stage := streaming.stage req listed listening
      by_cases carried : req.id ∈ s.dep.carriers
      · obtain ⟨entry, found, _⟩ := stage.entry carried
        exact absurd (AList.mem_iff_exists_lookup.mpr ⟨_, found⟩) (missing chunk req.id own)
      · exact absurd (stage.nowhere carried).1 waiting
    | gone event id sent here gone =>
      obtain rfl : id = x := by
        by_contra apart
        cases (others id apart).symm.trans here
      exact streaming.beside (taken.trans (.drop taken.alive)) called tracked left fun _ _ _ listening =>
        absurd gone listening
    | token id token listening =>
      obtain rfl : id = x := by
        by_contra apart
        rw [Deployment.chunkFor, if_neg apart] at own
        cases own
      refine streaming.beside (taken.trans (.client taken.alive _ _ (fun _ _ => rfl) fun _ apart =>
        Function.update_of_ne apart _ _)) called tracked (fun _ _ _ gone => absurd gone listening) ?_
      rintro req listed rfl _
      exact (streaming.stage req listed listening).token_delivered split
    | finished id emitted listening =>
      obtain rfl : id = x := by
        by_contra apart
        rw [Deployment.chunkFor, if_neg apart] at own
        cases own
      refine streaming.beside (taken.trans (.client taken.alive _ _ (fun _ apart => AList.lookup_erase_ne apart)
        fun _ apart => Function.update_of_ne apart _ _)) called tracked (fun _ _ _ gone => absurd gone listening) ?_
      rintro req listed rfl _
      exact streaming.end_delivered (streaming.stage req listed listening) split

/-- A client that leaves keeps what it has. -/
theorem Streaming.hangUp (streaming : s.Streaming) {id : RequestId} (enabled : s.dep.Enabled (.hangUp id)) :
    (s.step (.hangUp id)).Streaming := by
  refine ⟨streaming.tracked.step enabled, streaming.prefill_alive, streaming.decode_alive, streaming.done_open,
    streaming.events_open, streaming.paired, streaming.attached, streaming.silent,
    fun req listed _ => streaming.received listed, fun req listed listening => ?_⟩
  have stage := streaming.stage req listed fun left => listening (List.mem_append_left _ left)
  exact ⟨stage.entry, stage.waiting, stage.first, stage.admitted, stage.running, stage.finished, stage.nowhere⟩

end MockDeployment

end TrtLlm.Worker
