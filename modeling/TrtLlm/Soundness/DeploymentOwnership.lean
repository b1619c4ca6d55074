import TrtLlm.Machine.Path
import TrtLlm.Soundness.Carriers

/-! # No request is lost

Every step of the deployment is shown to move requests between their carriers or to end them at the client.
The branches that forget a request are collected in `Safe`: a step is safe when it takes none of them for a
request whose client still waits. In runs of safe steps every inflight request has exactly one carrier, and
no request leaves without its client being told.
-/

namespace TrtLlm.Worker

open KvCache Sched Engine

namespace Deployment

variable {s : Deployment}

/-- Everything that carries a request, place by place. -/
def carriers (s : Deployment) : List RequestId :=
  s.prefill.flatMap PrefillSite.carried ++ s.prefillDone.map (·.id) ++ s.decode.flatMap DecodeSite.carried ++
    finishedIds s.decodeEvents

theorem count_carriers (s : Deployment) (id : RequestId) : s.carriers.count id =
    (s.prefill.flatMap PrefillSite.carried).count id + (s.prefillDone.map (·.id)).count id +
      (s.decode.flatMap DecodeSite.carried).count id + (finishedIds s.decodeEvents).count id := by
  rw [carriers, List.count_append, List.count_append, List.count_append]

/-- The client of a request has had its last chunk or an error, or has stopped listening. -/
def Closed (s : Deployment) (id : RequestId) : Prop :=
  (∃ chunk ∈ s.streams id, chunk.isTerminal = true) ∨ id ∈ s.refused ∨ id ∈ s.hungUp

/-- Workers are well formed and every entry names a decode worker of the deployment. -/
structure Sound (s : Deployment) : Prop where
  prefill : ∀ site ∈ s.prefill, site.worker.Stocked
  decode : ∀ site ∈ s.decode, site.worker.sched.Keyed
  routed : ∀ {id entry}, s.inflight.lookup id = some entry → entry.decodeWorker < s.decode.length

/-- What a step other than `generate` does for clients: entries are never added, the call log stands still,
closed clients stay closed, and a client whose entry goes is closed. -/
structure Serves (s t : Deployment) : Prop where
  inflight : ∀ {id entry}, t.inflight.lookup id = some entry → s.inflight.lookup id = some entry
  calls : t.calls = s.calls
  closed : ∀ id, s.Closed id → t.Closed id
  left : ∀ id ∈ s.inflight, id ∉ t.inflight → t.Closed id

/-! ### Clients -/

theorem send_frame (s : Deployment) (id : RequestId) (chunk : StreamChunk) :
    (s.send id chunk).2.prefill = s.prefill ∧ (s.send id chunk).2.decode = s.decode ∧
      (s.send id chunk).2.prefillDone = s.prefillDone ∧ (s.send id chunk).2.decodeEvents = s.decodeEvents ∧
      (s.send id chunk).2.inflight = s.inflight ∧ (s.send id chunk).2.calls = s.calls ∧
      (s.send id chunk).2.refused = s.refused ∧ (s.send id chunk).2.hungUp = s.hungUp := by
  unfold send
  split <;> exact ⟨rfl, rfl, rfl, rfl, rfl, rfl, rfl, rfl⟩

/-- A send fails only where the client has hung up. -/
theorem hungUp_of_send {id : RequestId} {chunk : StreamChunk} (failed : (s.send id chunk).1 = false) :
    id ∈ s.hungUp := by
  unfold send at failed
  split at failed
  next gone => exact gone
  next => cases failed

theorem mem_send {id other : RequestId} {chunk earlier : StreamChunk} (sent : earlier ∈ s.streams other) :
    earlier ∈ (s.send id chunk).2.streams other := by
  unfold send
  split
  · exact sent
  · by_cases same : other = id
    · subst same
      simpa using .inl sent
    · simpa [Function.update_of_ne same] using sent

theorem Closed.send {other : RequestId} (closed : s.Closed other) (id : RequestId) (chunk : StreamChunk) :
    (s.send id chunk).2.Closed other := by
  obtain ⟨_, _, _, _, _, _, refused, hungUp⟩ := s.send_frame id chunk
  rcases closed with ⟨last, sent, terminal⟩ | rejected | gone
  · exact .inl ⟨last, mem_send sent, terminal⟩
  · exact .inr (.inl (refused ▸ rejected))
  · exact .inr (.inr (hungUp ▸ gone))

/-- After a terminal chunk is sent, or fails to be, its client is closed. -/
theorem closed_send (s : Deployment) (id : RequestId) {chunk : StreamChunk} (terminal : chunk.isTerminal = true) :
    (s.send id chunk).2.Closed id := by
  unfold send
  split
  next gone => exact .inr (.inr gone)
  next => exact .inl ⟨chunk, by simp, terminal⟩

theorem Serves.refl (s : Deployment) : Serves s s :=
  ⟨fun found => found, rfl, fun _ before => before, fun _ member absent => absurd member absent⟩

/-- A step that leaves the clients' side alone. -/
theorem serves_inside {s t : Deployment} (inflight : t.inflight = s.inflight) (calls : t.calls = s.calls)
    (streams : t.streams = s.streams) (refused : t.refused = s.refused) (hungUp : t.hungUp = s.hungUp) :
    Serves s t := by
  refine ⟨fun found => inflight ▸ found, calls, fun id closed => ?_,
    fun id member absent => absurd (inflight.symm ▸ member) absent⟩
  rw [Closed, streams, refused, hungUp]
  exact closed

theorem Serves.trans {s t u : Deployment} (first : Serves s t) (second : Serves t u) : Serves s u where
  inflight found := first.inflight (second.inflight found)
  calls := second.calls.trans first.calls
  closed id before := second.closed id (first.closed id before)
  left id member absent := by
    by_cases between : id ∈ t.inflight
    · exact second.left id between absent
    · exact second.closed id (first.left id member between)

theorem Serves.mem {s t : Deployment} (serves : Serves s t) {id : RequestId} (member : id ∈ t.inflight) :
    id ∈ s.inflight := by
  obtain ⟨entry, found⟩ := AList.mem_iff_exists_lookup.mp member
  exact AList.mem_iff_exists_lookup.mpr ⟨_, serves.inflight found⟩

theorem serves_send (s : Deployment) (id : RequestId) (chunk : StreamChunk) : Serves s (s.send id chunk).2 := by
  obtain ⟨_, _, _, _, inflight, calls, _, _⟩ := s.send_frame id chunk
  exact ⟨fun found => inflight ▸ found, calls, fun other closed => closed.send id chunk,
    fun other member absent => absurd (inflight.symm ▸ member) absent⟩

theorem mem_drop {id other : RequestId} : other ∈ (s.drop id).inflight ↔ other ≠ id ∧ other ∈ s.inflight :=
  AList.mem_erase

theorem serves_drop {id : RequestId} (closed : s.Closed id) : Serves s (s.drop id) := by
  refine ⟨fun {other entry} found => ?_, rfl, fun _ before => before, fun other member absent => ?_⟩
  · exact AList.lookup_of_erase found
  · by_cases same : other = id
    · exact same ▸ closed
    · exact absurd (mem_drop.mpr ⟨same, member⟩) absent

/-- Sending a last chunk and dropping the entry closes the client. -/
theorem serves_end (s : Deployment) (id : RequestId) {chunk : StreamChunk} (terminal : chunk.isTerminal = true) :
    Serves s ((s.send id chunk).2.drop id) :=
  (s.serves_send id chunk).trans (serves_drop (s.closed_send id terminal))

theorem carriers_send (s : Deployment) (id : RequestId) (chunk : StreamChunk) :
    (s.send id chunk).2.carriers = s.carriers := by
  obtain ⟨prefill, decode, done, events, _⟩ := s.send_frame id chunk
  rw [carriers, carriers, prefill, decode, done, events]

/-! ### The pump of first tokens -/

theorem handOff_alive {entry : Inflight} (job : DecodeAdmit) {site : DecodeSite}
    (found : s.decode[entry.decodeWorker]? = some site) (alive : site.alive = true) (id : RequestId) :
    (s.handOff entry job).carriers.count id = s.carriers.count id + if id = job.id then 1 else 0 := by
  have moved := List.count_flatMap_set DecodeSite.carried id found { site with jobs := site.jobs ++ [job] }
  rw [DecodeSite.count_push alive] at moved
  rw [handOff, found]
  simp only [alive, if_true, count_carriers] at moved ⊢
  omega

/-- Handing off moves the request to its decode worker, or ends it at the client. -/
theorem handOff_spec {entry : Inflight} (job : DecodeAdmit) (routed : entry.decodeWorker < s.decode.length) :
    Serves s (s.handOff entry job) ∧ (∀ id, (s.handOff entry job).carriers.count id ≤
        s.carriers.count id + if id = job.id then 1 else 0) ∧
      ∀ id ∈ (s.handOff entry job).inflight, (s.handOff entry job).carriers.count id =
        s.carriers.count id + if id = job.id then 1 else 0 := by
  have found : s.decode[entry.decodeWorker]? = some s.decode[entry.decodeWorker] := List.getElem?_eq_getElem routed
  cases alive : s.decode[entry.decodeWorker].alive with
  | true =>
    have counts := handOff_alive job found alive
    refine ⟨?_, fun id => (counts id).le, fun id _ => counts id⟩
    rw [handOff, found]
    simp only [alive, if_true]
    exact serves_inside rfl rfl rfl rfl rfl
  | false =>
    have gone : s.handOff entry job = (s.send job.id (.error "decode worker gone")).2.drop job.id := by
      rw [handOff, found]
      simp only [alive, Bool.false_eq_true, if_false]
    have same : (s.handOff entry job).carriers = s.carriers := by
      rw [gone]
      exact s.carriers_send _ _
    rw [same]
    refine ⟨gone ▸ s.serves_end _ rfl, fun id => Nat.le_add_right _ _, fun id member => ?_⟩
    rw [gone] at member
    rw [if_neg (mem_drop.mp member).1, Nat.add_zero]

/-- A first token is passed on with its request, or ends it at the client. -/
theorem deliverFirst_spec (done : PrefillComplete)
    (routed : ∀ {id entry}, s.inflight.lookup id = some entry → entry.decodeWorker < s.decode.length) :
    Serves s (s.deliverFirst done) ∧ (∀ id, (s.deliverFirst done).carriers.count id ≤
        s.carriers.count id + if id = done.id then 1 else 0) ∧
      ∀ id ∈ (s.deliverFirst done).inflight, (s.deliverFirst done).carriers.count id =
        s.carriers.count id + if id = done.id then 1 else 0 := by
  have dropped : ∀ t : Deployment, Serves s t → t.carriers = s.carriers → done.id ∉ t.inflight →
      Serves s t ∧ (∀ id, t.carriers.count id ≤ s.carriers.count id + if id = done.id then 1 else 0) ∧
        ∀ id ∈ t.inflight, t.carriers.count id = s.carriers.count id + if id = done.id then 1 else 0 := by
    intro t serves same absent
    refine ⟨serves, fun id => by rw [same]; exact Nat.le_add_right _ _, fun id member => ?_⟩
    have apart : id ≠ done.id := fun here => absent (here ▸ member)
    rw [same, if_neg apart, Nat.add_zero]
  unfold deliverFirst
  cases found : s.inflight.lookup done.id with
  | none => exact dropped s (.refl s) rfl (AList.lookup_eq_none.mp found)
  | some entry =>
    simp only
    split
    next failed =>
      have gone : done.id ∈ s.hungUp := hungUp_of_send (by simpa using failed)
      exact dropped _ (serves_drop (.inr (.inr gone))) rfl fun member => (mem_drop.mp member).1 rfl
    next =>
      have sent := s.serves_send done.id (s.tokenChunk done.firstToken)
      split
      next =>
        refine dropped _ (sent.trans (serves_end _ _ rfl)) ?_ fun member => (mem_drop.mp member).1 rfl
        exact (carriers_send _ _ _).trans (s.carriers_send _ _)
      next =>
        have room : entry.decodeWorker < (s.send done.id (s.tokenChunk done.firstToken)).2.decode.length := by
          rw [(s.send_frame _ _).2.1]
          exact routed found
        obtain ⟨serves, le, eq⟩ := handOff_spec
          ⟨done.id, done.firstToken, done.promptLen, entry.maxTokens, done.finishedAtMs⟩ room
        rw [s.carriers_send] at le eq
        exact ⟨sent.trans serves, le, eq⟩

theorem pumpPrefill_spec (sound : s.Sound) :
    Serves s s.pumpPrefill ∧ (∀ id, s.pumpPrefill.carriers.count id ≤ s.carriers.count id) ∧
      ∀ id ∈ s.pumpPrefill.inflight, s.pumpPrefill.carriers.count id = s.carriers.count id := by
  unfold pumpPrefill
  split
  next => exact ⟨.refl s, fun _ => le_rfl, fun _ _ => rfl⟩
  next done rest split =>
    obtain ⟨serves, le, eq⟩ := deliverFirst_spec (s := { s with prefillDone := rest }) done sound.routed
    have taken : ∀ id, ({ s with prefillDone := rest } : Deployment).carriers.count id +
        (if id = done.id then 1 else 0) = s.carriers.count id := by
      intro id
      rw [count_carriers, count_carriers s, split, List.map_cons, List.count_cons]
      simp only [beq_iff_eq, eq_comm (a := done.id)]
      omega
    refine ⟨.trans ?_ serves, fun id => taken id ▸ le id, fun id member => ?_⟩
    · exact serves_inside rfl rfl rfl rfl rfl
    · rw [← taken id]
      exact eq id member

/-! ### The pump of decode events -/

theorem deliver_serves (s : Deployment) (event : DecodeEvent) : Serves s (s.deliver event) := by
  cases event with
  | token id token =>
    rw [deliver]
    split
    next =>
      simp only
      split
      next => exact s.serves_send id _
      next failed =>
        have gone : id ∈ s.hungUp := hungUp_of_send (by simpa using failed)
        exact serves_drop (.inr (.inr gone))
    next => exact .refl s
  | finished id emitted =>
    rw [deliver]
    split
    next =>
      refine ⟨fun {other entry} found => ?_, ?_, fun other closed => ?_, fun other member absent => ?_⟩
      · rw [((s.drop id).send_frame id _).2.2.2.2.1] at found
        exact AList.lookup_of_erase found
      · exact ((s.drop id).send_frame id _).2.2.2.2.2.1
      · exact Closed.send (s := s.drop id) closed id _
      · rw [((s.drop id).send_frame id _).2.2.2.2.1, mem_drop] at absent
        by_cases same : other = id
        · exact same ▸ (s.drop id).closed_send id rfl
        · exact absurd ⟨same, member⟩ absent
    next => exact .refl s

theorem deliver_carriers (s : Deployment) (event : DecodeEvent) : (s.deliver event).carriers = s.carriers := by
  cases event with
  | token id token =>
    rw [deliver]
    split
    next =>
      simp only
      split
      next => exact s.carriers_send id _
      next => rfl
    next => rfl
  | finished id emitted =>
    rw [deliver]
    split
    next => exact (s.drop id).carriers_send id _
    next => rfl

theorem pumpDecode_spec (s : Deployment) :
    Serves s s.pumpDecode ∧ (∀ id, s.pumpDecode.carriers.count id ≤ s.carriers.count id) ∧
      ∀ id ∈ s.pumpDecode.inflight, s.pumpDecode.carriers.count id = s.carriers.count id := by
  unfold pumpDecode
  split
  next => exact ⟨.refl s, fun _ => le_rfl, fun _ _ => rfl⟩
  next event rest split =>
    have serves : Serves s (({ s with decodeEvents := rest } : Deployment).deliver event) := by
      refine .trans ?_ (deliver_serves _ event)
      exact serves_inside rfl rfl rfl rfl rfl
    rw [deliver_carriers]
    cases event with
    | token id token =>
      have same : ({ s with decodeEvents := rest } : Deployment).carriers = s.carriers := by
        rw [carriers, carriers, split]
        rfl
      rw [same]
      exact ⟨serves, fun _ => le_rfl, fun _ _ => rfl⟩
    | finished id emitted =>
      have taken : ∀ other, ({ s with decodeEvents := rest } : Deployment).carriers.count other +
          (if other = id then 1 else 0) = s.carriers.count other := by
        intro other
        rw [count_carriers, count_carriers s, split,
          show finishedIds (.finished id emitted :: rest) = id :: finishedIds rest from rfl, List.count_cons]
        simp only [beq_iff_eq, eq_comm (a := id)]
        omega
      refine ⟨serves, fun other => by rw [← taken other]; exact Nat.le_add_right _ _, fun other member => ?_⟩
      rw [← taken other, if_neg, Nat.add_zero]
      rintro rfl
      rw [deliver] at member
      split at member
      next =>
        rw [(send_frame _ _ _).2.2.2.2.1] at member
        exact (mem_drop.mp member).1 rfl
      next absent => exact absent member

/-! ### Passes of the workers -/

/-- Replacing one prefill task and sending completions. -/
theorem count_prefill {i : ℕ} {site : PrefillSite} (found : s.prefill[i]? = some site) (next : PrefillSite)
    (sent : List PrefillComplete) (id : RequestId) :
    ({ s with prefill := s.prefill.set i next, prefillDone := s.prefillDone ++ sent } : Deployment).carriers.count id +
      site.carried.count id = s.carriers.count id + next.carried.count id + (sent.map (·.id)).count id := by
  have moved := List.count_flatMap_set PrefillSite.carried id found next
  simp only [count_carriers, List.map_append, List.count_append]
  omega

/-- Replacing one decode task and sending events. -/
theorem count_decode {j : ℕ} {site : DecodeSite} (found : s.decode[j]? = some site) (next : DecodeSite)
    (sent : List DecodeEvent) (id : RequestId) :
    ({ s with decode := s.decode.set j next, decodeEvents := s.decodeEvents ++ sent } : Deployment).carriers.count id +
      site.carried.count id = s.carriers.count id + next.carried.count id + (finishedIds sent).count id := by
  have moved := List.count_flatMap_set DecodeSite.carried id found next
  simp only [count_carriers, finishedIds_append, List.count_append]
  omega

theorem count_site_prefill {i : ℕ} {site : PrefillSite} (found : s.prefill[i]? = some site) (id : RequestId) :
    site.carried.count id ≤ s.carriers.count id := by
  have inside := List.count_le_flatMap PrefillSite.carried id found
  rw [count_carriers]
  omega

theorem count_site_decode {j : ℕ} {site : DecodeSite} (found : s.decode[j]? = some site) (id : RequestId) :
    site.carried.count id ≤ s.carriers.count id := by
  have inside := List.count_le_flatMap DecodeSite.carried id found
  rw [count_carriers]
  omega

theorem prefillRound_spec (sound : s.Sound) {i : ℕ} {call : PrefillCall}
    (enabled : s.Enabled (.prefillRound i call)) :
    Serves s (s.prefillRound i call) ∧ (∀ id, (s.prefillRound i call).carriers.count id ≤ s.carriers.count id) ∧
      ∀ id, (∀ site, s.prefill[i]? = some site → id ∈ site.carried → site.Keeps call s.prefillDoneOpen id) →
        s.carriers.count id ≤ 1 → (s.prefillRound i call).carriers.count id = s.carriers.count id := by
  obtain ⟨⟨site, found, alive⟩, samples⟩ := enabled
  have stocked := sound.prefill site (List.mem_of_getElem? found)
  have moved := count_prefill found (site.round call s.prefillDoneOpen).2 (site.round call s.prefillDoneOpen).1
  have next : s.prefillRound i call = { s with
      prefill := s.prefill.set i (site.round call s.prefillDoneOpen).2
      prefillDone := s.prefillDone ++ (site.round call s.prefillDoneOpen).1 } := by
    rw [prefillRound, found]
  rw [← next] at moved
  refine ⟨next ▸ serves_inside rfl rfl rfl rfl rfl, fun id => ?_, fun id keeps single => ?_⟩
  · have counted := (site.count_round stocked alive samples s.prefillDoneOpen id).1
    have total := moved id
    omega
  · have counted := site.count_round stocked alive samples s.prefillDoneOpen id
    have inside := count_site_prefill found id
    have total := moved id
    by_cases member : id ∈ site.carried
    · have kept := counted.2 (keeps site found member) (by omega)
      omega
    · have absent := List.count_eq_zero.mpr member
      omega

theorem decodeRound_spec (sound : s.Sound) {j : ℕ} {call : DecodeCall} (enabled : s.Enabled (.decodeRound j call)) :
    Serves s (s.decodeRound j call) ∧ (∀ id, (s.decodeRound j call).carriers.count id ≤ s.carriers.count id) ∧
      ∀ id, (∀ site, s.decode[j]? = some site → id ∈ site.carried → DecodeSite.Keeps call s.decodeEventsOpen id) →
        s.carriers.count id ≤ 1 → (s.decodeRound j call).carriers.count id = s.carriers.count id := by
  obtain ⟨site, found, alive⟩ := enabled
  have keyed := sound.decode site (List.mem_of_getElem? found)
  have moved := count_decode found (site.round call s.decodeEventsOpen).2 (site.round call s.decodeEventsOpen).1
  have next : s.decodeRound j call = { s with
      decode := s.decode.set j (site.round call s.decodeEventsOpen).2
      decodeEvents := s.decodeEvents ++ (site.round call s.decodeEventsOpen).1 } := by
    rw [decodeRound, found]
  rw [← next] at moved
  refine ⟨next ▸ serves_inside rfl rfl rfl rfl rfl, fun id => ?_, fun id keeps single => ?_⟩
  · have counted := (site.count_round keyed alive call s.decodeEventsOpen id).1
    have total := moved id
    omega
  · have counted := site.count_round keyed alive call s.decodeEventsOpen id
    have inside := count_site_decode found id
    have total := moved id
    by_cases member : id ∈ site.carried
    · have kept := counted.2 (keeps site found member) (by omega)
      omega
    · have absent := List.count_eq_zero.mpr member
      omega

/-! ### Tasks that end -/

theorem stopPrefill_spec (s : Deployment) (i : ℕ) :
    Serves s (s.stopPrefill i) ∧ (∀ id, (s.stopPrefill i).carriers.count id ≤ s.carriers.count id) ∧
      ∀ id, (∀ site, s.prefill[i]? = some site → id ∉ site.carried) →
        (s.stopPrefill i).carriers.count id = s.carriers.count id := by
  cases found : s.prefill[i]? with
  | none =>
    rw [stopPrefill, found]
    exact ⟨.refl s, fun _ => le_rfl, fun _ _ => rfl⟩
  | some site =>
    have moved : ∀ id, (s.stopPrefill i).carriers.count id + site.carried.count id = s.carriers.count id := by
      intro id
      have replaced := List.count_flatMap_set PrefillSite.carried id found site.stop
      change _ = _ + 0 at replaced
      rw [stopPrefill, found]
      simp only [count_carriers]
      omega
    refine ⟨?_, fun id => by rw [← moved id]; exact Nat.le_add_right _ _, fun id unheld => ?_⟩
    · rw [stopPrefill, found]
      exact serves_inside rfl rfl rfl rfl rfl
    · rw [← moved id, List.count_eq_zero.mpr (unheld site rfl), Nat.add_zero]

theorem stopDecode_spec (s : Deployment) (j : ℕ) :
    Serves s (s.stopDecode j) ∧ (∀ id, (s.stopDecode j).carriers.count id ≤ s.carriers.count id) ∧
      ∀ id, (∀ site, s.decode[j]? = some site → id ∉ site.carried) →
        (s.stopDecode j).carriers.count id = s.carriers.count id := by
  cases found : s.decode[j]? with
  | none =>
    rw [stopDecode, found]
    exact ⟨.refl s, fun _ => le_rfl, fun _ _ => rfl⟩
  | some site =>
    have moved : ∀ id, (s.stopDecode j).carriers.count id + site.carried.count id = s.carriers.count id := by
      intro id
      have replaced := List.count_flatMap_set DecodeSite.carried id found site.stop
      change _ = _ + 0 at replaced
      rw [stopDecode, found]
      simp only [count_carriers]
      omega
    refine ⟨?_, fun id => by rw [← moved id]; exact Nat.le_add_right _ _, fun id unheld => ?_⟩
    · rw [stopDecode, found]
      exact serves_inside rfl rfl rfl rfl rfl
    · rw [← moved id, List.count_eq_zero.mpr (unheld site rfl), Nat.add_zero]

/-! ### Every step but `generate` -/

/-- The step takes none of the branches that forget a request whose client still waits. A call is routed to a
live prefill task. A prefill pass keeps what it carries. A decode pass keeps what it carries. Tasks and
channels end only when nothing inflight is left in them. -/
def Safe (s : Deployment) : DeployEvent → Prop
  | .generate _ route => ∀ decision site, route = .ok decision → s.prefill[decision.1]? = some site → site.alive = true
  | .prefillRound i call => ∀ site, s.prefill[i]? = some site →
      ∀ id ∈ site.carried, id ∈ s.inflight → site.Keeps call s.prefillDoneOpen id
  | .decodeRound j call => ∀ site, s.decode[j]? = some site →
      ∀ id ∈ site.carried, id ∈ s.inflight → DecodeSite.Keeps call s.decodeEventsOpen id
  | .stopPrefill i => ∀ site, s.prefill[i]? = some site → ∀ id ∈ site.carried, id ∉ s.inflight
  | .stopDecode j => ∀ site, s.decode[j]? = some site → ∀ id ∈ site.carried, id ∉ s.inflight
  | .closePrefillDone => ∀ done ∈ s.prefillDone, done.id ∉ s.inflight
  | .closeDecodeEvents => ∀ id ∈ finishedIds s.decodeEvents, id ∉ s.inflight
  | _ => True

/-- The events that take no new request in. -/
def Internal : DeployEvent → Prop
  | .generate _ _ => False
  | _ => True

theorem step_spec (sound : s.Sound) {event : DeployEvent} (internal : Internal event) (enabled : s.Enabled event) :
    Serves s (s.step event) ∧ (∀ id, (s.step event).carriers.count id ≤ s.carriers.count id) ∧
      (s.Safe event → ∀ id ∈ (s.step event).inflight, s.carriers.count id ≤ 1 →
        (s.step event).carriers.count id = s.carriers.count id) := by
  cases event with
  | generate req route => exact internal.elim
  | prefillRound i call =>
    obtain ⟨serves, le, eq⟩ := prefillRound_spec sound enabled
    refine ⟨serves, le, fun safe id member => eq id fun site found held => ?_⟩
    exact safe site found id held (serves.mem member)
  | decodeRound j call =>
    obtain ⟨serves, le, eq⟩ := decodeRound_spec sound enabled
    refine ⟨serves, le, fun safe id member => eq id fun site found held => ?_⟩
    exact safe site found id held (serves.mem member)
  | pumpPrefill =>
    obtain ⟨serves, le, eq⟩ := pumpPrefill_spec sound
    exact ⟨serves, le, fun _ id member _ => eq id member⟩
  | pumpDecode =>
    obtain ⟨serves, le, eq⟩ := s.pumpDecode_spec
    exact ⟨serves, le, fun _ id member _ => eq id member⟩
  | hangUp id =>
    refine ⟨⟨fun found => found, rfl, ?_, fun _ member absent => absurd member absent⟩, fun _ => le_rfl,
      fun _ _ _ _ => rfl⟩
    rintro other (sent | rejected | gone)
    · exact .inl sent
    · exact .inr (.inl rejected)
    · exact .inr (.inr (List.mem_append_left _ gone))
  | stopPrefill i =>
    obtain ⟨serves, le, eq⟩ := s.stopPrefill_spec i
    refine ⟨serves, le, fun safe id member _ => eq id fun site found held => ?_⟩
    exact safe site found id held (serves.mem member)
  | stopDecode j =>
    obtain ⟨serves, le, eq⟩ := s.stopDecode_spec j
    refine ⟨serves, le, fun safe id member _ => eq id fun site found held => ?_⟩
    exact safe site found id held (serves.mem member)
  | closePrefillDone =>
    have moved : ∀ id, (s.step .closePrefillDone).carriers.count id + (s.prefillDone.map (·.id)).count id =
        s.carriers.count id := by
      intro id
      simp only [count_carriers, step, List.map_nil, List.count_nil]
      omega
    refine ⟨serves_inside rfl rfl rfl rfl rfl, fun id => by rw [← moved id]; exact Nat.le_add_right _ _,
      fun safe id member _ => ?_⟩
    have absent : id ∉ s.prefillDone.map (·.id) := by
      intro listed
      obtain ⟨done, sent, rfl⟩ := List.mem_map.mp listed
      exact safe done sent member
    rw [← moved id, List.count_eq_zero.mpr absent, Nat.add_zero]
  | closeDecodeEvents =>
    have moved : ∀ id, (s.step .closeDecodeEvents).carriers.count id + (finishedIds s.decodeEvents).count id =
        s.carriers.count id := by
      intro id
      simp only [count_carriers, step]
      rfl
    refine ⟨serves_inside rfl rfl rfl rfl rfl, fun id => by rw [← moved id]; exact Nat.le_add_right _ _,
      fun safe id member _ => ?_⟩
    rw [← moved id, List.count_eq_zero.mpr fun listed => safe id listed member, Nat.add_zero]

/-! ### Calls -/

/-- What a `generate` call does. -/
inductive Called (s : Deployment) (req : GenerateRequest) (route : Except String (WorkerId × WorkerId)) :
    Deployment → Prop
  | rejected (reason : String) (refused : route = .error reason) :
      Called s req route { s with calls := s.calls ++ [req], refused := s.refused ++ [req.id] }
  | queued (decision : WorkerId × WorkerId) (site : PrefillSite) (job : PrefillJob) (accepted : route = .ok decision)
      (found : s.prefill[decision.1]? = some site) (alive : site.alive = true) (same : job.id = req.id) :
      Called s req route { s with
        calls := s.calls ++ [req]
        inflight := s.inflight.insert req.id ⟨decision.2 - decodeIdBase, req.maxTokens⟩
        prefill := s.prefill.set decision.1 { site with jobs := site.jobs ++ [job] } }
  | forgotten (decision : WorkerId × WorkerId) (site : PrefillSite) (accepted : route = .ok decision)
      (found : s.prefill[decision.1]? = some site) (ended : site.alive = false) :
      Called s req route { s with
        calls := s.calls ++ [req]
        inflight := s.inflight.insert req.id ⟨decision.2 - decodeIdBase, req.maxTokens⟩
        refused := s.refused ++ [req.id]
        hungUp := s.hungUp ++ [req.id] }

theorem generate_called {req : GenerateRequest} {route : Except String (WorkerId × WorkerId)}
    (enabled : s.Enabled (.generate req route)) : Called s req route (s.generate req route) := by
  unfold generate
  cases route with
  | error reason => exact .rejected reason rfl
  | ok decision =>
    obtain ⟨_, routes⟩ := enabled
    obtain ⟨site, found⟩ : ∃ site, s.prefill[decision.1]? = some site :=
      ⟨_, List.getElem?_eq_getElem (routes decision rfl).1⟩
    simp only [found]
    split
    next alive =>
      refine .queued decision site _ rfl found alive ?_
      rfl
    next ended => exact .forgotten decision site rfl found (Bool.eq_false_iff.mpr ended)

/-- What holds whether or not steps are safe: requests are never multiplied, and all of them were called. -/
structure Tracked (s : Deployment) : Prop where
  sound : s.Sound
  once : ∀ id, s.carriers.count id ≤ 1
  called : ∀ id ∈ s.carriers, id ∈ s.calls.map (·.id)
  entered : ∀ id ∈ s.inflight, id ∈ s.calls.map (·.id)

/-- A call adds at most one carrier of its own request, and exactly one if it was queued. -/
theorem Called.count {req : GenerateRequest} {route : Except String (WorkerId × WorkerId)} {t : Deployment}
    (called : Called s req route t) (id : RequestId) :
    t.carriers.count id ≤ s.carriers.count id + (if id = req.id then 1 else 0) ∧
      s.carriers.count id ≤ t.carriers.count id ∧
      (s.Safe (.generate req route) → req.id ∈ t.inflight → req.id ∉ s.inflight →
        t.carriers.count id = s.carriers.count id + if id = req.id then 1 else 0) := by
  cases called with
  | rejected reason refused => exact ⟨Nat.le_add_right _ _, le_rfl, fun _ entered fresh => absurd entered fresh⟩
  | queued decision site job accepted found alive same =>
    have moved := List.count_flatMap_set PrefillSite.carried id found { site with jobs := site.jobs ++ [job] }
    rw [PrefillSite.count_push alive, same] at moved
    simp only [count_carriers]
    omega
  | forgotten decision site accepted found ended =>
    refine ⟨Nat.le_add_right _ _, le_rfl, fun safe _ _ => ?_⟩
    rw [safe decision site accepted found] at ended
    cases ended

/-! ### The workers stay well formed -/

theorem handOff_workers (s : Deployment) (entry : Inflight) (job : DecodeAdmit) :
    (s.handOff entry job).prefill = s.prefill ∧
      (s.handOff entry job).decode.map (·.worker) = s.decode.map (·.worker) := by
  unfold handOff
  split
  next site found =>
    split
    · refine ⟨rfl, List.ext_getElem? fun k => ?_⟩
      rw [List.getElem?_map, List.getElem?_map, List.getElem?_set]
      split
      next same =>
        subst same
        rw [found, if_pos (List.getElem?_eq_some_iff.mp found).1]
        rfl
      next => rfl
    · obtain ⟨prefill, decode, _⟩ := s.send_frame job.id (.error "decode worker gone")
      exact ⟨prefill, congrArg (List.map DecodeSite.worker) decode⟩
  next => exact ⟨rfl, rfl⟩

theorem deliverFirst_workers (s : Deployment) (done : PrefillComplete) :
    (s.deliverFirst done).prefill = s.prefill ∧
      (s.deliverFirst done).decode.map (·.worker) = s.decode.map (·.worker) := by
  obtain ⟨prefill, decode, _⟩ := s.send_frame done.id (s.tokenChunk done.firstToken)
  unfold deliverFirst
  split
  next => exact ⟨rfl, rfl⟩
  next entry _ =>
    simp only
    split
    · exact ⟨rfl, rfl⟩
    · split
      · obtain ⟨again, twice, _⟩ := (s.send done.id (s.tokenChunk done.firstToken)).2.send_frame done.id (.done "length")
        exact ⟨again.trans prefill, congrArg (List.map DecodeSite.worker) (twice.trans decode)⟩
      · obtain ⟨first, second⟩ := handOff_workers (s.send done.id (s.tokenChunk done.firstToken)).2 entry
          ⟨done.id, done.firstToken, done.promptLen, entry.maxTokens, done.finishedAtMs⟩
        exact ⟨first.trans prefill, second.trans (by rw [decode])⟩

theorem deliver_workers (s : Deployment) (event : DecodeEvent) :
    (s.deliver event).prefill = s.prefill ∧ (s.deliver event).decode = s.decode := by
  cases event with
  | token id token =>
    obtain ⟨prefill, decode, _⟩ := s.send_frame id (s.tokenChunk token)
    rw [deliver]
    split
    next =>
      simp only
      split
      next => exact ⟨prefill, decode⟩
      next => exact ⟨rfl, rfl⟩
    next => exact ⟨rfl, rfl⟩
  | finished id emitted =>
    obtain ⟨prefill, decode, _⟩ := (s.drop id).send_frame id (.done "length")
    rw [deliver]
    split
    next => exact ⟨prefill, decode⟩
    next => exact ⟨rfl, rfl⟩

/-- Well-formedness only depends on the workers and on where entries are routed. -/
theorem Sound.of_workers {s t : Deployment} (sound : s.Sound) (prefill : t.prefill = s.prefill)
    (decode : t.decode.map (·.worker) = s.decode.map (·.worker)) (serves : Serves s t) : t.Sound := by
  refine ⟨fun site member => sound.prefill site (prefill ▸ member), fun site member => ?_, fun {id entry} found => ?_⟩
  · have listed : site.worker ∈ s.decode.map (·.worker) := decode ▸ List.mem_map_of_mem member
    obtain ⟨before, inside, same⟩ := List.mem_map.mp listed
    exact same ▸ sound.decode before inside
  · have length := congrArg List.length decode
    rw [List.length_map, List.length_map] at length
    rw [length]
    exact sound.routed (serves.inflight found)

theorem round_worker_prefill (site : PrefillSite) (call : PrefillCall) (outOpen : Bool) :
    (site.round call outOpen).2.worker = (site.worker.round (site.input call outOpen)).2 := by
  unfold PrefillSite.round
  simp only
  split <;> rfl

theorem round_worker_decode (site : DecodeSite) (call : DecodeCall) (outOpen : Bool) :
    (site.round call outOpen).2.worker = (site.worker.round (site.input call)).2 := by
  unfold DecodeSite.round
  simp only
  split <;> rfl

/-- Replacing one prefill task by another well-formed one. -/
theorem Sound.set_prefill (sound : s.Sound) (i : ℕ) {next : PrefillSite} (stocked : next.worker.Stocked)
    (sent : List PrefillComplete) :
    ({ s with prefill := s.prefill.set i next, prefillDone := s.prefillDone ++ sent } : Deployment).Sound := by
  refine ⟨fun site member => ?_, sound.decode, sound.routed⟩
  rcases List.mem_or_eq_of_mem_set member with before | rfl
  · exact sound.prefill site before
  · exact stocked

theorem Sound.set_decode (sound : s.Sound) (j : ℕ) {next : DecodeSite} (keyed : next.worker.sched.Keyed)
    (sent : List DecodeEvent) :
    ({ s with decode := s.decode.set j next, decodeEvents := s.decodeEvents ++ sent } : Deployment).Sound := by
  refine ⟨sound.prefill, fun site member => ?_, fun {id entry} found => ?_⟩
  · rcases List.mem_or_eq_of_mem_set member with before | rfl
    · exact sound.decode site before
    · exact keyed
  · change entry.decodeWorker < (s.decode.set j next).length
    rw [List.length_set]
    exact sound.routed found

theorem Sound.step (sound : s.Sound) {event : DeployEvent} (enabled : s.Enabled event) : (s.step event).Sound := by
  cases event with
  | generate req route =>
    have called := generate_called enabled
    have routes := enabled.2
    change (s.generate req route).Sound
    generalize s.generate req route = t at called ⊢
    have insert : ∀ decision, route = .ok decision → ∀ {id entry},
        (s.inflight.insert req.id ⟨decision.2 - decodeIdBase, req.maxTokens⟩).lookup id = some entry →
          entry.decodeWorker < s.decode.length := by
      intro decision accepted id entry found
      obtain ⟨_, base, bound⟩ := routes decision accepted
      by_cases same : id = req.id
      · rw [same, AList.lookup_insert] at found
        rw [← Option.some.inj found]
        exact Nat.sub_lt_left_of_lt_add base bound
      · rw [AList.lookup_insert_ne same] at found
        exact sound.routed found
    cases called with
    | rejected => exact ⟨sound.prefill, sound.decode, sound.routed⟩
    | queued decision site job accepted found alive same =>
      refine ⟨fun other member => ?_, sound.decode, insert decision accepted⟩
      rcases List.mem_or_eq_of_mem_set member with before | rfl
      · exact sound.prefill other before
      · exact sound.prefill site (List.mem_of_getElem? found)
    | forgotten decision site accepted => exact ⟨sound.prefill, sound.decode, insert decision accepted⟩
  | prefillRound i call =>
    obtain ⟨⟨site, found, _⟩, _⟩ := enabled
    rw [Deployment.step, prefillRound, found]
    refine sound.set_prefill i ?_ _
    rw [round_worker_prefill]
    exact (sound.prefill site (List.mem_of_getElem? found)).round _
  | decodeRound j call =>
    obtain ⟨site, found, _⟩ := enabled
    rw [Deployment.step, decodeRound, found]
    refine sound.set_decode j ?_ _
    rw [round_worker_decode]
    exact (site.worker.round_pass _ (sound.decode site (List.mem_of_getElem? found))).keyed
  | pumpPrefill =>
    have serves := (pumpPrefill_spec sound).1
    have workers : s.pumpPrefill.prefill = s.prefill ∧
        s.pumpPrefill.decode.map (·.worker) = s.decode.map (·.worker) := by
      unfold pumpPrefill
      split
      · exact ⟨rfl, rfl⟩
      · exact deliverFirst_workers _ _
    exact sound.of_workers workers.1 workers.2 serves
  | pumpDecode =>
    have serves := s.pumpDecode_spec.1
    have workers : s.pumpDecode.prefill = s.prefill ∧ s.pumpDecode.decode = s.decode := by
      unfold pumpDecode
      split
      · exact ⟨rfl, rfl⟩
      · exact deliver_workers _ _
    exact sound.of_workers workers.1 (by rw [show (s.step .pumpDecode).decode = _ from workers.2]) serves
  | hangUp id => exact ⟨sound.prefill, sound.decode, sound.routed⟩
  | stopPrefill i =>
    change (s.stopPrefill i).Sound
    unfold stopPrefill
    split
    next site found =>
      have stocked : site.stop.worker.Stocked := sound.prefill site (List.mem_of_getElem? found)
      simpa using sound.set_prefill i stocked []
    next => exact sound
  | stopDecode j =>
    change (s.stopDecode j).Sound
    unfold stopDecode
    split
    next site found =>
      have keyed : site.stop.worker.sched.Keyed := sound.decode site (List.mem_of_getElem? found)
      simpa using sound.set_decode j keyed []
    next => exact sound
  | closePrefillDone => exact ⟨sound.prefill, sound.decode, sound.routed⟩
  | closeDecodeEvents => exact ⟨sound.prefill, sound.decode, sound.routed⟩

/-! ### Whole runs -/

/-- The deployment of any configuration and any number of workers, under any callers, engines and failures. -/
def system (cfg : DeployConfig) (prefillEngines decodeEngines : ℕ) : Machine.System Deployment DeployEvent :=
  .ofFun (fun s => s = spawn cfg prefillEngines decodeEngines) Enabled step

/-- A spawned decode worker is alive and has nothing to do. -/
theorem spawn_decode {cfg : DeployConfig} {prefillEngines decodeEngines : ℕ} {site : DecodeSite}
    (member : site ∈ (spawn cfg prefillEngines decodeEngines).decode) :
    site.worker.sched.running = ∅ ∧ site.worker.pending = [] ∧ site.jobs = [] ∧ site.alive = true := by
  rw [List.eq_of_mem_replicate member]
  refine ⟨?_, rfl, rfl, rfl⟩
  unfold DecodeWorker.new
  split <;> rfl

theorem carriers_spawn (cfg : DeployConfig) (prefillEngines decodeEngines : ℕ) :
    (spawn cfg prefillEngines decodeEngines).carriers = [] := by
  have prefill : (spawn cfg prefillEngines decodeEngines).prefill.flatMap PrefillSite.carried = [] := by
    refine List.flatMap_eq_nil_iff.mpr fun site member => ?_
    rw [List.eq_of_mem_replicate member]
    rfl
  have decode : (spawn cfg prefillEngines decodeEngines).decode.flatMap DecodeSite.carried = [] := by
    refine List.flatMap_eq_nil_iff.mpr fun site member => ?_
    obtain ⟨running, pending, jobs, -⟩ := spawn_decode member
    simp [DecodeSite.carried, running, pending, jobs]
  rw [carriers, prefill, decode]
  rfl

theorem sound_spawn (cfg : DeployConfig) (prefillEngines decodeEngines : ℕ) :
    (spawn cfg prefillEngines decodeEngines).Sound := by
  refine ⟨fun site member => ?_, fun site member => ?_, fun {id entry} found => ?_⟩
  · rw [List.eq_of_mem_replicate member]
    exact PrefillWorker.stocked_new _ _ _ _
  · intro id seq found
    rw [(spawn_decode member).1] at found
    cases found
  · simp [spawn] at found

theorem tracked_spawn (cfg : DeployConfig) (prefillEngines decodeEngines : ℕ) :
    (spawn cfg prefillEngines decodeEngines).Tracked where
  sound := sound_spawn cfg prefillEngines decodeEngines
  once id := by
    rw [carriers_spawn]
    exact Nat.zero_le _
  called id member := by
    rw [carriers_spawn] at member
    cases member
  entered _ member := absurd member (AList.notMem_empty _)

theorem Called.calls {req : GenerateRequest} {route : Except String (WorkerId × WorkerId)} {t : Deployment}
    (called : Called s req route t) : t.calls = s.calls ++ [req] := by
  cases called <;> rfl

theorem Called.inflight {req : GenerateRequest} {route : Except String (WorkerId × WorkerId)} {t : Deployment}
    (called : Called s req route t) {id : RequestId} (member : id ∈ t.inflight) : id = req.id ∨ id ∈ s.inflight := by
  cases called with
  | rejected => exact .inr member
  | queued => exact (AList.mem_insert _).mp member
  | forgotten => exact (AList.mem_insert _).mp member

/-- A call keeps every entry and every closed client, and either enters its own request or closes it. -/
theorem Called.serves {req : GenerateRequest} {route : Except String (WorkerId × WorkerId)} {t : Deployment}
    (called : Called s req route t) :
    (∀ id ∈ s.inflight, id ∈ t.inflight) ∧ (∀ id, s.Closed id → t.Closed id) ∧
      (req.id ∈ t.inflight ∨ t.Closed req.id) := by
  cases called with
  | rejected =>
    refine ⟨fun _ member => member, ?_, .inr (.inr (.inl (List.mem_append_right _ (.head _))))⟩
    rintro id (sent | refused | gone)
    · exact .inl sent
    · exact .inr (.inl (List.mem_append_left _ refused))
    · exact .inr (.inr gone)
  | queued =>
    exact ⟨fun _ member => (AList.mem_insert _).mpr (.inr member), fun _ closed => closed,
      .inl ((AList.mem_insert _).mpr (.inl rfl))⟩
  | forgotten =>
    refine ⟨fun _ member => (AList.mem_insert _).mpr (.inr member), ?_, .inl ((AList.mem_insert _).mpr (.inl rfl))⟩
    rintro id (sent | refused | gone)
    · exact .inl sent
    · exact .inr (.inl (List.mem_append_left _ refused))
    · exact .inr (.inr (List.mem_append_left _ gone))

theorem generate_or_internal (event : DeployEvent) :
    (∃ req route, event = .generate req route) ∨ Internal event := by
  cases event with
  | generate req route => exact .inl ⟨req, route, rfl⟩
  | _ => exact .inr trivial

theorem Tracked.fresh (tracked : s.Tracked) {id : RequestId} (fresh : id ∉ s.calls.map (·.id)) :
    s.carriers.count id = 0 := List.count_eq_zero.mpr fun member => fresh (tracked.called id member)

theorem Tracked.step (tracked : s.Tracked) {event : DeployEvent} (enabled : s.Enabled event) :
    (s.step event).Tracked := by
  rcases generate_or_internal event with ⟨req, route, rfl⟩ | internal
  · have called : Called s req route (s.step (.generate req route)) := generate_called enabled
    have none := tracked.fresh enabled.1
    refine ⟨tracked.sound.step enabled, fun id => ?_, fun id member => ?_, fun id member => ?_⟩
    · have bound := (called.count id).1
      have before := tracked.once id
      split at bound
      next same =>
        rw [same] at bound ⊢
        omega
      next => omega
    · rw [called.calls, List.map_append, List.mem_append]
      have bound := (called.count id).1
      have positive := List.count_pos_iff.mpr member
      split at bound
      next same => exact .inr (same ▸ .head _)
      next => exact .inl (tracked.called id (List.count_pos_iff.mp (by omega)))
    · rw [called.calls, List.map_append, List.mem_append]
      rcases called.inflight member with rfl | before
      · exact .inr (.head _)
      · exact .inl (tracked.entered id before)
  · obtain ⟨serves, le, _⟩ := step_spec tracked.sound internal enabled
    refine ⟨tracked.sound.step enabled, fun id => (le id).trans (tracked.once id), fun id member => ?_,
      fun id member => ?_⟩
    · rw [serves.calls]
      exact tracked.called id (List.count_pos_iff.mp ((List.count_pos_iff.mpr member).trans_le (le id)))
    · rw [serves.calls]
      exact tracked.entered id (serves.mem member)

/-- Every inflight request has exactly one carrier, and a request that is not inflight ended with a last chunk
or an error to its client, or after its client stopped listening. -/
structure Accounted (s : Deployment) : Prop where
  carried_once : ∀ id ∈ s.inflight, s.carriers.count id = 1
  closed : ∀ req ∈ s.calls, req.id ∉ s.inflight → s.Closed req.id

theorem Accounted.step (accounted : s.Accounted) (tracked : s.Tracked) {event : DeployEvent}
    (enabled : s.Enabled event) (safe : s.Safe event) : (s.step event).Accounted := by
  rcases generate_or_internal event with ⟨req, route, rfl⟩ | internal
  · have called : Called s req route (s.step (.generate req route)) := generate_called enabled
    have none := tracked.fresh enabled.1
    have outside : req.id ∉ s.inflight := fun member => enabled.1 (tracked.entered _ member)
    obtain ⟨kept, closed, own⟩ := called.serves
    refine ⟨fun id member => ?_, fun other listed absent => ?_⟩
    · obtain ⟨upper, lower, exact⟩ := called.count id
      rcases called.inflight member with rfl | before
      · rw [exact safe member outside, none, if_pos rfl]
      · have apart : id ≠ req.id := fun same => outside (same ▸ before)
        have single := accounted.carried_once id before
        rw [if_neg apart] at upper
        omega
    · rw [called.calls, List.mem_append, List.mem_singleton] at listed
      rcases listed with before | rfl
      · exact closed _ (accounted.closed other before fun member => absent (kept _ member))
      · exact own.resolve_left absent
  · obtain ⟨serves, _, eq⟩ := step_spec tracked.sound internal enabled
    refine ⟨fun id member => ?_, fun req listed absent => ?_⟩
    · have single := accounted.carried_once id (serves.mem member)
      rw [eq safe id member single.le, single]
    · rw [serves.calls] at listed
      by_cases before : req.id ∈ s.inflight
      · exact serves.left _ before absent
      · exact serves.closed _ (accounted.closed req listed before)

theorem run_tracked {cfg : DeployConfig} {prefillEngines decodeEngines : ℕ} {events : List DeployEvent}
    {s : Deployment} (run : Machine.Run (system cfg prefillEngines decodeEngines) events s) : s.Tracked := by
  refine run.invariant ?_ ?_
  · rintro s rfl
    exact tracked_spawn cfg prefillEngines decodeEngines
  · rintro s event t tracked ⟨enabled, rfl⟩
    exact tracked.step enabled

/-- **No request is lost in a run of safe steps.** -/
theorem safe_run_loses_no_request (cfg : DeployConfig) (prefillEngines decodeEngines : ℕ)
    (events : List DeployEvent) (s : Deployment)
    (run : Machine.Run ((system cfg prefillEngines decodeEngines).restrict Safe) events s) : s.Accounted := by
  have both : s.Tracked ∧ s.Accounted := by
    refine run.invariant (P := fun s => s.Tracked ∧ s.Accounted) ?_ ?_
    · rintro s rfl
      refine ⟨tracked_spawn cfg prefillEngines decodeEngines, fun id member => ?_, fun req member => (nomatch member)⟩
      exact absurd member (AList.notMem_empty _)
    · rintro s event t ⟨tracked, accounted⟩ ⟨safe, enabled, rfl⟩
      exact ⟨tracked.step enabled, accounted.step tracked enabled safe⟩
  exact both.2

/-! ### One request through one worker of each kind -/

def smallConfig : DeployConfig where
  tuning := ⟨8, 4, .fcfs, false, 1, 1 / 5⟩
  itlMs := 10
  controller := .new 10 8 8 64
  draftTokens := none
  numBlocks := 8
  blockSize := 1
  watermark := 0
  ttftMs := 100
  tokenizer _ := ""

/-- A request for two tokens. -/
def oneCall : DeployEvent := .generate ⟨1, [5], 2, 0⟩ (.ok (0, 1000))

/-- The prefill engine samples token 9 for every completed sequence. -/
def onePrefill : PrefillCall where
  drained := 1
  now := 0
  answer work := .ok ⟨1, (work.filter (·.completes)).map fun spec => (spec.id, 9)⟩
  doneAt := 1

/-- The decode engine answers `add` to every new sequence, then emits token 7 and finishes. -/
def oneDecode (add : Except Error Unit) : DecodeCall where
  drained := 1
  add _ := add
  step _ := .ok ⟨1, [(1, 7)], [1]⟩
  now := 2

theorem samplesCompleted_onePrefill : SamplesCompleted onePrefill.answer := by
  intro work outcome answered
  rw [← Except.ok.inj answered, List.map_map]
  exact .refl _

/-- With pages for the whole batch and a listening pump, a pass keeps everything. -/
theorem keeps_of_covers {site : PrefillSite} {call : PrefillCall} {outOpen : Bool} (listening : outOpen = true)
    (covers : (site.worker.planned (site.input call outOpen)).2.Covers
      (site.worker.planned (site.input call outOpen)).1.chunks) (id : RequestId) :
    site.Keeps call outOpen id := by
  refine fun outcome _ => ⟨.inl listening, .inr fun front chunk back split _ _ => ?_⟩
  rw [split, List.append_cons] at covers
  exact covers.front

/-- The request is served with both of its tokens and nothing is left behind. -/
theorem safe_run_loses_no_request_served :
    let s := ([oneCall, .prefillRound 0 onePrefill, .pumpPrefill, .decodeRound 0 (oneDecode (.ok ())),
      .pumpDecode, .pumpDecode] : List DeployEvent).foldl step (spawn smallConfig 1 1)
    s.streams 1 = [.token 9 "", .token 7 "", .done "length"] ∧ s.carriers = [] ∧ s.Accounted := by
  intro s
  have start : Machine.Run ((system smallConfig 1 1).restrict Safe) [] (spawn smallConfig 1 1) := .start rfl
  have called := start.applyGuarded oneCall (by rintro _ site ⟨rfl⟩ ⟨rfl⟩; rfl)
    ⟨by decide, by rintro _ ⟨rfl⟩; decide⟩
  have prefilled := called.applyGuarded (.prefillRound 0 onePrefill)
    (by
      rintro site ⟨rfl⟩ id _ _
      exact keeps_of_covers rfl (by decide +kernel) id)
    ⟨⟨_, rfl, rfl⟩, samplesCompleted_onePrefill⟩
  have pumped := prefilled.applyGuarded .pumpPrefill trivial trivial
  have decoded := pumped.applyGuarded (.decodeRound 0 (oneDecode (.ok ())))
    (fun _ _ _ _ _ => ⟨fun _ _ => rfl, .inl (by decide +kernel)⟩)
    ((Option.any_eq_true _ _).mp (by decide +kernel))
  have final := (decoded.applyGuarded .pumpDecode trivial trivial).applyGuarded .pumpDecode trivial trivial
  exact ⟨by decide +kernel, by decide +kernel, safe_run_loses_no_request smallConfig 1 1 _ _ final⟩

/-- The engine refuses the sequence: its job is gone, its entry stays, and its client is never told. -/
theorem refused_sequence_is_lost :
    ∃ (cfg : DeployConfig) (prefillEngines decodeEngines : ℕ) (events : List DeployEvent) (s : Deployment),
      Machine.Run (system cfg prefillEngines decodeEngines) events s ∧ ¬s.Accounted := by
  have start : Machine.Run (system smallConfig 1 1) [] (spawn smallConfig 1 1) := .start rfl
  have called := start.apply oneCall ⟨by decide, by rintro _ ⟨rfl⟩; decide⟩
  have prefilled := called.apply (.prefillRound 0 onePrefill) ⟨⟨_, rfl, rfl⟩, samplesCompleted_onePrefill⟩
  have pumped := prefilled.apply .pumpPrefill trivial
  have refused := pumped.apply (.decodeRound 0 (oneDecode (.error (.engine "full"))))
    ((Option.any_eq_true _ _).mp (by decide +kernel))
  refine ⟨smallConfig, 1, 1, _, _, refused, fun accounted => ?_⟩
  have carried := accounted.carried_once 1 (by decide +kernel)
  exact absurd carried (by decide +kernel)

end Deployment

end TrtLlm.Worker
