import TrtLlm.Model.Sim.Simulator

/-! # Routing inside the simulator never fails

The registry lists the simulated workers under their ids. Every arrival refreshes their loads first, so both pools
are non-empty when the router is asked, and the pair it picks are workers that exist.
-/

namespace TrtLlm.Routing

theorem WorkerRegistry.mem_live {registry : WorkerRegistry} {role : WorkerRole} {now : Millis} {worker : WorkerState} :
    worker ∈ registry.live role now ↔
      (∃ id, ⟨id, worker⟩ ∈ registry.workers.entries) ∧ registry.isLive role now worker = true := by
  rw [live, List.mem_insertionSort, List.mem_filter, List.mem_map]
  constructor
  · rintro ⟨⟨⟨id, _⟩, listed, rfl⟩, live⟩
    exact ⟨⟨id, listed⟩, live⟩
  · rintro ⟨⟨id, listed⟩, live⟩
    exact ⟨⟨_, listed, rfl⟩, live⟩

theorem roomiest_mem (first : WorkerState) (pool : List WorkerState) : roomiest first pool ∈ first :: pool := by
  induction pool generalizing first with
  | nil => exact .head _
  | cons worker pool ih =>
    change roomiest (if first.decodeLe worker then worker else first) pool ∈ _
    rcases List.mem_cons.mp (ih (if first.decodeLe worker then worker else first)) with same | later
    · rw [same]
      split <;> simp
    · exact .tail _ (.tail _ later)

/-- The best prefill worker has every property that all candidates have. -/
theorem Router.bestPrefill_of_forall (router : Router) (overlaps : HashMap WorkerId ℕ) (promptLen : ℕ)
    {P : Candidate → Prop} (first : WorkerState) (pool : List WorkerState)
    (each : ∀ worker ∈ first :: pool, P (router.candidate overlaps promptLen worker)) :
    P (router.bestPrefill overlaps promptLen first pool) := by
  have walk : ∀ (pool : List WorkerState) (best : Candidate), P best →
      (∀ worker ∈ pool, P (router.candidate overlaps promptLen worker)) →
      P (pool.foldl (fun best worker => if (router.candidate overlaps promptLen worker).beats best then
        router.candidate overlaps promptLen worker else best) best) := by
    intro pool
    induction pool with
    | nil => exact fun best holds _ => holds
    | cons worker pool ih =>
      intro best holds others
      rw [List.foldl_cons]
      refine ih _ ?_ fun other member => others other (.tail _ member)
      split
      · exact others worker (.head _)
      · exact holds
  exact walk pool _ (each first (.head _)) fun worker member => each worker (.tail _ member)

/-- With both pools non-empty the choice succeeds and picks one worker from each. -/
theorem Router.choose_spec (router : Router) (pool : WorkerRole → List WorkerState) (prompt : List TokenId)
    (ttftBudgetMs : Millis) (nonempty : ∀ role, pool role ≠ []) :
    ∃ decision, router.choose pool prompt ttftBudgetMs = .ok decision ∧
      (∃ worker ∈ pool .prefill, worker.id = decision.prefill) ∧
      ∃ worker ∈ pool .decode, worker.id = decision.decode := by
  obtain ⟨firstPrefill, prefills, prefillPool⟩ := List.exists_cons_of_ne_nil (nonempty .prefill)
  obtain ⟨firstDecode, decodes, decodePool⟩ := List.exists_cons_of_ne_nil (nonempty .decode)
  have best := router.bestPrefill_of_forall (router.prefixIndex.matchWorkers prompt) prompt.length firstPrefill prefills
    (P := fun best => ∃ worker ∈ firstPrefill :: prefills, worker.id = best.id)
    fun worker member => ⟨worker, member, rfl⟩
  rw [choose, prefillPool, decodePool]
  exact ⟨_, rfl, best, ⟨_, roomiest_mem firstDecode decodes, rfl⟩⟩

end TrtLlm.Routing

namespace TrtLlm.Sim

open Routing

/-- The ids a role may use in a simulation of `cfg`. -/
def idRange (cfg : Config) : WorkerRole → WorkerId → Prop
  | .prefill, id => id < cfg.topology.prefillWorkers
  | .decode, id => decodeIdBase ≤ id ∧ id - decodeIdBase < cfg.topology.decodeWorkers

/-- The lowest id of a role, which no other role's worker takes over. -/
def firstId : WorkerRole → WorkerId
  | .prefill => 0
  | .decode => decodeIdBase

/-- The simulator's registry: every worker sits under its own id in the range of its role, and the first worker of
each role is there. -/
structure Registered (cfg : Config) (registry : WorkerRegistry) : Prop where
  known : ∀ {id worker}, registry.workers.lookup id = some worker → worker.id = id ∧ idRange cfg worker.role id
  first : ∀ role, ∃ worker, registry.workers.lookup (firstId role) = some worker ∧ worker.role = role
  stale : registry.staleAfterMs = 60000

namespace Registered

variable {cfg : Config} {registry : WorkerRegistry}

theorem updateLoad (registered : Registered cfg registry) (id : WorkerId) (load : WorkerLoad) :
    Registered cfg (registry.updateLoad id load) := by
  unfold WorkerRegistry.updateLoad
  split
  next worker found =>
    refine ⟨?_, fun role => ?_, registered.stale⟩
    · intro other updated here
      by_cases same : other = id
      · subst same
        rw [show AList.lookup other _ = some _ from AList.lookup_insert _] at here
        rw [← Option.some.inj here]
        have before := registered.known found
        exact before
      · rw [show AList.lookup other _ = _ from AList.lookup_insert_ne same] at here
        exact registered.known here
    · obtain ⟨holder, there, same⟩ := registered.first role
      by_cases here : firstId role = id
      · rw [here] at there ⊢
        rw [found] at there
        obtain rfl := Option.some.inj there
        exact ⟨_, AList.lookup_insert _, same⟩
      · exact ⟨holder, (AList.lookup_insert_ne here).trans there, same⟩
  next => exact registered

end Registered

/-- The workers under some ids have just reported. -/
def Fresh (now : Millis) (ids : WorkerId → Prop) (registry : WorkerRegistry) : Prop :=
  ∀ id worker, ids id → registry.workers.lookup id = some worker →
    worker.healthy = true ∧ worker.load.updatedMs = now

theorem Fresh.updateLoad {now : Millis} {ids : WorkerId → Prop} {registry : WorkerRegistry} (fresh : Fresh now ids registry)
    (id : WorkerId) {load : WorkerLoad} (current : load.updatedMs = now) :
    Fresh now (fun other => other = id ∨ ids other) (registry.updateLoad id load) := by
  intro other worker listed found
  unfold WorkerRegistry.updateLoad at found
  cases before : registry.workers.lookup id with
  | none =>
    rw [before] at found
    rcases listed with rfl | listed
    · rw [before] at found
      cases found
    · exact fresh other worker listed found
  | some old =>
    rw [before] at found
    by_cases same : other = id
    · subst same
      rw [show AList.lookup other _ = some _ from AList.lookup_insert _] at found
      rw [← Option.some.inj found]
      exact ⟨rfl, current⟩
    · rw [show AList.lookup other _ = _ from AList.lookup_insert_ne same] at found
      exact fresh other worker (listed.resolve_left same) found

/-- Updating the loads of a list of workers in turn. -/
theorem updateLoads_spec {cfg : Config} {α : Type} (id : α → WorkerId) (load : α → WorkerLoad) {now : Millis}
    (current : ∀ a, (load a).updatedMs = now) (workers : List α) {ids : WorkerId → Prop} {registry : WorkerRegistry}
    (registered : Registered cfg registry) (fresh : Fresh now ids registry) :
    Registered cfg (workers.foldl (fun registry a => registry.updateLoad (id a) (load a)) registry) ∧
      Fresh now (fun other => other ∈ workers.map id ∨ ids other)
        (workers.foldl (fun registry a => registry.updateLoad (id a) (load a)) registry) := by
  induction workers generalizing registry ids with
  | nil => exact ⟨registered, fun other worker listed => fresh other worker (by simpa using listed)⟩
  | cons a workers ih =>
    obtain ⟨final, all⟩ := ih (registered.updateLoad (id a) (load a)) (fresh.updateLoad (id a) (current a))
    refine ⟨final, fun other worker listed => all other worker ?_⟩
    rw [List.map_cons, List.mem_cons] at listed
    tauto

/-- A fresh first worker of a role is live, in whatever order the registry is iterated. -/
theorem live_nonempty {cfg : Config} {registry : WorkerRegistry} (registered : Registered cfg registry) {now : Millis}
    {ids : WorkerId → Prop} (fresh : Fresh now ids registry) (order : IterOrder) {role : WorkerRole}
    (listed : ids (firstId role)) : (registry.rehash order).live role now ≠ [] := by
  obtain ⟨worker, found, same⟩ := registered.first role
  obtain ⟨healthy, updated⟩ := fresh _ _ listed found
  refine List.ne_nil_of_mem (WorkerRegistry.mem_live.mpr (⟨⟨firstId role, ?_⟩, ?_⟩ :
    (∃ id, ⟨id, worker⟩ ∈ (registry.rehash order).workers.entries) ∧ _))
  · exact (HashMap.rehash_perm order registry.workers).mem_iff.mpr (AList.mem_lookup_iff.mp found)
  · simp [WorkerRegistry.isLive, WorkerRegistry.rehash, same, healthy, updated, registered.stale]

theorem live_known {cfg : Config} {registry : WorkerRegistry} (registered : Registered cfg registry) {now : Millis}
    {order : IterOrder} {role : WorkerRole} {worker : WorkerState} (live : worker ∈ (registry.rehash order).live role now) :
    idRange cfg role worker.id := by
  obtain ⟨⟨id, listed⟩, serves⟩ := WorkerRegistry.mem_live.mp live
  have found : registry.workers.lookup id = some worker :=
    AList.mem_lookup_iff.mpr ((HashMap.rehash_perm order registry.workers).mem_iff.mp listed)
  obtain ⟨same, range⟩ := registered.known found
  have matching : worker.role = role := by
    simp only [WorkerRegistry.isLive, decide_eq_true_eq] at serves
    exact serves.1
  rw [same, ← matching]
  exact range

/-- Registering workers under consecutive ids. -/
theorem registerAll_lookup (worker : ℕ → WorkerState) (offset : ℕ) (ids : ∀ i, (worker i).id = offset + i) (n : ℕ)
    (registry : WorkerRegistry) (id : ℕ) :
    ((List.range n).foldl (fun registry i => registry.register (worker i)) registry).workers.lookup id =
      if offset ≤ id ∧ id - offset < n then some (worker (id - offset)) else registry.workers.lookup id := by
  induction n with
  | zero => simp
  | succ n ih =>
    rw [List.range_succ, List.foldl_append, List.foldl_cons, List.foldl_nil, WorkerRegistry.register]
    simp only
    rw [ids n]
    by_cases here : id = offset + n
    · rw [here, AList.lookup_insert, if_pos (by omega), Nat.add_sub_cancel_left]
    · rw [AList.lookup_insert_ne here, ih]
      by_cases inside : offset ≤ id ∧ id - offset < n
      · rw [if_pos inside, if_pos ⟨inside.1, Nat.lt_succ_of_lt inside.2⟩]
      · rw [if_neg inside, if_neg fun within => inside ⟨within.1, by omega⟩]

theorem registerAll_stale (worker : ℕ → WorkerState) (ids : List ℕ) (registry : WorkerRegistry) :
    (ids.foldl (fun registry i => registry.register (worker i)) registry).staleAfterMs = registry.staleAfterMs := by
  induction ids generalizing registry with
  | nil => rfl
  | cons i ids ih => exact ih _

theorem registered_new {cfg : Config} (prefills : 0 < cfg.topology.prefillWorkers)
    (decodes : 0 < cfg.topology.decodeWorkers) : Registered cfg (newRegistry cfg) := by
  let prefill (i : ℕ) : WorkerState := ⟨i, .prefill, true, { tokensPerMs := (prefillCurve cfg).tokensPerMs }⟩
  let decode (j : ℕ) : WorkerState := ⟨decodeIdBase + j, .decode, true, { decodeCap := initialCap cfg }⟩
  have lookups : ∀ id, (newRegistry cfg).workers.lookup id =
      if decodeIdBase ≤ id ∧ id - decodeIdBase < cfg.topology.decodeWorkers then some (decode (id - decodeIdBase))
      else if id < cfg.topology.prefillWorkers then some (prefill id) else none := by
    intro id
    have second := registerAll_lookup decode decodeIdBase (fun _ => rfl) cfg.topology.decodeWorkers
      ((List.range cfg.topology.prefillWorkers).foldl (fun registry i => registry.register (prefill i)) (.new 60000)) id
    have first := registerAll_lookup prefill 0 (fun i => (Nat.zero_add i).symm) cfg.topology.prefillWorkers (.new 60000) id
    simp only [Nat.zero_le, true_and, Nat.sub_zero] at first
    rw [first] at second
    exact second
  refine ⟨?_, ?_, ?_⟩
  · intro id worker found
    rw [lookups] at found
    split at found
    next inside =>
      rw [← Option.some.inj found]
      exact ⟨by change decodeIdBase + (id - decodeIdBase) = id; omega, inside⟩
    next =>
      split at found
      next inside =>
        rw [← Option.some.inj found]
        exact ⟨rfl, inside⟩
      next => cases found
  · rintro (_ | _)
    · refine ⟨prefill 0, ?_, rfl⟩
      rw [lookups, if_neg (by simp [firstId, decodeIdBase])]
      exact if_pos prefills
    · refine ⟨decode 0, ?_, rfl⟩
      rw [lookups, if_pos (by simp [firstId, decodes])]
      simp [firstId]
  · rw [newRegistry, registerAll_stale decode, registerAll_stale prefill]
    rfl

namespace Simulator

variable {cfg : Config} {s : Simulator cfg}

/-- Refreshing the loads touches nothing but the registry, where both first workers are now fresh. -/
theorem syncLoads_spec (orders : EventOrders) (registered : Registered cfg s.router.registry)
    (prefills : 0 < cfg.topology.prefillWorkers) (decodes : 0 < cfg.topology.decodeWorkers) :
    ∃ registry, s.syncLoads orders = { s with router := { s.router with registry } } ∧ Registered cfg registry ∧
      Fresh s.now (fun id => ∃ role, id = firstId role) registry := by
  have none : Fresh s.now (fun _ => False) s.router.registry := fun _ _ listed => listed.elim
  obtain ⟨first, freshFirst⟩ := updateLoads_spec (fun i : Fin cfg.topology.prefillWorkers => (i : WorkerId))
    (fun i => s.prefillLoad (orders.queue i) (s.prefill i)) (fun _ => rfl) (List.finRange _) registered none
  obtain ⟨second, freshSecond⟩ := updateLoads_spec
    (fun j : Fin cfg.topology.decodeWorkers => decodeIdBase + (j : WorkerId)) (fun j => s.decodeLoad (s.decode j))
    (fun _ => rfl) (List.finRange _) first freshFirst
  refine ⟨_, rfl, second, ?_⟩
  rintro _ worker ⟨role, rfl⟩ found
  refine freshSecond _ worker ?_ found
  cases role with
  | prefill => exact .inr (.inl (List.mem_map.mpr ⟨⟨0, prefills⟩, List.mem_finRange _, rfl⟩))
  | decode => exact .inl (List.mem_map.mpr ⟨⟨0, decodes⟩, List.mem_finRange _, rfl⟩)

/-- An arrival is always routed to a pair of existing workers. -/
theorem onArrival_spec (orders : EventOrders) (client : ℕ) (registered : Registered cfg s.router.registry)
    (prefills : 0 < cfg.topology.prefillWorkers) (decodes : 0 < cfg.topology.decodeWorkers) :
    ∃ registry pw dw hit, Registered cfg registry ∧
      s.onArrival orders client = some (({ s with
        nextId := s.nextId + 1, issued := s.issued + 1, router := { s.router with registry } }.accept client s.nextId pw
          dw hit).tryStartPrefill pw) := by
  obtain ⟨registry, synced, still, fresh⟩ :=
    syncLoads_spec (s := { s with nextId := s.nextId + 1, issued := s.issued + 1 }) orders registered prefills decodes
  obtain ⟨decision, routed, ⟨prefill, prefillLive, prefillId⟩, ⟨decode, decodeLive, decodeId⟩⟩ :=
    Router.choose_spec { s.router with registry }
      (fun role => (registry.rehash (orders.registry role)).live role s.now) (promptOf cfg s.nextId) cfg.slo.ttftMs
      fun role => live_nonempty still fresh _ ⟨role, rfl⟩
  have prefillRange : decision.prefill < cfg.topology.prefillWorkers := prefillId ▸ live_known still prefillLive
  have decodeRange : decodeIdBase ≤ decision.decode ∧ decision.decode - decodeIdBase < cfg.topology.decodeWorkers :=
    decodeId ▸ live_known still decodeLive
  refine ⟨registry, ⟨_, prefillRange⟩, ⟨_, decodeRange.2⟩, decision.prefixHitTokens, still, ?_⟩
  rw [onArrival, synced]
  simp only [Router.routeIn, routed, prefillIndex, decodeIndex, dif_pos prefillRange, dif_pos decodeRange]

end Simulator

end TrtLlm.Sim
