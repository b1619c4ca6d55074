import TrtLlm.Model.Worker.RoutedDeployment
import TrtLlm.Soundness.DeploymentOwnership
import TrtLlm.Soundness.RouteChoice
import TrtLlm.Soundness.ServingLoad

/-! # The router keeps to the deployment

The deployment takes its routes as an input and asks that they name its workers. With the router it was spawned with the
routes come from the registry, whose entries never leave the range of ids they were registered with. All entries outside
a pass of `sync_loads` carry the clock of the last pass, so a call is rejected exactly when that pass is too old.
-/

namespace TrtLlm.Worker

open KvCache Sched Engine Routing Machine

theorem Deployment.step_lengths (s : Deployment) (event : DeployEvent) :
    (s.step event).prefill.length = s.prefill.length ∧ (s.step event).decode.length = s.decode.length := by
  have workers : ∀ t : Deployment, t.prefill = s.prefill ∧ t.decode.map (·.worker) = s.decode.map (·.worker) →
      t.prefill.length = s.prefill.length ∧ t.decode.length = s.decode.length := by
    rintro t ⟨prefill, decode⟩
    have lengths := congrArg List.length decode
    rw [List.length_map, List.length_map] at lengths
    exact ⟨congrArg List.length prefill, lengths⟩
  cases event with
  | generate req route =>
    cases route with
    | error reason => exact ⟨rfl, rfl⟩
    | ok decision =>
      simp only [step, generate]
      split
      · split
        · exact ⟨List.length_set, rfl⟩
        · exact ⟨rfl, rfl⟩
      · exact ⟨rfl, rfl⟩
  | prefillRound i call =>
    rw [step, prefillRound]
    split
    · exact ⟨List.length_set, rfl⟩
    · exact ⟨rfl, rfl⟩
  | decodeRound j call =>
    rw [step, decodeRound]
    split
    · exact ⟨rfl, List.length_set⟩
    · exact ⟨rfl, rfl⟩
  | pumpPrefill =>
    rw [step, pumpPrefill]
    split
    · exact ⟨rfl, rfl⟩
    · exact workers _ (deliverFirst_workers _ _)
  | pumpDecode =>
    rw [step, pumpDecode]
    split
    · exact ⟨rfl, rfl⟩
    next event rest _ =>
      obtain ⟨prefill, decode⟩ := deliver_workers { s with decodeEvents := rest } event
      exact ⟨congrArg List.length prefill, congrArg List.length decode⟩
  | stopPrefill i =>
    rw [step, stopPrefill]
    split
    · exact ⟨List.length_set, rfl⟩
    · exact ⟨rfl, rfl⟩
  | stopDecode j =>
    rw [step, stopDecode]
    split
    · exact ⟨rfl, List.length_set⟩
    · exact ⟨rfl, rfl⟩
  | hangUp id => exact ⟨rfl, rfl⟩
  | closePrefillDone => exact ⟨rfl, rfl⟩
  | closeDecodeEvents => exact ⟨rfl, rfl⟩

namespace RoutedDeployment

variable {cfg : DeployConfig} {initialCap : ℚ} {p d : ℕ} {s : RoutedDeployment}

/-- The entries of a registry: workers of the deployment under their own ids, of which those not in `unread` have
reported at `time`, with at least one of each role. -/
structure Manned (p d : ℕ) (time : Millis) (unread : List Member) (registry : WorkerRegistry) : Prop where
  stale : registry.staleAfterMs = 60000
  known : ∀ id worker, registry.workers.lookup id = some worker → worker.id = id ∧ worker.healthy = true ∧
    (∃ member ∈ members p d, member.id = id ∧ member.role = worker.role) ∧
    (worker.load.updatedMs = time ∨ ∃ member ∈ unread, member.id = id)
  first : ∀ role, ∃ id worker, registry.workers.lookup id = some worker ∧ worker.role = role

theorem mem_members {member : Member} :
    member ∈ members p d ↔ member.index < match member.role with | .prefill => p | .decode => d := by
  obtain ⟨role, index⟩ := member
  cases role <;> simp [members]

theorem Manned.forget {time later : Millis} {unread : List Member} {registry : WorkerRegistry}
    (manned : Manned p d time unread registry) : Manned p d later (members p d) registry := by
  refine ⟨manned.stale, fun id worker found => ?_, manned.first⟩
  obtain ⟨same, healthy, ⟨member, listed, named, role⟩, -⟩ := manned.known id worker found
  exact ⟨same, healthy, ⟨member, listed, named, role⟩, .inr ⟨member, listed, named⟩⟩

theorem Manned.report {time : Millis} {member : Member} {rest : List Member} {registry : WorkerRegistry}
    (manned : Manned p d time (member :: rest) registry) {load : WorkerLoad} (current : load.updatedMs = time) :
    Manned p d time rest (registry.updateLoad member.id load) := by
  refine ⟨?_, fun id worker found => ?_, fun role => ?_⟩
  · rw [WorkerRegistry.updateLoad]
    split
    · exact manned.stale
    · exact manned.stale
  · rw [WorkerRegistry.updateLoad_lookup, Option.map_eq_some_iff] at found
    obtain ⟨before, there, rfl⟩ := found
    obtain ⟨same, healthy, owner, reported⟩ := manned.known id before there
    split
    · exact ⟨same, rfl, owner, .inl current⟩
    next apart =>
      refine ⟨same, healthy, owner, reported.imp_right ?_⟩
      rintro ⟨other, listed, named⟩
      rcases List.mem_cons.mp listed with rfl | later
      · exact absurd named.symm apart
      · exact ⟨other, later, named⟩
  · obtain ⟨id, worker, found, same⟩ := manned.first role
    refine ⟨id, _, (registry.updateLoad_lookup member.id load id).trans (congrArg _ found), ?_⟩
    split <;> exact same

theorem newRegistry_lookup (cfg : DeployConfig) (initialCap : ℚ) (p d : ℕ) (id : WorkerId) :
    (newRegistry cfg initialCap p d).workers.lookup id =
      if decodeIdBase ≤ id ∧ id - decodeIdBase < d then
        some ⟨decodeIdBase + (id - decodeIdBase), .decode, true, { decodeCap := initialCap }⟩
      else if id < p then some ⟨id, .prefill, true, { tokensPerMs := cfg.tuning.tokensPerMs }⟩ else none := by
  have second := Sim.registerAll_lookup
    (fun j => ⟨decodeIdBase + j, .decode, true, { decodeCap := initialCap }⟩) decodeIdBase (fun _ => rfl) d
    ((List.range p).foldl (fun registry i => registry.register ⟨i, .prefill, true,
      { tokensPerMs := cfg.tuning.tokensPerMs }⟩) (.new 60000)) id
  have first := Sim.registerAll_lookup
    (fun i => ⟨i, .prefill, true, { tokensPerMs := cfg.tuning.tokensPerMs }⟩) 0 (fun i => (Nat.zero_add i).symm) p
    (.new 60000) id
  simp only [Nat.zero_le, true_and, Nat.sub_zero] at first
  rw [first] at second
  exact second

theorem manned_new (cfg : DeployConfig) (initialCap : ℚ) (prefills : 0 < p) (decodes : 0 < d) :
    Manned p d 0 [] (newRegistry cfg initialCap p d) := by
  refine ⟨?_, fun id worker found => ?_, ?_⟩
  · have outer := Sim.registerAll_stale
      (fun j => ⟨decodeIdBase + j, .decode, true, { decodeCap := initialCap }⟩) (List.range d)
      ((List.range p).foldl (fun registry i => registry.register ⟨i, .prefill, true,
        { tokensPerMs := cfg.tuning.tokensPerMs }⟩) (.new 60000))
    exact outer.trans (Sim.registerAll_stale
      (fun i => ⟨i, .prefill, true, { tokensPerMs := cfg.tuning.tokensPerMs }⟩) (List.range p) (.new 60000))
  · rw [newRegistry_lookup] at found
    split at found
    next inside =>
      have back : decodeIdBase + (id - decodeIdBase) = id := Nat.add_sub_cancel' inside.1
      rw [← Option.some.inj found]
      exact ⟨back, rfl, ⟨⟨.decode, id - decodeIdBase⟩, mem_members.mpr inside.2, back, rfl⟩, .inl rfl⟩
    next =>
      split at found
      next inside =>
        cases found
        exact ⟨rfl, rfl, ⟨⟨.prefill, id⟩, mem_members.mpr inside, rfl, rfl⟩, .inl rfl⟩
      next => cases found
  · rintro (_ | _)
    · exact ⟨0, _, (newRegistry_lookup cfg initialCap p d 0).trans
        ((if_neg (by simp [decodeIdBase])).trans (if_pos prefills)), rfl⟩
    · exact ⟨decodeIdBase, _, (newRegistry_lookup cfg initialCap p d decodeIdBase).trans
        (if_pos (by simpa using decodes)), rfl⟩

/-- What keeps holding of a deployment and its router. -/
structure Staffed (cfg : DeployConfig) (p d : ℕ) (s : RoutedDeployment) : Prop where
  inner : ∃ events, Run (Deployment.system cfg p d) events s.dep
  prefill : s.dep.prefill.length = p
  decode : s.dep.decode.length = d
  manned : Manned p d s.syncedMs s.unread s.router.registry
  index : s.router.prefixIndex = .new 256 65536
  within : ∀ member ∈ s.unread, member ∈ members p d

theorem Member.load?_updatedMs {dep : Deployment} {now : Millis} {member : Member} {load : WorkerLoad}
    (read : member.load? dep now = some load) : load.updatedMs = now := by
  obtain ⟨role, index⟩ := member
  cases role with
  | prefill =>
    obtain ⟨site, _, rfl⟩ := Option.map_eq_some_iff.mp read
    rfl
  | decode =>
    obtain ⟨site, _, rfl⟩ := Option.map_eq_some_iff.mp read
    rfl

theorem Staffed.load? (staffed : Staffed cfg p d s) {member : Member} (listed : member ∈ members p d) (now : Millis) :
    ∃ load, member.load? s.dep now = some load := by
  have inside := mem_members.mp listed
  obtain ⟨role, index⟩ := member
  cases role with
  | prefill =>
    rw [Member.load?, List.getElem?_eq_getElem (staffed.prefill ▸ inside)]
    exact ⟨_, rfl⟩
  | decode =>
    rw [Member.load?, List.getElem?_eq_getElem (staffed.decode ▸ inside)]
    exact ⟨_, rfl⟩

/-! ### Routing -/

theorem Manned.keyed {time : Millis} {unread : List Member} {registry : WorkerRegistry}
    (manned : Manned p d time unread registry) : registry.Keyed :=
  fun id worker found => (manned.known id worker found).1

/-- Outside a pass a role has live workers exactly as long as the last pass is not too old. -/
theorem Manned.live_iff {time : Millis} {registry : WorkerRegistry} (manned : Manned p d time [] registry) (now : Millis)
    (role : WorkerRole) : registry.live role now ≠ [] ↔ now - time ≤ 60000 := by
  constructor
  · intro some
    obtain ⟨worker, live⟩ := List.exists_mem_of_ne_nil _ some
    obtain ⟨⟨id, listed⟩, serves⟩ := WorkerRegistry.mem_live.mp live
    obtain ⟨-, -, -, updated | ⟨_, none, _⟩⟩ := manned.known id worker (AList.mem_lookup_iff.mpr listed)
    · rw [WorkerRegistry.isLive, decide_eq_true_eq, updated, manned.stale] at serves
      exact serves.2.2
    · cases none
  · intro recent
    obtain ⟨id, worker, found, same⟩ := manned.first role
    obtain ⟨-, healthy, -, updated | ⟨_, none, _⟩⟩ := manned.known id worker found
    · refine List.ne_nil_of_mem (WorkerRegistry.mem_live.mpr ⟨⟨id, AList.mem_lookup_iff.mp found⟩, ?_⟩)
      rw [WorkerRegistry.isLive, decide_eq_true_eq, updated, manned.stale]
      exact ⟨same, healthy, recent⟩
    · cases none

/-- A live worker of a role is a worker of the deployment with that role. -/
theorem Manned.live_range {time : Millis} {registry : WorkerRegistry} (manned : Manned p d time [] registry)
    {now : Millis} {role : WorkerRole} {worker : WorkerState} (live : worker ∈ registry.live role now) :
    ∃ member ∈ members p d, member.id = worker.id ∧ member.role = role := by
  obtain ⟨⟨id, listed⟩, serves⟩ := WorkerRegistry.mem_live.mp live
  obtain ⟨same, -, ⟨member, inside, named, role⟩, -⟩ := manned.known id worker (AList.mem_lookup_iff.mpr listed)
  rw [WorkerRegistry.isLive, decide_eq_true_eq] at serves
  exact ⟨member, inside, named.trans same.symm, role.trans serves.1⟩

theorem routeIn_eq {router : Router} (keyed : router.registry.Keyed) (orders : WorkerRole → IterOrder)
    (prompt : List TokenId) (now ttftBudgetMs : Millis) :
    router.routeIn orders prompt now ttftBudgetMs =
      router.choose (fun role => router.registry.live role now) prompt ttftBudgetMs := by
  rw [Router.routeIn]
  congr 1
  funext role
  exact keyed.live_rehash (orders role) .stored role now

/-- A call outside a pass: routed to the best pair of live workers, which the deployment has, or rejected because the
last pass is too old. -/
structure Routes (p d : ℕ) (s : RoutedDeployment) (prompt : List TokenId) (now : Millis) : Prop where
  accepted : now - s.syncedMs ≤ 60000 → ∃ decision prefill decode,
    s.router.Chosen prompt now s.dep.ttftMs decision prefill decode ∧ decision.prefill < p ∧
      decodeIdBase ≤ decision.decode ∧ decision.decode < decodeIdBase + d ∧
      ∀ orders, s.route prompt now orders = .ok (decision.prefill, decision.decode)
  rejected : 60000 < now - s.syncedMs → ∀ orders, s.route prompt now orders = .error "no healthy prefill worker"

theorem Staffed.routes (staffed : Staffed cfg p d s) (free : s.unread = []) (prompt : List TokenId) (now : Millis) :
    Routes p d s prompt now := by
  have manned := staffed.manned
  rw [free] at manned
  have routed := fun orders => routeIn_eq manned.keyed orders prompt now s.dep.ttftMs
  refine ⟨fun recent => ?_, fun late orders => ?_⟩
  · have root : s.router.prefixIndex.nodes = [Node.new [] 0] := by
      rw [staffed.index]
      rfl
    obtain ⟨decision, prefill, decode, picked, chosen⟩ := Router.chosen_of_live s.router
      (RadixIndex.shape_of_root root).1 prompt now s.dep.ttftMs fun role => (manned.live_iff now role).mpr recent
    obtain ⟨⟨role, i⟩, first, firstId, rfl⟩ := manned.live_range chosen.prefillLive
    obtain ⟨⟨role, j⟩, second, secondId, rfl⟩ := manned.live_range chosen.decodeLive
    refine ⟨decision, prefill, decode, chosen, ?_, ?_, ?_, fun orders => ?_⟩
    · rw [chosen.prefillId, ← firstId]
      exact mem_members.mp first
    · rw [chosen.decodeId, ← secondId]
      exact Nat.le_add_right _ _
    · rw [chosen.decodeId, ← secondId]
      exact Nat.add_lt_add_left (mem_members.mp second) _
    · rw [route, routed, picked]
  · have none : s.router.registry.live .prefill now = [] := by
      by_contra some
      exact absurd ((manned.live_iff now .prefill).mp some) (not_le.mpr late)
    rw [route, routed, Router.choose, none]
    rfl

/-! ### Runs -/

/-- The deployment of any configuration and any number of workers behind the router it was spawned with. -/
def system (cfg : DeployConfig) (initialCap : ℚ) (p d : ℕ) : System RoutedDeployment RoutedEvent :=
  .ofFun (fun s => spawn cfg initialCap p d = .ok s) Enabled step

theorem staffed_spawn (spawned : spawn cfg initialCap p d = .ok s) : Staffed cfg p d s := by
  rw [spawn] at spawned
  split at spawned
  · cases spawned
  next staff =>
    cases spawned
    obtain ⟨prefills, decodes⟩ := not_or.mp staff
    exact ⟨⟨[], .start rfl⟩, List.length_replicate, List.length_replicate,
      manned_new cfg initialCap (Nat.pos_of_ne_zero prefills) (Nat.pos_of_ne_zero decodes), rfl,
      fun member none => (nomatch none)⟩

/-- A step of the deployment itself. -/
theorem Staffed.inside (staffed : Staffed cfg p d s) {event : DeployEvent} (enabled : s.dep.Enabled event) :
    Staffed cfg p d { s with dep := s.dep.step event } := by
  obtain ⟨events, inner⟩ := staffed.inner
  obtain ⟨prefill, decode⟩ := s.dep.step_lengths event
  exact ⟨⟨_, inner.apply event enabled⟩, prefill.trans staffed.prefill, decode.trans staffed.decode, staffed.manned,
    staffed.index, staffed.within⟩

theorem Staffed.syncWorker (staffed : Staffed cfg p d s) : Staffed cfg p d s.syncWorker := by
  obtain ⟨inner, prefill, decode, manned, index, within⟩ := staffed
  rw [RoutedDeployment.syncWorker]
  split
  · exact ⟨inner, prefill, decode, manned, index, within⟩
  next member rest unread =>
    rw [unread] at manned within
    obtain ⟨load, read⟩ := Staffed.load? ⟨inner, prefill, decode, unread ▸ manned, index, unread ▸ within⟩
      (within member (.head _)) s.syncedMs
    rw [read]
    exact ⟨inner, prefill, decode, manned.report (Member.load?_updatedMs read), index,
      fun other later => within other (.tail _ later)⟩

theorem Staffed.step (staffed : Staffed cfg p d s) {event : RoutedEvent} (enabled : s.Enabled event) :
    Staffed cfg p d (s.step event) := by
  cases event with
  | generate req now orders =>
    obtain ⟨free, fresh⟩ := enabled
    have routes := staffed.routes free req.prompt now
    refine staffed.inside ⟨fresh, fun decision routed => ?_⟩
    rcases le_or_gt (now - s.syncedMs) 60000 with recent | late
    · obtain ⟨chosen, _, _, _, prefill, above, below, answer⟩ := routes.accepted recent
      rw [answer] at routed
      cases routed
      exact ⟨staffed.prefill ▸ prefill, above, staffed.decode ▸ below⟩
    · rw [routes.rejected late] at routed
      cases routed
  | beginSync now =>
    refine ⟨staffed.inner, staffed.prefill, staffed.decode, ?_, staffed.index, fun member listed => ?_⟩
    · rw [RoutedDeployment.step, staffed.prefill, staffed.decode]
      exact staffed.manned.forget
    · rw [RoutedDeployment.step, staffed.prefill, staffed.decode] at listed
      exact listed
  | syncWorker => exact staffed.syncWorker
  | inner event => exact staffed.inside enabled.1

/-- Every run of the deployment behind its own router is a run of the deployment, whose calls are routed to workers it
has for as long as `sync_loads` keeps passing. -/
theorem run_routed {labels : List RoutedEvent} (run : Run (system cfg initialCap p d) labels s) :
    (∃ events, Run (Deployment.system cfg p d) events s.dep) ∧
      (s.unread = [] → ∀ prompt now, Routes p d s prompt now) := by
  have staffed : Staffed cfg p d s := by
    refine run.invariant ?_ ?_
    · exact fun s spawned => staffed_spawn spawned
    · rintro s event _ staffed ⟨enabled, rfl⟩
      exact staffed.step enabled
  exact ⟨staffed.inner, fun free prompt now => staffed.routes free prompt now⟩

/-- A call after a pass is routed, and one that comes more than a minute after it is rejected. -/
theorem run_routed_late :
    ∃ s, Run (system Deployment.smallConfig 8 1 1) [.beginSync 20, .syncWorker, .syncWorker,
        .generate ⟨1, [5], 2, 30⟩ 30 (fun _ => .stored), .generate ⟨2, [5], 2, 60021⟩ 60021 (fun _ => .stored)] s ∧
      s.dep.refused = [2] ∧ (∃ events, Run (Deployment.system Deployment.smallConfig 1 1) events s.dep) ∧
      (s.unread = [] → ∀ prompt now, Routes 1 1 s prompt now) := by
  have start : Run (system Deployment.smallConfig 8 1 1) [] _ := .start rfl
  have begun := start.apply (.beginSync 20) rfl
  have synced := (begun.apply .syncWorker (List.cons_ne_nil _ _)).apply .syncWorker (List.cons_ne_nil _ _)
  have called := synced.apply (.generate ⟨1, [5], 2, 30⟩ 30 fun _ => .stored) ⟨rfl, List.not_mem_nil⟩
  have late := called.apply (.generate ⟨2, [5], 2, 60021⟩ 60021 fun _ => .stored) ⟨rfl, by decide +kernel⟩
  exact ⟨_, late, by decide +kernel, run_routed late⟩

end RoutedDeployment

end TrtLlm.Worker
