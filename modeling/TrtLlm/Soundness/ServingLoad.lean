import TrtLlm.Machine.Path
import TrtLlm.Model.Worker.Serving
import TrtLlm.ToMathlib.AListSum

/-! # The load the router sees

Routing reads the registry, which shows a copy of the counters. A request raises its slot's counter only after its
transport has answered, and its stream task lowers it. The audit beside the deployment counts raises and lowerings, and
remembers both counts for every copy. The registry is right about a slot exactly when the requests it misses are as many
as the requests it still counts although they have ended.
-/

namespace TrtLlm.Routing.WorkerRegistry

theorem updateLoad_lookup (registry : WorkerRegistry) (id : WorkerId) (load : WorkerLoad) (other : WorkerId) :
    (registry.updateLoad id load).workers.lookup other =
      (registry.workers.lookup other).map fun worker =>
        if other = id then { worker with load, healthy := true } else worker := by
  unfold updateLoad
  split
  next worker found =>
    by_cases same : other = id
    · subst same
      rw [AList.lookup_insert, found]
      simp
    · rw [AList.lookup_insert_ne same]
      simp [same]
  next absent =>
    by_cases same : other = id
    · subst same
      rw [absent]
      rfl
    · simp [same]

/-- Updating consecutive ids. -/
theorem updateLoads_lookup (registry : WorkerRegistry) (load : WorkerId → WorkerLoad) (n : ℕ) (other : WorkerId) :
    ((List.range n).foldl (fun registry id => registry.updateLoad id (load id)) registry).workers.lookup other =
      (registry.workers.lookup other).map fun worker =>
        if other < n then { worker with load := load other, healthy := true } else worker := by
  induction n with
  | zero => simp
  | succ n ih =>
    rw [List.range_succ, List.foldl_append, List.foldl_cons, List.foldl_nil, updateLoad_lookup, ih, Option.map_map]
    congr 1
    funext worker
    rw [Function.comp_apply]
    rcases Nat.lt_trichotomy other n with below | rfl | above
    · rw [if_neg below.ne, if_pos below, if_pos (Nat.lt_succ_of_lt below)]
    · simp
    · rw [if_neg above.ne', if_neg above.not_gt, if_neg (Nat.not_lt.mpr above)]

end TrtLlm.Routing.WorkerRegistry

namespace TrtLlm.Serving

open Routing

namespace Phase

/-- Routed to the slot, and its counter not raised yet. -/
def waits (slot : ℕ) : Phase → Bool
  | .starting _ other | .started other => other = slot
  | _ => false

def streams (slot : ℕ) : Phase → Bool
  | .streaming other _ => other = slot
  | _ => false

/-- Ended, and the counter of the slot not lowered yet. -/
def closes (slot : ℕ) : Phase → Bool
  | .closing other => other = slot
  | _ => false

end Phase

/-- How many calls are at a stage. -/
def stageCount (stage : Phase → Bool) (calls : HashMap ℕ Call) : ℕ := calls.sum fun _ call => (stage call.phase).toNat

def inflightOf (observed : HashMap ℕ Observed) (slot : ℕ) : ℕ := ((observed.lookup slot).getD {}).inflight

namespace ServingDeployment

/-- The requests routed to a slot whose start has not failed and whose stream has not ended. -/
def active (dep : ServingDeployment) (slot : ℕ) : ℕ :=
  stageCount (Phase.waits slot) dep.calls + stageCount (Phase.streams slot) dep.calls

/-- The concurrency the registry shows for one role of a slot. -/
def registered (dep : ServingDeployment) (slot : ℕ) (role : WorkerRole) : Option ℕ :=
  (dep.router.registry.workers.lookup (workerId slot role)).map (·.load.decodeConcurrency)

end ServingDeployment

/-! ### The audit -/

/-- How often the counter of each slot has been raised and lowered. -/
structure Tally where
  raised : ℕ → ℕ
  lowered : ℕ → ℕ

namespace Tally

def zero : Tally := ⟨fun _ => 0, fun _ => 0⟩

def raise (tally : Tally) (slot : ℕ) : Tally :=
  { tally with raised := fun other => tally.raised other + if other = slot then 1 else 0 }

def lower (tally : Tally) (slot : ℕ) : Tally :=
  { tally with lowered := fun other => tally.lowered other + if other = slot then 1 else 0 }

/-- A tally that came earlier in the run. -/
def Before (first second : Tally) : Prop :=
  ∀ slot, first.raised slot ≤ second.raised slot ∧ first.lowered slot ≤ second.lowered slot

/-- The tally accounts for a value of every counter. -/
def Explains (tally : Tally) (inflight : ℕ → ℕ) : Prop := ∀ slot, tally.raised slot = tally.lowered slot + inflight slot

theorem Before.refl (tally : Tally) : tally.Before tally := fun _ => ⟨le_rfl, le_rfl⟩

theorem Before.trans {first second third : Tally} (one : first.Before second) (two : second.Before third) :
    first.Before third := fun slot => ⟨(one slot).1.trans (two slot).1, (one slot).2.trans (two slot).2⟩

theorem before_raise (tally : Tally) (slot : ℕ) : tally.Before (tally.raise slot) :=
  fun _ => ⟨Nat.le_add_right _ _, le_rfl⟩

theorem before_lower (tally : Tally) (slot : ℕ) : tally.Before (tally.lower slot) :=
  fun _ => ⟨le_rfl, Nat.le_add_right _ _⟩

end Tally

/-- The deployment, the tally so far, the tally each call took with its copy of the counters, and the tally of the copy
the registry shows. -/
structure Audited where
  dep : ServingDeployment
  now : Tally
  taken : ℕ → Tally
  shown : Tally

namespace Audited

/-- A deployment that has served nobody. -/
def fresh (dep : ServingDeployment) : Audited := ⟨dep, .zero, fun _ => .zero, .zero⟩

/-- What the audit writes down about a step of a call. -/
def note (a : Audited) (key : ℕ) (step : ServingDeployment.Step) : Audited :=
  match step, (a.dep.calls.lookup key).map Call.phase with
  | .snapshot _ _, _ => { a with taken := Function.update a.taken key a.now }
  | .publish, _ => { a with shown := a.taken key }
  | .raise, some (.started slot) => { a with now := a.now.raise slot }
  | .lower, some (.closing slot) => { a with now := a.now.lower slot }
  | _, _ => a

def step (a : Audited) (key : ℕ) (step : ServingDeployment.Step) : Option Audited :=
  (a.dep.step key step).map fun dep => { a.note key step with dep }

/-- Every interleaving of the calls of a deployment and of their stream tasks. -/
def system (endpoints : ℕ) (tuning : RouterTuning) (ttftBudgetMs : Millis) (decodeCapHint : ℚ) (staleAfterMs : Millis) :
    Machine.System Audited (ℕ × ServingDeployment.Step) where
  Init a := ∃ dep, ServingDeployment.aggregated endpoints tuning ttftBudgetMs decodeCapHint staleAfterMs = .ok dep ∧
    a = fresh dep
  Step a label b := a.step label.1 label.2 = some b

/-- The requests of a slot that the registry misses, because their counter has not been raised or was raised after the
copy, are as many as the requests that ended and are counted in the copy: not lowered yet, or lowered since. -/
def Balanced (a : Audited) (slot : ℕ) : Prop :=
  stageCount (Phase.waits slot) a.dep.calls + (a.now.raised slot - a.shown.raised slot) =
    stageCount (Phase.closes slot) a.dep.calls + (a.now.lowered slot - a.shown.lowered slot)

instance (a : Audited) (slot : ℕ) : Decidable (a.Balanced slot) := inferInstanceAs (Decidable (_ = _))

structure Sound (a : Audited) : Prop where
  counted : ∀ slot, inflightOf a.dep.observed slot =
    stageCount (Phase.streams slot) a.dep.calls + stageCount (Phase.closes slot) a.dep.calls
  now : a.now.Explains (inflightOf a.dep.observed)
  taken : ∀ key prompt observed time, a.dep.calls.lookup key = some ⟨prompt, .snapshotted observed time⟩ →
    (a.taken key).Explains (inflightOf observed)
  takenBefore : ∀ key, (a.taken key).Before a.now
  shown : ∀ slot < a.dep.endpoints, ∀ role, ∃ load, a.dep.registered slot role = some load ∧
    a.shown.raised slot = a.shown.lowered slot + load
  shownBefore : a.shown.Before a.now

end Audited

/-! ### What a step does to the counts -/

section counts

variable {calls : HashMap ℕ Call} {key : ℕ} {call : Call}

theorem stageCount_insert (stage : Phase → Bool) (found : calls.lookup key = some call) (next : Call) :
    stageCount stage (calls.insert key next) + (stage call.phase).toNat =
      stageCount stage calls + (stage next.phase).toNat := by
  rw [stageCount, stageCount, AList.sum_insert, AList.sum_of_lookup _ found]
  omega

theorem stageCount_insert_new (stage : Phase → Bool) (absent : calls.lookup key = none) (next : Call) :
    stageCount stage (calls.insert key next) = (stage next.phase).toNat + stageCount stage calls :=
  AList.sum_insert_of_notMem _ (AList.lookup_eq_none.mp absent) next

theorem stageCount_erase (stage : Phase → Bool) (found : calls.lookup key = some call) :
    stageCount stage calls = (stage call.phase).toNat + stageCount stage (calls.erase key) :=
  AList.sum_of_lookup _ found

theorem inflightOf_modify (observed : HashMap ℕ Observed) (slot : ℕ) (change : Observed → Observed) (other : ℕ) :
    inflightOf (modify observed slot change) other =
      if other = slot then (change ((observed.lookup slot).getD {})).inflight else inflightOf observed other := by
  unfold inflightOf modify
  by_cases same : other = slot
  · subst same
    rw [AList.lookup_insert, if_pos rfl, Option.getD_some]
  · rw [AList.lookup_insert_ne same, if_neg same]

end counts

namespace Audited

variable {a : Audited} {key : ℕ}

theorem workerId_bounds {slot endpoints : ℕ} (inside : slot < endpoints) (role : WorkerRole) :
    workerId slot role < 2 * endpoints ∧ workerId slot role / 2 = slot := by
  cases role with
  | prefill =>
    change 2 * slot < 2 * endpoints ∧ 2 * slot / 2 = slot
    omega
  | decode =>
    change 2 * slot + 1 < 2 * endpoints ∧ (2 * slot + 1) / 2 = slot
    omega

/-- The registry after it has been given a copy of the counters. -/
theorem registered_publishLoads (dep : ServingDeployment) (observed : HashMap ℕ Observed) (time : Millis) {slot : ℕ}
    (inside : slot < dep.endpoints) (role : WorkerRole) :
    ((dep.publishLoads observed time).workers.lookup (workerId slot role)).map (·.load.decodeConcurrency) =
      (dep.registered slot role).map fun _ => inflightOf observed slot := by
  have bound := workerId_bounds inside role
  rw [ServingDeployment.publishLoads, WorkerRegistry.updateLoads_lookup _ fun id => dep.loadOf observed time (id / 2),
    ServingDeployment.registered, Option.map_map, Option.map_map]
  congr 1
  funext worker
  simp only [Function.comp_apply, if_pos bound.1, bound.2]
  rfl

/-- A step that changes no counter, ends no count and takes no copy. -/
theorem Sound.settle (sound : a.Sound) {dep : ServingDeployment}
    (inflight : inflightOf dep.observed = inflightOf a.dep.observed)
    (stages : ∀ slot, stageCount (Phase.streams slot) dep.calls + stageCount (Phase.closes slot) dep.calls =
      stageCount (Phase.streams slot) a.dep.calls + stageCount (Phase.closes slot) a.dep.calls)
    (copies : ∀ key prompt observed time, dep.calls.lookup key = some ⟨prompt, .snapshotted observed time⟩ →
      a.dep.calls.lookup key = some ⟨prompt, .snapshotted observed time⟩)
    (registry : dep.router.registry = a.dep.router.registry) (endpoints : dep.endpoints = a.dep.endpoints) :
    Sound { a with dep } where
  counted slot := by
    rw [inflight, stages]
    exact sound.counted slot
  now := by
    rw [inflight]
    exact sound.now
  taken key prompt observed time found := sound.taken key prompt observed time (copies _ _ _ _ found)
  takenBefore := sound.takenBefore
  shown slot inside role := by
    rw [endpoints] at inside
    rw [ServingDeployment.registered, registry]
    exact sound.shown slot inside role
  shownBefore := sound.shownBefore

/-- A call that goes on to another phase, without a copy of the counters, leaves the copies of the others alone. -/
theorem copies_insert {calls : HashMap ℕ Call} {call : Call}
    (fresh : ∀ observed time, call.phase ≠ .snapshotted observed time) (other : ℕ) (prompt : List TokenId)
    (observed : HashMap ℕ Observed) (time : Millis)
    (found : (calls.insert key call).lookup other = some ⟨prompt, .snapshotted observed time⟩) :
    other ≠ key ∧ calls.lookup other = some ⟨prompt, .snapshotted observed time⟩ := by
  by_cases same : other = key
  · subst same
    rw [AList.lookup_insert] at found
    obtain rfl := Option.some.inj found
    exact absurd rfl (fresh observed time)
  · rw [AList.lookup_insert_ne same] at found
    exact ⟨same, found⟩

theorem copies_erase {calls : HashMap ℕ Call} (other : ℕ) {call : Call}
    (found : (calls.erase key).lookup other = some call) : calls.lookup other = some call := by
  by_cases same : other = key
  · subst same
    rw [AList.lookup_erase] at found
    cases found
  · rwa [AList.lookup_erase_ne same] at found

/-- A call that moves between phases which count the same. -/
theorem Sound.move (sound : a.Sound) {call : Call} (found : a.dep.calls.lookup key = some call) {dep : ServingDeployment}
    {phase : Phase} (calls : dep.calls = a.dep.calls.insert key { call with phase })
    (inflight : inflightOf dep.observed = inflightOf a.dep.observed)
    (stages : ∀ slot, (phase.streams slot).toNat + (phase.closes slot).toNat =
      (call.phase.streams slot).toNat + (call.phase.closes slot).toNat)
    (fresh : ∀ observed time, phase ≠ .snapshotted observed time)
    (registry : dep.router.registry = a.dep.router.registry) (endpoints : dep.endpoints = a.dep.endpoints) :
    Sound { a with dep } := by
  refine sound.settle inflight (fun slot => ?_) (fun other prompt observed time listed => ?_) registry endpoints
  · have streams := stageCount_insert (Phase.streams slot) found { call with phase }
    have closes := stageCount_insert (Phase.closes slot) found { call with phase }
    have same := stages slot
    rw [calls]
    simp only at streams closes
    omega
  · rw [calls] at listed
    exact (copies_insert fresh other prompt observed time listed).2

/-- A call that ends before its counter is raised. -/
theorem Sound.abandon (sound : a.Sound) {call : Call} (found : a.dep.calls.lookup key = some call)
    (stages : ∀ slot, call.phase.streams slot = false ∧ call.phase.closes slot = false) :
    Sound { a with dep := a.dep.finish key } := by
  refine sound.settle rfl (fun slot => ?_) (fun other _ _ _ listed => copies_erase other listed) rfl rfl
  have streams := stageCount_erase (Phase.streams slot) found
  have closes := stageCount_erase (Phase.closes slot) found
  rw [(stages slot).1, Bool.toNat_false] at streams
  rw [(stages slot).2, Bool.toNat_false] at closes
  simp only [ServingDeployment.finish]
  omega

theorem Sound.snapshot (sound : a.Sound) (absent : a.dep.calls.lookup key = none) (prompt : List TokenId) (time : Millis) :
    Sound { a with
      dep := { a.dep with calls := a.dep.calls.insert key ⟨prompt, .snapshotted a.dep.observed time⟩ }
      taken := Function.update a.taken key a.now } where
  counted slot := by
    rw [stageCount_insert_new _ absent, stageCount_insert_new _ absent]
    simpa [Phase.streams, Phase.closes] using sound.counted slot
  now := sound.now
  taken other prompt observed time found := by
    simp only
    by_cases same : other = key
    · subst same
      rw [show AList.lookup other (a.dep.calls.insert other _) = some _ from AList.lookup_insert _] at found
      obtain ⟨-, rfl, -⟩ := by simpa using found
      rw [Function.update_self]
      exact sound.now
    · rw [show AList.lookup other (a.dep.calls.insert key _) = _ from AList.lookup_insert_ne same] at found
      rw [Function.update_of_ne same]
      exact sound.taken other prompt observed time found
  takenBefore other := by
    simp only
    by_cases same : other = key
    · subst same
      rw [Function.update_self]
      exact .refl _
    · rw [Function.update_of_ne same]
      exact sound.takenBefore other
  shown := sound.shown
  shownBefore := sound.shownBefore

theorem Sound.publish (sound : a.Sound) {prompt : List TokenId} {observed : HashMap ℕ Observed} {time : Millis}
    (found : a.dep.calls.lookup key = some ⟨prompt, .snapshotted observed time⟩) :
    Sound { a with
      dep := { a.dep with router := { a.dep.router with registry := a.dep.publishLoads observed time } }.setPhase key
        ⟨prompt, .snapshotted observed time⟩ (.published time)
      shown := a.taken key } := by
  have moved : Sound { a with dep := a.dep.setPhase key ⟨prompt, .snapshotted observed time⟩ (.published time) } :=
    sound.move found rfl rfl (fun _ => rfl) (fun _ _ => Phase.noConfusion) rfl rfl
  refine ⟨moved.counted, moved.now, moved.taken, moved.takenBefore, fun slot inside role => ?_, sound.takenBefore key⟩
  obtain ⟨load, registered, -⟩ := sound.shown slot inside role
  have published := registered_publishLoads a.dep observed time inside role
  rw [registered, Option.map_some] at published
  exact ⟨_, published, sound.taken key prompt observed time found slot⟩

theorem Sound.raise (sound : a.Sound) {prompt : List TokenId} {slot : ℕ}
    (found : a.dep.calls.lookup key = some ⟨prompt, .started slot⟩) :
    Sound { a with
      dep := { a.dep with observed := modify a.dep.observed slot .raise }.setPhase key ⟨prompt, .started slot⟩
        (.streaming slot none)
      now := a.now.raise slot } where
  counted other := by
    have streams := stageCount_insert (Phase.streams other) found ⟨prompt, .streaming slot none⟩
    have closes := stageCount_insert (Phase.closes other) found ⟨prompt, .streaming slot none⟩
    have before := sound.counted other
    simp only [ServingDeployment.setPhase, inflightOf_modify]
    by_cases same : other = slot
    · subst same
      simp [Phase.streams, Phase.closes] at streams closes
      rw [if_pos rfl]
      change inflightOf a.dep.observed other + 1 = _
      omega
    · simp [Phase.streams, Phase.closes, Ne.symm same] at streams closes
      rw [if_neg same]
      omega
  now other := by
    have before := sound.now other
    simp only [ServingDeployment.setPhase, inflightOf_modify, Tally.raise]
    by_cases same : other = slot
    · subst same
      rw [if_pos rfl, if_pos rfl]
      change _ = _ + (inflightOf a.dep.observed other + 1)
      omega
    · rw [if_neg same, if_neg same]
      exact before
  taken other prompt observed time listed := sound.taken other prompt observed time
    (copies_insert (fun _ _ => Phase.noConfusion) other prompt observed time listed).2
  takenBefore other := (sound.takenBefore other).trans (a.now.before_raise slot)
  shown := sound.shown
  shownBefore := sound.shownBefore.trans (a.now.before_raise slot)

theorem Sound.lower (sound : a.Sound) {prompt : List TokenId} {slot : ℕ}
    (found : a.dep.calls.lookup key = some ⟨prompt, .closing slot⟩) :
    Sound { a with
      dep := { a.dep with observed := modify a.dep.observed slot .lower }.finish key
      now := a.now.lower slot } := by
  -- the call that closes is itself counted, so the subtraction does not saturate
  have positive : 0 < inflightOf a.dep.observed slot := by
    have closes := stageCount_erase (Phase.closes slot) found
    have before := sound.counted slot
    simp [Phase.closes] at closes
    omega
  refine ⟨fun other => ?_, fun other => ?_, ?_, ?_, sound.shown, sound.shownBefore.trans (a.now.before_lower slot)⟩
  · have streams := stageCount_erase (Phase.streams other) found
    have closes := stageCount_erase (Phase.closes other) found
    have before := sound.counted other
    simp only [ServingDeployment.finish, inflightOf_modify]
    by_cases same : other = slot
    · subst same
      simp [Phase.streams, Phase.closes] at streams closes
      rw [if_pos rfl]
      change inflightOf a.dep.observed other - 1 = _
      omega
    · simp [Phase.streams, Phase.closes, Ne.symm same] at streams closes
      rw [if_neg same]
      omega
  · have before := sound.now other
    simp only [ServingDeployment.finish, inflightOf_modify, Tally.lower]
    by_cases same : other = slot
    · subst same
      rw [if_pos rfl, if_pos rfl]
      change _ = _ + (inflightOf a.dep.observed other - 1)
      omega
    · rw [if_neg same, if_neg same]
      exact before
  · exact fun other prompt observed time listed => sound.taken other prompt observed time (copies_erase other listed)
  · exact fun other => (sound.takenBefore other).trans (a.now.before_lower slot)

theorem Sound.step (sound : a.Sound) {label : ServingDeployment.Step} {b : Audited} (taken : a.step key label = some b) :
    b.Sound := by
  obtain ⟨dep, done, rfl⟩ := Option.map_eq_some_iff.mp taken
  cases label with
  | snapshot prompt time =>
    simp only [ServingDeployment.step] at done
    split at done
    next absent =>
      cases done
      exact sound.snapshot absent prompt time
    next => cases done
  | publish =>
    simp only [ServingDeployment.step] at done
    split at done
    next found =>
      cases done
      exact sound.publish found
    next => cases done
  | route orders =>
    simp only [ServingDeployment.step] at done
    split at done
    next prompt time found =>
      have ended : Sound { a with dep := a.dep.finish key } := sound.abandon found fun _ => ⟨rfl, rfl⟩
      split at done
      next =>
        cases done
        exact ended
      next =>
        split at done
        next =>
          cases done
          exact ended
        next slot _ =>
          cases done
          exact sound.move found rfl rfl (fun _ => rfl) (fun _ _ => Phase.noConfusion) rfl rfl
    next => cases done
  | startOk =>
    simp only [ServingDeployment.step] at done
    split at done
    next found =>
      cases done
      exact sound.move found rfl rfl (fun _ => rfl) (fun _ _ => Phase.noConfusion) rfl rfl
    next => cases done
  | startFailed | dropped =>
    simp only [ServingDeployment.step] at done
    split at done
    next found =>
      cases done
      exact sound.abandon found fun _ => ⟨rfl, rfl⟩
    next => cases done
  | raise =>
    simp only [ServingDeployment.step] at done
    split at done
    next found =>
      cases done
      simp only [note, found, Option.map_some]
      exact sound.raise found
    next => cases done
  | token time delivered =>
    simp only [ServingDeployment.step] at done
    split at done
    next prompt slot last found =>
      cases done
      refine sound.move found rfl ?_ (fun other => ?_) (fun _ _ => ?_) rfl rfl
      · cases last with
        | none => rfl
        | some previous =>
          funext other
          simp only [ServingDeployment.setPhase, inflightOf_modify]
          by_cases same : other = slot
          · subst same
            rw [if_pos rfl]
            rfl
          · rw [if_neg same]
      · cases delivered <;> simp [Phase.streams, Phase.closes]
      · cases delivered <;> exact Phase.noConfusion
    next => cases done
  | streamEnd =>
    simp only [ServingDeployment.step] at done
    split at done
    next prompt slot last found =>
      cases done
      exact sound.move found rfl rfl (fun _ => by simp [Phase.streams, Phase.closes]) (fun _ _ => Phase.noConfusion) rfl rfl
    next => cases done
  | lower =>
    simp only [ServingDeployment.step] at done
    split at done
    next found =>
      cases done
      simp only [note, found, Option.map_some]
      exact sound.lower found
    next => cases done

/-! ### Every run -/

variable {endpoints : ℕ} {tuning : RouterTuning} {ttftBudgetMs : Millis} {decodeCapHint : ℚ} {staleAfterMs : Millis}

/-- Two processes that nobody uses. -/
def pair : Option Audited :=
  match ServingDeployment.aggregated 2 ⟨0, 1, 0⟩ 100 8 1000 with
  | .error _ => none
  | .ok dep => some (fresh dep)

end Audited

end TrtLlm.Serving
