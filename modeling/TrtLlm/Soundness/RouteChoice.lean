import Mathlib.Algebra.Order.Archimedean.Basic
import TrtLlm.Soundness.OrderFree
import TrtLlm.Soundness.RadixSurvivors
import TrtLlm.Soundness.SimRouting
import TrtLlm.ToMathlib.ScanMin

/-! # The pair a router picks

The prefill scan compares costs up to a tolerance. Its pool comes in order of the ids, so a tie never replaces the
choice, and what does replace it undercuts everything before it. The hit is the longest prefix of the prompt that the
index holds for the chosen worker, and decode goes to the roomiest worker.
-/

namespace TrtLlm.Routing

open KvCache

/-! ### Registries -/

/-- The calls that change a registry. -/
inductive RegistryOp where
  | register (worker : WorkerState)
  | deregister (id : WorkerId)
  | updateLoad (id : WorkerId) (load : WorkerLoad)

def RegistryOp.apply (registry : WorkerRegistry) : RegistryOp → WorkerRegistry
  | .register worker => registry.register worker
  | .deregister id => registry.deregister id
  | .updateLoad id load => registry.updateLoad id load

namespace WorkerRegistry

variable {registry : WorkerRegistry}

theorem Keyed.deregister (keyed : registry.Keyed) (id : WorkerId) : (registry.deregister id).Keyed := by
  intro other worker found
  change (registry.workers.erase id).lookup other = some worker at found
  exact keyed other worker (AList.lookup_of_erase found)

/-- In every registry that can be built, workers sit under their own ids. -/
theorem keyed_foldl (staleAfterMs : Millis) (changes : List RegistryOp) :
    (changes.foldl RegistryOp.apply (new staleAfterMs)).Keyed := by
  induction changes using List.reverseRecOn with
  | nil =>
    intro id worker found
    simp [new] at found
  | append_singleton changes change keyed =>
    rw [List.foldl_append]
    cases change with
    | register worker => exact keyed.register worker
    | deregister id => exact keyed.deregister id
    | updateLoad id load => exact keyed.updateLoad id load

theorem live_sorted (registry : WorkerRegistry) (role : WorkerRole) (now : Millis) :
    (registry.live role now).Pairwise fun a b => a.id ≤ b.id := by
  have sorted := List.pairwise_insertionSort (fun a b : WorkerState => a.id ≤ b.id)
    ((registry.workers.entries.map Sigma.snd).filter (registry.isLive role now))
  exact sorted

end WorkerRegistry

/-! ### The prefill scan -/

/-- Against a choice that is not behind in the order of ids, a tie does not count. -/
theorem Candidate.beats_iff {candidate best : Candidate} (behind : best.id ≤ candidate.id) :
    candidate.beats best = true ↔ candidate.cost < best.cost - 1 / 10 ^ 9 := by
  rw [beats, decide_eq_true_eq]
  constructor
  · rintro (undercut | ⟨-, lower⟩)
    · exact undercut
    · exact absurd lower (not_lt.mpr behind)
  · exact .inl

namespace Router

variable {router : Router}

/-- Tokens of a prompt that a worker need not compute. -/
def hitOf (router : Router) (prompt : List TokenId) (worker : WorkerState) : ℕ :=
  min (router.prefixIndex.matchWorker worker.id prompt) prompt.length

/-- The predicted cost of a prompt on a prefill worker. -/
def costOf (router : Router) (prompt : List TokenId) (worker : WorkerState) : Millis :=
  worker.load.queuedTokens / router.rateOf worker + (prompt.length - router.hitOf prompt worker) / router.rateOf worker +
    router.tuning.kvTransferMs

theorem hitOf_le (router : Router) (prompt : List TokenId) (worker : WorkerState) :
    router.hitOf prompt worker ≤ prompt.length := min_le_right _ _

theorem candidate_eq (router : Router) (prompt : List TokenId) (worker : WorkerState) :
    router.candidate (router.prefixIndex.matchWorkers prompt) prompt.length worker =
      ⟨router.costOf prompt worker, worker.id, router.hitOf prompt worker⟩ := by
  rw [costOf, ← Nat.cast_sub (router.hitOf_le prompt worker)]
  rfl

/-- Scanning candidates is scanning the workers they are of. -/
theorem bestPrefill_eq (router : Router) (overlaps : HashMap WorkerId ℕ) (promptLen : ℕ) (first : WorkerState)
    (pool : List WorkerState) :
    router.bestPrefill overlaps promptLen first pool = router.candidate overlaps promptLen
      (pool.foldl (fun best worker =>
        if (router.candidate overlaps promptLen worker).beats (router.candidate overlaps promptLen best) then worker
        else best) first) :=
  List.foldl_hom (router.candidate overlaps promptLen) fun _ _ => (apply_ite _ _ _ _).symm

/-- The scan of a pool in order of ids picks a worker that undercuts the ones before it and is within the tolerance of
the ones after it. -/
theorem bestPrefill_spec (router : Router) (prompt : List TokenId) {first : WorkerState} {pool : List WorkerState}
    (sorted : (first :: pool).Pairwise fun a b => a.id ≤ b.id) :
    ∃ best ∈ first :: pool,
      router.bestPrefill (router.prefixIndex.matchWorkers prompt) prompt.length first pool =
        ⟨router.costOf prompt best, best.id, router.hitOf prompt best⟩ ∧
      (∀ other ∈ first :: pool, router.costOf prompt best ≤ router.costOf prompt other + 1 / 10 ^ 9) ∧
      ∀ other ∈ first :: pool, other.id < best.id → router.costOf prompt best < router.costOf prompt other := by
  have replaces : (first :: pool).Pairwise fun earlier later =>
      ((router.candidate (router.prefixIndex.matchWorkers prompt) prompt.length later).beats
          (router.candidate (router.prefixIndex.matchWorkers prompt) prompt.length earlier) = true ↔
        router.costOf prompt later < router.costOf prompt earlier - 1 / 10 ^ 9) := by
    refine sorted.imp fun {earlier later} behind => ?_
    rw [candidate_eq, candidate_eq]
    exact Candidate.beats_iff behind
  have nonneg : (0 : ℚ) ≤ 1 / 10 ^ 9 := by norm_num
  have scanned := List.scanned_foldl nonneg first pool replaces
  rw [bestPrefill_eq]
  generalize List.foldl _ first pool = best at scanned ⊢
  obtain ⟨before, after, same, below, -⟩ := scanned.split
  refine ⟨best, by rw [same]; simp, router.candidate_eq prompt best, fun other member => scanned.le nonneg member, ?_⟩
  intro other member lower
  rw [same] at member sorted
  rcases List.mem_append.mp member with earlier | later
  · exact below other earlier
  · have behind := (List.pairwise_cons.mp (List.pairwise_append.mp sorted).2.1).1
    rcases List.mem_cons.mp later with rfl | later
    · exact absurd lower (lt_irrefl _)
    · exact absurd lower (not_lt.mpr (behind other later))

/-! ### The hit -/

/-- The index holds these tokens for a worker: the string of some node that carries the worker starts with them. -/
def Indexed (index : RadixIndex) (worker : WorkerId) (tokens : List TokenId) : Prop :=
  ∃ string i, index.Located string i ∧ worker ∈ (index.node i).workers ∧ tokens <+: string

theorem indexed_iff_covers {index : RadixIndex} {path : ℕ → List TokenId} (shape : index.Shape path) {worker : WorkerId}
    {tokens : List TokenId} : Indexed index worker tokens ↔ index.Covers path worker tokens := by
  constructor
  · rintro ⟨string, i, located, carried, begins⟩
    obtain ⟨inside, rfl⟩ := shape.located_iff.mp located
    exact ⟨i, inside, carried, begins⟩
  · rintro ⟨i, inside, carried, begins⟩
    exact ⟨path i, i, shape.located_iff.mpr ⟨inside, rfl⟩, carried, begins⟩

/-- The hit is the length of the longest prefix of the prompt that the index holds for the worker. -/
theorem le_hitOf_iff {path : ℕ → List TokenId} (shape : router.prefixIndex.Shape path) (prompt : List TokenId)
    (worker : WorkerState) (n : ℕ) :
    n ≤ router.hitOf prompt worker ↔
      n = 0 ∨ n ≤ prompt.length ∧ Indexed router.prefixIndex worker.id (prompt.take n) := by
  rw [hitOf, le_min_iff, shape.le_matchWorker_iff, indexed_iff_covers shape]
  constructor
  · exact And.left
  · rintro (rfl | held)
    · exact ⟨.inl rfl, Nat.zero_le _⟩
    · exact ⟨.inr held, held.1⟩

/-! ### The decision -/

/-- What a routing decision is: `prefill` and `decode` are the chosen workers. -/
structure Chosen (router : Router) (prompt : List TokenId) (now ttftBudgetMs : Millis) (decision : RoutingDecision)
    (prefill decode : WorkerState) : Prop where
  prefillLive : prefill ∈ router.registry.live .prefill now
  prefillId : decision.prefill = prefill.id
  cost : decision.predictedTtftMs = router.costOf prompt prefill
  nearLeast : ∀ other ∈ router.registry.live .prefill now,
    router.costOf prompt prefill ≤ router.costOf prompt other + 1 / 10 ^ 9
  lowerIds : ∀ other ∈ router.registry.live .prefill now, other.id < prefill.id →
    router.costOf prompt prefill < router.costOf prompt other
  hit : ∀ n, n ≤ decision.prefixHitTokens ↔
    n = 0 ∨ n ≤ prompt.length ∧ Indexed router.prefixIndex prefill.id (prompt.take n)
  late : decision.predictedLate = true ↔ ttftBudgetMs < decision.predictedTtftMs
  decodeLive : decode ∈ router.registry.live .decode now
  decodeId : decision.decode = decode.id
  roomiest : ∀ other ∈ router.registry.live .decode now,
    toLex (other.decodeHeadroom, toLex (-other.load.kvUtilisation, -(other.id : ℤ))) ≤
      toLex (decode.decodeHeadroom, toLex (-decode.load.kvUtilisation, -(decode.id : ℤ)))

instance : IsTrans WorkerState WorkerState.decodeLe := ⟨fun _ _ _ => le_trans⟩

instance : Std.Total WorkerState.decodeLe := ⟨fun _ _ => le_total _ _⟩

/-- With both pools non-empty, the choice from the pools listed by id. -/
theorem chosen_of_live (router : Router) {path : ℕ → List TokenId} (shape : router.prefixIndex.Shape path)
    (prompt : List TokenId) (now ttftBudgetMs : Millis) (live : ∀ role, router.registry.live role now ≠ []) :
    ∃ decision prefill decode,
      router.choose (fun role => router.registry.live role now) prompt ttftBudgetMs = .ok decision ∧
        router.Chosen prompt now ttftBudgetMs decision prefill decode := by
  obtain ⟨firstPrefill, prefills, prefillPool⟩ := List.exists_cons_of_ne_nil (live .prefill)
  obtain ⟨firstDecode, decodes, decodePool⟩ := List.exists_cons_of_ne_nil (live .decode)
  have sorted := router.registry.live_sorted .prefill now
  rw [prefillPool] at sorted
  obtain ⟨best, listed, scan, near, lower⟩ := router.bestPrefill_spec prompt sorted
  rw [choose, prefillPool, decodePool]
  simp only [scan]
  refine ⟨_, best, roomiest firstDecode decodes, rfl, ?_⟩
  rw [← prefillPool] at listed near lower
  refine ⟨listed, rfl, rfl, near, lower, router.le_hitOf_iff shape prompt best, decide_eq_true_iff, ?_, rfl, ?_⟩
  · rw [decodePool]
    exact roomiest_mem firstDecode decodes
  · rw [decodePool]
    exact @List.le_foldl_of_total _ WorkerState.decodeLe _ _ _ firstDecode decodes

/-- For every registry and prefix index that can be built, a prompt is routed to the best pair of live workers, in
whatever order the registry is iterated. -/
theorem route_picks_best (staleAfterMs : Millis) (changes : List RegistryOp) {minPrefixTokens maxNodes : ℕ}
    {ops : List RadixIndex.Op} {index : RadixIndex}
    (built : Machine.Run (RadixIndex.system minPrefixTokens maxNodes) ops index)
    (tuning : RouterTuning) (prompt : List TokenId) (now ttftBudgetMs : Millis)
    (live : ∀ role, (changes.foldl RegistryOp.apply (.new staleAfterMs)).live role now ≠ []) :
    ∃ decision prefill decode,
      Chosen ⟨changes.foldl RegistryOp.apply (.new staleAfterMs), index, tuning⟩ prompt now ttftBudgetMs decision prefill
          decode ∧
        ∀ order : WorkerRole → IterOrder,
          routeIn order ⟨changes.foldl RegistryOp.apply (.new staleAfterMs), index, tuning⟩ prompt now ttftBudgetMs =
            .ok decision := by
  have keyed := WorkerRegistry.keyed_foldl staleAfterMs changes
  generalize changes.foldl RegistryOp.apply (.new staleAfterMs) = registry at live keyed ⊢
  obtain ⟨path, shape, -⟩ := RadixIndex.sound_of_run built
  obtain ⟨decision, prefill, decode, picked, chosen⟩ :=
    chosen_of_live ⟨registry, index, tuning⟩ shape prompt now ttftBudgetMs live
  refine ⟨decision, prefill, decode, chosen, fun order => picked.symm ▸ ?_⟩
  rw [routeIn]
  congr 1
  funext role
  exact keyed.live_rehash (order role) .stored role now

/-- Two prefill workers, the second with less queued, and one that decodes. -/
def twoPrefills : List RegistryOp :=
  [.register ⟨1, .prefill, true, { queuedTokens := 100, tokensPerMs := 10 }⟩,
    .register ⟨2, .prefill, true, { queuedTokens := 50, tokensPerMs := 10 }⟩,
    .register ⟨7, .decode, true, { decodeCap := 4 }⟩]

theorem route_picks_best_twoPrefills :
    ∃ decision, decision.prefill = 2 ∧ ∀ order : WorkerRole → IterOrder,
      routeIn order ⟨twoPrefills.foldl RegistryOp.apply (.new 1000), .new 0 8, ⟨5, 1, 0⟩⟩ [1, 2, 3] 0 3000 =
        .ok decision := by
  have live : ∀ role, (twoPrefills.foldl RegistryOp.apply (.new 1000)).live role 0 ≠ [] := by
    rintro (_ | _) <;> decide +kernel
  have built : Machine.Run (RadixIndex.system 0 8) [] (.new 0 8) := .start rfl
  obtain ⟨decision, prefill, decode, -, routed⟩ := route_picks_best 1000 twoPrefills built ⟨5, 1, 0⟩ [1, 2, 3] 0 3000 live
  have here : (routeIn (fun _ => .stored) ⟨twoPrefills.foldl RegistryOp.apply (.new 1000), .new 0 8, ⟨5, 1, 0⟩⟩ [1, 2, 3] 0
      3000).toOption.map (·.prefill) = some 2 := by decide +kernel
  rw [routed] at here
  exact ⟨decision, Option.some.inj here, routed⟩

end Router

end TrtLlm.Routing
