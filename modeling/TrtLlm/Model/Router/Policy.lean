import Mathlib.Data.Prod.Lex
import TrtLlm.Model.KvCache.Radix
import TrtLlm.Model.Router.Registry

/-! # Routing

`Router` of `crates/router/src/policy.rs`: pick the prefill worker with the smallest predicted time to first token
and the decode worker with the most room.
-/

namespace TrtLlm.Routing

open KvCache

inductive RoutingError where
  | noPrefillWorker
  | noDecodeWorker
deriving DecidableEq, Repr

def RoutingError.asStr : RoutingError → String
  | .noPrefillWorker => "no healthy prefill worker"
  | .noDecodeWorker => "no healthy decode worker"

/-- The chosen pair plus the arithmetic that chose them. -/
structure RoutingDecision where
  prefill : WorkerId
  decode : WorkerId
  prefixHitTokens : ℕ
  predictedTtftMs : Millis
  predictedLate : Bool
deriving DecidableEq, Repr

structure RouterTuning where
  kvTransferMs : Millis
  defaultTokensPerMs : ℚ
  minPrefixTokens : ℕ
deriving DecidableEq, Repr

structure Router where
  registry : WorkerRegistry
  prefixIndex : RadixIndex
  tuning : RouterTuning
deriving DecidableEq

/-- The best prefill worker so far: its cost, its id and the tokens it already holds. -/
structure Candidate where
  cost : Millis
  id : WorkerId
  hit : ℕ
deriving DecidableEq, Repr

/-- Costs within `1e-9` are a tie, which goes to the lower worker id. -/
def Candidate.beats (candidate best : Candidate) : Bool :=
  candidate.cost < best.cost - 1 / 10 ^ 9 ∨ (|candidate.cost - best.cost| ≤ 1 / 10 ^ 9 ∧ candidate.id < best.id)

/-- The order decode workers are compared in: headroom, then the emptier KV pool, then the lower id. -/
def WorkerState.decodeLe (a b : WorkerState) : Prop :=
  toLex (a.decodeHeadroom, toLex (-a.load.kvUtilisation, -(a.id : ℤ))) ≤
    toLex (b.decodeHeadroom, toLex (-b.load.kvUtilisation, -(b.id : ℤ)))

instance : DecidableRel WorkerState.decodeLe := fun a b =>
  inferInstanceAs (Decidable (toLex (a.decodeHeadroom, toLex (-a.load.kvUtilisation, -(a.id : ℤ))) ≤
    toLex (b.decodeHeadroom, toLex (-b.load.kvUtilisation, -(b.id : ℤ)))))

/-- The last maximum of a pool, as `max_by` has it. -/
def roomiest (first : WorkerState) (pool : List WorkerState) : WorkerState :=
  pool.foldl (fun best worker => if best.decodeLe worker then worker else best) first

namespace Router

def new (registry : WorkerRegistry) (tuning : RouterTuning) : Router :=
  ⟨registry, .new tuning.minPrefixTokens 65536, tuning⟩

/-- The rate a worker reports, or the default before it has reported one. -/
def rateOf (router : Router) (worker : WorkerState) : ℚ :=
  if 0 < worker.load.tokensPerMs then worker.load.tokensPerMs else router.tuning.defaultTokensPerMs

/-- What running the prompt on a prefill worker would cost. -/
def candidate (router : Router) (overlaps : HashMap WorkerId ℕ) (promptLen : ℕ) (worker : WorkerState) :
    Candidate :=
  let rate := router.rateOf worker
  let hit := min ((overlaps.lookup worker.id).getD 0) promptLen
  let compute := promptLen - hit
  let wait := worker.load.queuedTokens / rate
  ⟨wait + compute / rate + router.tuning.kvTransferMs, worker.id, hit⟩

/-- The loop over the prefill pool; its first worker is better than none. -/
def bestPrefill (router : Router) (overlaps : HashMap WorkerId ℕ) (promptLen : ℕ) (first : WorkerState)
    (pool : List WorkerState) : Candidate :=
  pool.foldl (fun best worker =>
    let next := router.candidate overlaps promptLen worker
    if next.beats best then next else best) (router.candidate overlaps promptLen first)

/-- Pick a prefill and a decode worker for one prompt; `pool` is what the registry lists for each role. -/
def choose (router : Router) (pool : WorkerRole → List WorkerState) (prompt : List TokenId)
    (ttftBudgetMs : Millis) : Except RoutingError RoutingDecision :=
  match pool .prefill, pool .decode with
  | [], _ => .error .noPrefillWorker
  | _ :: _, [] => .error .noDecodeWorker
  | firstPrefill :: prefills, firstDecode :: decodes =>
    let overlaps := router.prefixIndex.matchWorkers prompt
    let best := router.bestPrefill overlaps prompt.length firstPrefill prefills
    .ok ⟨best.id, (roomiest firstDecode decodes).id, best.hit, best.cost, decide (ttftBudgetMs < best.cost)⟩

/-- Route one prompt; the registry is iterated once for each role. -/
def routeIn (order : WorkerRole → IterOrder) (router : Router) (prompt : List TokenId) (now ttftBudgetMs : Millis) :
    Except RoutingError RoutingDecision :=
  router.choose (fun role => (router.registry.rehash (order role)).live role now) prompt ttftBudgetMs

/-- Tell the index that a worker now holds this prompt's KV. -/
def notePrefill (router : Router) (worker : WorkerId) (prompt : List TokenId) (now : Millis) : Router :=
  { router with prefixIndex := router.prefixIndex.insert worker prompt now }

end Router

end TrtLlm.Routing
