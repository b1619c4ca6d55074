import TrtLlm.Model.PyExt.Decide
import TrtLlm.Model.Sched.ItlController
import TrtLlm.ToMathlib.AListRetain
import Mathlib.Data.Rat.Floor

/-! # The scheduler object behind the Python extension

`RustScheduler` of `crates/pyext/src/lib.rs`. The environment variable that picks the decode order
is an argument of `new`; an `Err` becomes a `ValueError` in Python.
-/

namespace TrtLlm.PyExt

open Sched

/-- How many consecutive absent steps before an id is forgotten. -/
def ledgerForgetSteps : ℕ := 10000

/-- One request's presence history. -/
structure LedgerEntry where
  lastSeenMs : Millis
  stepsAbsent : ℕ
deriving DecidableEq, Repr

structure RustScheduler where
  maxBatchSize : ℕ
  maxNumTokens : ℕ
  kvTotalBlocks : ℕ
  itlBudgetMs : Millis
  decodeOrder : DecodeOrder
  ledger : HashMap ℤ LedgerEntry
  kvWatermarkBlocks : ℕ
  controller : ItlController
  admittedTotal : ℕ
  pausedTotal : ℕ
  stepsObserved : ℕ
  lastKvFreeBlocks : ℕ
  lastNowMs : Millis
deriving DecidableEq

/-- The flat arrays of one `decide` call. -/
structure DecideArgs where
  ids : List ℤ
  isContext : List Bool
  promptLens : List ℕ
  contextDoneTokens : List ℕ
  tokensGenerated : List ℕ
  maxNewTokens : List ℕ
  arrivalMs : List Millis
  inflight : List ℤ
  kvFreeBlocks : ℕ
  nowMs : Millis
deriving DecidableEq, Repr

namespace RustScheduler

/-- Only the value `arrival` of `TRTLLM_RS_DECODE_ORDER` leaves the default. -/
def decodeOrderOf (setting : Option String) : DecodeOrder :=
  if setting = some "arrival" then .arrival else .slack

def new (maxBatchSize maxNumTokens : ℕ) (itlBudgetMs : Millis) (kvTotalBlocks : ℕ)
    (orderSetting : Option String) : RustScheduler where
  maxBatchSize
  maxNumTokens
  kvTotalBlocks
  itlBudgetMs
  decodeOrder := decodeOrderOf orderSetting
  ledger := ∅
  kvWatermarkBlocks := kvTotalBlocks / 20
  controller := .new itlBudgetMs (max maxBatchSize 1 : ℕ) 1 (max maxBatchSize 1 : ℕ)
  admittedTotal := 0
  pausedTotal := 0
  stepsObserved := 0
  lastKvFreeBlocks := kvTotalBlocks
  lastNowMs := 0

/-- `cap().max(0.0) as usize`. -/
def generationCap (sched : RustScheduler) : ℕ := ⌊max sched.controller.cap 0⌋₊

def decideInput (sched : RustScheduler) (args : DecideArgs) : DecideInput where
  ids := args.ids
  isContext := args.isContext
  promptLens := args.promptLens
  contextDoneTokens := args.contextDoneTokens
  arrivalMs := args.arrivalMs
  inflight := args.inflight
  maxBatchSize := sched.maxBatchSize
  maxNumTokens := sched.maxNumTokens
  tokensGenerated := args.tokensGenerated
  maxNewTokens := args.maxNewTokens
  nowMs := args.nowMs
  itlBudgetMs := sched.itlBudgetMs
  decodeOrder := sched.decodeOrder
  kvFreeBlocks := args.kvFreeBlocks
  kvWatermarkBlocks := sched.kvWatermarkBlocks
  generationCap := sched.generationCap

/-- Record who was handed over this step, and age everyone who was not. -/
def updateLedger (sched : RustScheduler) (ids : List ℤ) (nowMs : Millis) : RustScheduler :=
  let seen := ids.foldl (fun ledger id => ledger.insert id ⟨nowMs, 0⟩) sched.ledger
  let age (id : ℤ) (entry : LedgerEntry) : Option LedgerEntry :=
    if id ∈ ids then some entry
    else if entry.stepsAbsent + 1 ≤ ledgerForgetSteps then
      some { entry with stepsAbsent := entry.stepsAbsent + 1 }
    else none
  { sched with ledger := seen.retain age }

/-- Requests seen before that were not among this step's candidates, and the longest absence. -/
def absent (sched : RustScheduler) (nowMs : Millis) : ℕ × Millis :=
  let away := (sched.ledger.entries.map Sigma.snd).filter fun entry => 0 < entry.stepsAbsent
  (away.length, (away.map fun entry => nowMs - entry.lastSeenMs).foldl max 0)

/-- The lengths `decide` validates, with the names it reports. -/
def argLengths (args : DecideArgs) : List (String × ℕ) :=
  [("is_context", args.isContext.length), ("prompt_lens", args.promptLens.length),
    ("context_done_tokens", args.contextDoneTokens.length), ("tokens_generated", args.tokensGenerated.length),
    ("max_new_tokens", args.maxNewTokens.length), ("arrival_ms", args.arrivalMs.length)]

/-- One capacity decision. A length mismatch is an error and changes nothing. -/
def decide (sched : RustScheduler) (args : DecideArgs) : Except String (List ℕ × List ℕ) × RustScheduler :=
  match validateLengths args.ids.length (argLengths args) with
  | .error message => (.error message, sched)
  | .ok _ =>
    let (fitting, paused) := decideIndices (sched.decideInput args)
    let next := sched.updateLedger args.ids args.nowMs
    (.ok (fitting, paused),
      { next with
        admittedTotal := next.admittedTotal + fitting.length
        pausedTotal := next.pausedTotal + paused.length
        lastKvFreeBlocks := args.kvFreeBlocks
        lastNowMs := args.nowMs })

/-- Feed one measured step time back to the controller. -/
def observe (sched : RustScheduler) (stepMs : Millis) (concurrency : ℕ) : RustScheduler :=
  { sched with
    controller := sched.controller.observe stepMs concurrency
    stepsObserved := sched.stepsObserved + 1 }

def stats (sched : RustScheduler) : HashMap String ℚ :=
  let (absent, absentMaxMs) := sched.absent sched.lastNowMs
  let entries : List (String × ℚ) :=
    [("admitted", sched.admittedTotal), ("refused", sched.pausedTotal), ("cap", sched.controller.cap),
      ("finish_disagreements", 0), ("observed_itl_ms", sched.controller.observedItlMs),
      ("samples", sched.controller.samples), ("absent", absent), ("absent_max_ms", absentMaxMs),
      ("tracked", sched.ledger.entries.length),
      ("concurrency_not_binding", if sched.controller.concurrencyNotBinding then 1 else 0),
      ("steps_observed", sched.stepsObserved), ("kv_total_blocks", sched.kvTotalBlocks),
      ("kv_free_blocks_last", sched.lastKvFreeBlocks), ("last_now_ms", sched.lastNowMs)]
  entries.foldl (fun m entry => m.insert entry.1 entry.2) ∅

end RustScheduler

end TrtLlm.PyExt
