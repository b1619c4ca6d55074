import TrtLlm.Model.Engine.Interface
import TrtLlm.Model.KvCache.Pool
import TrtLlm.Model.Sched.Decode

/-! # The decode worker's loop

`DecodeWorker::run` of `crates/worker/src/decode_worker.rs`, one pass of its loop at a time. The loop's local
`pending` queue is part of the worker here. The engine's answers are inputs of the pass: one for each
`add_decode_seq` call, and one for the `decode_step` call, which may depend on what was just added.
-/

namespace TrtLlm.Worker

open KvCache Sched Engine

/-- A sequence whose prefill is done and whose KV has landed. -/
structure DecodeAdmit where
  id : RequestId
  firstToken : TokenId
  promptLen : ℕ
  maxTokens : ℕ
  firstTokenMs : Millis
deriving DecidableEq, Repr

inductive DecodeEvent where
  | token (id : RequestId) (token : TokenId)
  | finished (id : RequestId) (tokensEmitted : ℕ)
deriving DecidableEq, Repr

structure DecodeWorker where
  sched : DecodeScheduler
  pool : BlockPool
  kv : HashMap RequestId (List BlockId)
  blockSize : ℕ
  pending : List DecodeAdmit
deriving DecidableEq

/-- The inputs of one pass. -/
structure DecodeRound where
  jobs : List DecodeAdmit
  add : DecodeSeqSpec → Except Error Unit
  step : List DecodeSeqSpec → Except Error DecodeStepOutcome
  now : Millis

/-- What a pass shows outside: the sequences the engine took, the ones the worker retired, and the events to
send. -/
structure DecodeReport where
  added : List DecodeSeqSpec := []
  retired : List RunningSeq := []
  events : List DecodeEvent := []
deriving DecidableEq, Repr

namespace DecodeWorker

def new (sched : DecodeScheduler) (numBlocks blockSize : ℕ) (watermark : ℚ) : DecodeWorker where
  sched
  pool := .new numBlocks blockSize watermark
  kv := ∅
  blockSize
  pending := []

/-- Pages a job needs for its prompt and everything it may still produce. -/
def need (worker : DecodeWorker) (job : DecodeAdmit) : ℕ :=
  blocksFor (job.promptLen + job.maxTokens) worker.blockSize

def seqSpec (job : DecodeAdmit) (blocks : List BlockId) : DecodeSeqSpec :=
  ⟨job.id, job.promptLen, job.firstToken, job.maxTokens, blocks⟩

/-- Ask the scheduler about a job and record its answer. -/
def consult (worker : DecodeWorker) (job : DecodeAdmit) : AdmitDecision × DecodeWorker :=
  let decision := worker.sched.canAdmit (worker.pool.canAdmit (worker.need job))
  (decision, { worker with sched := worker.sched.note decision })

/-- The engine refused a sequence: its pages go back, and its job is dropped by the caller. -/
def undo (worker : DecodeWorker) (job : DecodeAdmit) (blocks : List BlockId) : DecodeWorker :=
  { worker with pool := worker.pool.release blocks, kv := worker.kv.erase job.id }

/-- The engine took a sequence. -/
def start (worker : DecodeWorker) (job : DecodeAdmit) : DecodeWorker :=
  { worker with sched := worker.sched.admitSeq (.new job.id job.firstTokenMs job.maxTokens) }

/-- The admission loop over the pending jobs. The first job that may not start ends it. -/
def admission (add : DecodeSeqSpec → Except Error Unit) :
    List DecodeAdmit → DecodeWorker → List DecodeSeqSpec × DecodeWorker
  | [], worker => ([], { worker with pending := [] })
  | job :: jobs, worker =>
    let consulted := worker.consult job
    if consulted.1 ≠ .admitSeq then ([], { consulted.2 with pending := job :: jobs })
    else
      match consulted.2.pool.alloc (worker.need job) with
      | (.error _, _) => ([], { consulted.2 with pending := job :: jobs })
      | (.ok blocks, pool) =>
        let held := { consulted.2 with pool, kv := consulted.2.kv.insert job.id blocks }
        match add (seqSpec job blocks) with
        | .error _ => admission add jobs (held.undo job blocks)
        | .ok () =>
          (seqSpec job blocks :: (admission add jobs (held.start job)).1, (admission add jobs (held.start job)).2)

/-- Give back the pages of one retired sequence. -/
def releasePages (worker : DecodeWorker) (seq : RunningSeq) : DecodeWorker :=
  match worker.kv.lookup seq.id with
  | some blocks => { worker with kv := worker.kv.erase seq.id, pool := worker.pool.release blocks }
  | none => worker

/-- What follows the engine's report of one decode step. -/
def settle (worker : DecodeWorker) (now : Millis) (step : DecodeStepOutcome) :
    List RunningSeq × List DecodeEvent × DecodeWorker :=
  let stepped := worker.sched.onStep now step.elapsedMs (step.tokens.map Prod.fst) step.finished
  (stepped.1,
    (step.tokens.map fun emitted => .token emitted.1 emitted.2) ++
      stepped.1.map fun seq => .finished seq.id seq.tokensEmitted,
    stepped.1.foldl releasePages { worker with sched := stepped.2 })

/-- Everything a pass does before it calls `decode_step`. -/
def admitted (worker : DecodeWorker) (input : DecodeRound) : List DecodeSeqSpec × DecodeWorker :=
  admission input.add (worker.pending ++ input.jobs) worker

/-- One pass of `run`'s loop, with every send accepted. -/
def round (worker : DecodeWorker) (input : DecodeRound) : DecodeReport × DecodeWorker :=
  let admitted := worker.admitted input
  if admitted.2.sched.concurrency = 0 then ({ added := admitted.1 }, admitted.2)
  else
    match input.step admitted.1 with
    | .error _ => ({ added := admitted.1 }, admitted.2)
    | .ok step =>
      let settled := admitted.2.settle input.now step
      ({ added := admitted.1, retired := settled.1, events := settled.2.1 }, settled.2.2)

end DecodeWorker

end TrtLlm.Worker
