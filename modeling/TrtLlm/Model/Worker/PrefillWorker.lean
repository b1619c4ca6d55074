import TrtLlm.Model.Engine.Interface
import TrtLlm.Model.KvCache.Pool
import TrtLlm.Model.Sched.Prefill

/-! # The prefill worker's loop

`PrefillWorker::run` of `crates/worker/src/prefill_worker.rs`, one pass of its loop at a time. The jobs
a pass drains, its clock readings, the engine's answer and whether the receiver of its completions is
still there are the inputs of the pass. A pass that finds nothing to do, or cannot get pages even for its
first chunk, changes the worker only as far as it got.
-/

namespace TrtLlm.Worker

open KvCache Sched Engine

/-- A request handed to a prefill worker. -/
structure PrefillJob where
  id : RequestId
  prompt : List TokenId
  deadlineMs : Millis
  arrivalMs : Millis
deriving DecidableEq, Repr

/-- What the worker emits when a prefill finishes. -/
structure PrefillComplete where
  id : RequestId
  firstToken : TokenId
  promptLen : ℕ
  finishedAtMs : Millis
deriving DecidableEq, Repr

structure PrefillWorker where
  sched : PrefillScheduler
  pool : BlockPool
  blockSize : ℕ
  prompts : HashMap RequestId (List TokenId)
  kv : HashMap RequestId (List BlockId)
deriving DecidableEq

/-- The inputs of one pass. -/
structure PrefillRound where
  jobs : List PrefillJob
  now : Millis
  answer : PrefillWork → Except Error PrefillOutcome
  doneAt : Millis
  outOpen : Bool

/-- What a pass shows outside: the work of a `prefill` call that returned `Ok`, the completions that were
sent, and whether the loop returned because a send failed. -/
structure PrefillReport where
  passed : PrefillWork := []
  sent : List PrefillComplete := []
  returned : Bool := false
deriving DecidableEq, Repr

namespace PrefillWorker

def new (tuning : PrefillTuning) (numBlocks blockSize : ℕ) (watermark : ℚ) : PrefillWorker where
  sched := .new tuning
  pool := .new numBlocks blockSize watermark
  blockSize
  prompts := ∅
  kv := ∅

def enqueue (worker : PrefillWorker) (job : PrefillJob) : PrefillWorker :=
  { worker with
    prompts := worker.prompts.insert job.id job.prompt
    sched := worker.sched.enqueue ⟨job.id, job.arrivalMs, job.deadlineMs, job.prompt.length, 0⟩ }

def accept (worker : PrefillWorker) (jobs : List PrefillJob) : PrefillWorker := jobs.foldl enqueue worker

/-- Pages already holding computed KV for a request. -/
def held (worker : PrefillWorker) (id : RequestId) : List BlockId := (worker.kv.lookup id).getD []

/-- One past the last prompt position a chunk computes. -/
def stop (prompt : List TokenId) (chunk : PrefillChunk) : ℕ := min (chunk.start + chunk.tokens) prompt.length

/-- Pages a chunk needs beyond those its request holds. -/
def extraPages (worker : PrefillWorker) (prompt : List TokenId) (chunk : PrefillChunk) : ℕ :=
  blocksFor (stop prompt chunk) worker.blockSize - (worker.held chunk.id).length

/-- Take pages for a request, if the watermark leaves room for them. -/
def acquire (worker : PrefillWorker) (id : RequestId) (extra : ℕ) : Option PrefillWorker :=
  if extra = 0 then some worker
  else if worker.pool.canAdmit extra then
    match worker.pool.alloc extra with
    | (.ok blocks, pool) => some { worker with pool, kv := worker.kv.insert id (worker.held id ++ blocks) }
    | (.error _, _) => none
  else none

def chunkSpec (worker : PrefillWorker) (prompt : List TokenId) (chunk : PrefillChunk) : PrefillChunkSpec where
  id := chunk.id
  tokens := (prompt.take (stop prompt chunk)).drop chunk.start
  start := chunk.start
  promptLen := prompt.length
  completes := chunk.completes
  kvBlocks := worker.held chunk.id

/-- Resolve planned chunks into tokens and pages. The first chunk that cannot get pages ends the loop. -/
def resolve : List PrefillChunk → PrefillWorker → PrefillWork × PrefillWorker
  | [], worker => ([], worker)
  | chunk :: chunks, worker =>
    match worker.prompts.lookup chunk.id with
    | none => resolve chunks worker
    | some prompt =>
      match worker.acquire chunk.id (worker.extraPages prompt chunk) with
      | none => ([], worker)
      | some paged => (paged.chunkSpec prompt chunk :: (resolve chunks paged).1, (resolve chunks paged).2)

/-- Give back the pages of one finished request. -/
def releasePages (worker : PrefillWorker) (id : RequestId) : PrefillWorker :=
  match worker.kv.lookup id with
  | some blocks => { worker with kv := worker.kv.erase id, pool := worker.pool.release blocks }
  | none => worker

def dropPrompt (worker : PrefillWorker) (id : RequestId) : PrefillWorker :=
  { worker with prompts := worker.prompts.erase id }

/-- The two closing loops of a pass. -/
def forget (worker : PrefillWorker) (finished : List RequestId) : PrefillWorker :=
  finished.foldl dropPrompt (finished.foldl releasePages worker)

def completion (worker : PrefillWorker) (doneAt : Millis) (first : RequestId × TokenId) : PrefillComplete where
  id := first.1
  firstToken := first.2
  promptLen := ((worker.prompts.lookup first.1).map List.length).getD 0
  finishedAtMs := doneAt

/-- What follows an `Ok` answer: the planned batch is booked, completions are sent, and the finished
requests give up their pages and prompts. -/
def settle (worker : PrefillWorker) (input : PrefillRound) (batch : PrefillBatch) (work : PrefillWork)
    (outcome : PrefillOutcome) : PrefillReport × PrefillWorker :=
  let completed := worker.sched.complete batch outcome.elapsedMs
  let booked := { worker with sched := completed.2 }
  let completions := outcome.firstTokens.map (booked.completion input.doneAt)
  if !input.outOpen ∧ completions ≠ [] then ({ passed := work, returned := true }, booked)
  else ({ passed := work, sent := completions }, booked.forget completed.1)

/-- The batch of a pass, and the worker after queueing and planning. -/
def planned (worker : PrefillWorker) (input : PrefillRound) : PrefillBatch × PrefillWorker :=
  let queued := worker.accept input.jobs
  ((queued.sched.plan input.now).1, { queued with sched := (queued.sched.plan input.now).2 })

/-- The planned batch as the pool lets it run, and the worker holding its pages. -/
def resolved (worker : PrefillWorker) (input : PrefillRound) : PrefillWork × PrefillWorker :=
  resolve (worker.planned input).1.chunks (worker.planned input).2

/-- One pass of `run`'s loop. An empty batch resolves to no work, like one that gets no pages. -/
def round (worker : PrefillWorker) (input : PrefillRound) : PrefillReport × PrefillWorker :=
  if (worker.resolved input).1 = [] then ({}, (worker.resolved input).2)
  else
    match input.answer (worker.resolved input).1 with
    | .error _ => ({}, (worker.resolved input).2)
    | .ok outcome =>
      (worker.resolved input).2.settle input (worker.planned input).1 (worker.resolved input).1 outcome

end PrefillWorker

end TrtLlm.Worker
