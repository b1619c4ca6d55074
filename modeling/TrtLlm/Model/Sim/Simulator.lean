import Mathlib.Data.Fin.Basic
import Mathlib.Data.Finset.Card
import Mathlib.Data.List.FinRange
import TrtLlm.Model.Core.Stats
import TrtLlm.Model.Engine.Cost
import TrtLlm.Model.KvCache.Pool
import TrtLlm.Model.Router.Policy
import TrtLlm.Model.Sched.Iteration
import TrtLlm.Model.Sim.Events

/-! # The discrete-event simulator

`Simulator` of `crates/sim/src/sim.rs`. The configuration is a parameter, so the two vectors of workers are functions on
the indices of the topology. A handler that panics answers `none`. Every iteration over a hash map has its order as an
input; `horizon_ms` and `calibrated_concurrency` are constants of the configuration.
-/

namespace TrtLlm.Sim

open Engine KvCache Routing Sched

/-- `DECODE_ID_BASE`. -/
def decodeIdBase : ℕ := 1000

structure PrefillWorkerSim where
  sched : PrefillScheduler
  curve : PrefillCurve
  busy : Bool
  batch : Option (PrefillBatch × Millis)
  busyMs : ℚ
deriving DecidableEq

/-- Fold the batch of a worker back into its queue; the worker is idle then. -/
def PrefillWorkerSim.finishBatch (worker : PrefillWorkerSim) (batch : PrefillBatch) (elapsedMs : Millis) :
    List RequestId × PrefillWorkerSim :=
  let (finished, sched) := worker.sched.complete batch elapsedMs
  (finished, { worker with sched, busy := false, batch := none })

structure DecodeWorkerSim where
  sched : DecodeScheduler
  curve : DecodeCurve
  pending : List RequestId
  stepping : Bool
  freeBlocks : ℕ
  totalBlocks : ℕ
  watermarkBlocks : ℕ
  held : HashMap RequestId ℕ
deriving DecidableEq

structure ReqState (topology : TopologyConfig) where
  client : ℕ
  arrivalMs : Millis
  promptLen : ℕ
  osl : ℕ
  decodeWorker : Fin topology.decodeWorkers
  firstTokenMs : Option Millis
  lastTokenMs : Millis
deriving DecidableEq, Repr

/-- The orders in which one event's handler iterates the hash maps it touches. -/
structure EventOrders where
  /-- `queued_tokens` of each prefill worker. -/
  queue : ℕ → IterOrder
  /-- The registry, once for each role. -/
  registry : WorkerRole → IterOrder
  /-- `tightest_tolerance_ms` in each turn of the admission loop. -/
  tolerances : ℕ → IterOrder
  step : DecodeScheduler.StepOrders
  /-- The running ids after the step. -/
  attached : IterOrder

def EventOrders.stored : EventOrders := ⟨fun _ => .stored, fun _ => .stored, fun _ => .stored, .stored, .stored⟩

/-- Pages a request reserves on its decode worker. -/
def blocksNeeded (cfg : Config) (r : ReqState cfg.topology) : ℕ := blocksFor (r.promptLen + r.osl) cfg.kv.blockSize

namespace DecodeWorkerSim

/-- Take a sequence that was just admitted. -/
def take (worker : DecodeWorkerSim) (id : RequestId) (need : ℕ) (first now : Millis) (osl : ℕ) : DecodeWorkerSim :=
  { worker with
    freeBlocks := worker.freeBlocks - need
    held := worker.held.insert id need
    sched := worker.sched.admitAt { RunningSeq.new id first osl with lastTokenMs := now } now }

/-- The loop of `admit_decode`: take pending requests until one is refused. Unknown ids are dropped, and a request
without a first token panics. -/
def admitLoop {cfg : Config} (reqs : HashMap RequestId (ReqState cfg.topology)) (now : Millis)
    (tolerances : ℕ → IterOrder) : ℕ → List RequestId → DecodeWorkerSim → Option DecodeWorkerSim
  | _, [], worker => some { worker with pending := [] }
  | turn, id :: pending, worker =>
    match reqs.lookup id with
    | none => admitLoop reqs now tolerances (turn + 1) pending worker
    | some r =>
      let need := blocksNeeded cfg r
      let headroom := decide (need + worker.watermarkBlocks ≤ worker.freeBlocks)
      let decision := (worker.sched.rehash (tolerances turn)).canAdmit headroom
      let noted := { worker with sched := worker.sched.note decision }
      if decision = .admitSeq then
        match r.firstTokenMs with
        | none => none
        | some first => admitLoop reqs now tolerances (turn + 1) pending (noted.take id need first now r.osl)
      else some { noted with pending := id :: pending }

/-- Return the pages a sequence holds. -/
def giveBack (worker : DecodeWorkerSim) (id : RequestId) : DecodeWorkerSim :=
  match worker.held.lookup id with
  | some blocks => { worker with held := worker.held.erase id, freeBlocks := worker.freeBlocks + blocks }
  | none => worker

end DecodeWorkerSim

structure Simulator (cfg : Config) where
  now : Millis
  heap : List (Scheduled cfg.topology)
  seq : ℕ
  nextId : ℕ
  reqs : HashMap RequestId (ReqState cfg.topology)
  prefill : Fin cfg.topology.prefillWorkers → PrefillWorkerSim
  decode : Fin cfg.topology.decodeWorkers → DecodeWorkerSim
  router : Router
  xferBusy : ℕ
  xferQueue : List (RequestId × Fin cfg.topology.decodeWorkers)
  outcomes : List RequestOutcome
  issued : ℕ
  batches : ℕ
  batchSeqs : ℕ
  batchTokens : ℕ
  deadlineLimited : ℕ
  demotedSamples : List ℚ
  concurrencySamples : List ℚ
  peakConcurrency : ℕ
  queueDepthSamples : List ℚ

/-- Residual KV handoff cost for one request. -/
def kvTransferMs (cfg : Config) : Millis :=
  let bytesPerToken : ℚ := 2 * cfg.model.numLayers * cfg.model.numKvHeads * cfg.model.headDim
  let bytes := bytesPerToken * cfg.workload.isl
  1 / 2 + bytes / (cfg.calibration.kvXferGibS * 1024 * 1024 * 1024) * 1000

/-! ### Set-up -/

def prefillCurve (cfg : Config) : PrefillCurve :=
  .forWorker cfg.calibration.prefill cfg.topology.prefillTp cfg.topology.prefillTp

def decodeCurve (cfg : Config) : DecodeCurve := .fromCalibration cfg.calibration.decode cfg.topology.decodeTp

def initialCap (cfg : Config) : ℚ := cfg.calibration.decode.concurrencyPerGpu * cfg.topology.decodeTp

def PrefillWorkerSim.new (cfg : Config) : PrefillWorkerSim where
  sched := .new
    { chunkTokens := cfg.scheduler.chunkedPrefillTokens
      maxSeqs := cfg.scheduler.maxPrefillSeqs
      policy := cfg.scheduler.prefillPolicy
      demoteHopeless := cfg.scheduler.demoteHopeless
      tokensPerMs := (prefillCurve cfg).tokensPerMs
      rateAlpha := 2 / 10 }
  curve := prefillCurve cfg
  busy := false
  batch := none
  busyMs := 0

/-- The scheduler of a decode worker; speculation books the draft tokens too. -/
def newDecodeScheduler (cfg : Config) : DecodeScheduler :=
  let sched := DecodeScheduler.new cfg.slo.itlMs
    (.new (cfg.slo.itlMs * cfg.scheduler.itlSafety) (initialCap cfg) 8 cfg.scheduler.maxDecodeSeqs)
  if cfg.speculation.enabled then sched.setTokensPerStep (1 + cfg.speculation.draftTokens) else sched

def DecodeWorkerSim.new (cfg : Config) : DecodeWorkerSim where
  sched := newDecodeScheduler cfg
  curve := decodeCurve cfg
  pending := []
  stepping := false
  freeBlocks := cfg.kv.numBlocks
  totalBlocks := cfg.kv.numBlocks
  watermarkBlocks := ⌈cfg.kv.numBlocks * cfg.kv.admissionWatermark⌉₊
  held := ∅

def newRegistry (cfg : Config) : WorkerRegistry :=
  let prefills := (List.range cfg.topology.prefillWorkers).foldl (fun registry i =>
    registry.register
      ⟨i, .prefill, true, { tokensPerMs := (prefillCurve cfg).tokensPerMs }⟩) (.new 60000)
  (List.range cfg.topology.decodeWorkers).foldl (fun registry j =>
    registry.register ⟨decodeIdBase + j, .decode, true, { decodeCap := initialCap cfg }⟩) prefills

def newRouter (cfg : Config) : Router :=
  let poolRate := (prefillCurve cfg).tokensPerMs * cfg.topology.prefillWorkers
  .new (newRegistry cfg)
    { kvTransferMs := kvTransferMs cfg
      defaultTokensPerMs := poolRate / (max cfg.topology.prefillWorkers 1 : ℕ)
      minPrefixTokens := 256 }

def windowStart (cfg : Config) : Millis := cfg.workload.warmupS * 1000

def windowEnd (cfg : Config) : Millis := windowStart cfg + cfg.workload.benchmarkS * 1000

def horizonMs (cfg : Config) : Millis := windowEnd cfg + cfg.workload.graceS * 1000

namespace Simulator

variable {cfg : Config}

def new (cfg : Config) : Simulator cfg where
  now := 0
  heap := []
  seq := 0
  nextId := 0
  reqs := ∅
  prefill _ := .new cfg
  decode _ := .new cfg
  router := newRouter cfg
  xferBusy := 0
  xferQueue := []
  outcomes := []
  issued := 0
  batches := 0
  batchSeqs := 0
  batchTokens := 0
  deadlineLimited := 0
  demotedSamples := []
  concurrencySamples := []
  peakConcurrency := 0
  queueDepthSamples := []

def push (s : Simulator cfg) (time : Millis) (event : Event cfg.topology) : Simulator cfg :=
  { s with seq := s.seq + 1, heap := ⟨time, s.seq + 1, event⟩ :: s.heap }

/-- The state in which the event loop starts: every client is about to issue a request. -/
def start (cfg : Config) : Simulator cfg :=
  (List.range cfg.workload.concurrency).foldl (fun s client => s.push 0 (.arrival client)) (new cfg)

def setPrefill (s : Simulator cfg) (w : Fin cfg.topology.prefillWorkers) (worker : PrefillWorkerSim) :
    Simulator cfg := { s with prefill := Function.update s.prefill w worker }

def setDecode (s : Simulator cfg) (w : Fin cfg.topology.decodeWorkers) (worker : DecodeWorkerSim) :
    Simulator cfg := { s with decode := Function.update s.decode w worker }

/-! ### Arrivals and prefill -/

def prefillLoad (s : Simulator cfg) (order : IterOrder) (worker : PrefillWorkerSim) : WorkerLoad where
  queuedTokens := (worker.sched.rehash order).queuedTokens
  queueDepth := worker.sched.queueDepth
  tokensPerMs := worker.sched.tuning.tokensPerMs
  updatedMs := s.now

def decodeLoad (s : Simulator cfg) (worker : DecodeWorkerSim) : WorkerLoad where
  decodeConcurrency := worker.sched.concurrency
  decodeCap := worker.sched.controller.cap
  kvUtilisation := 1 - worker.freeBlocks / (max worker.totalBlocks 1 : ℕ)
  stepMs := worker.sched.controller.observedItlMs
  updatedMs := s.now

def syncLoads (orders : EventOrders) (s : Simulator cfg) : Simulator cfg :=
  let prefills := (List.finRange cfg.topology.prefillWorkers).foldl (fun registry i =>
    registry.updateLoad i (s.prefillLoad (orders.queue i) (s.prefill i))) s.router.registry
  let registry := (List.finRange cfg.topology.decodeWorkers).foldl (fun registry j =>
    registry.updateLoad (decodeIdBase + j) (s.decodeLoad (s.decode j))) prefills
  { s with router := { s.router with registry } }

/-- Count a batch that is about to run; `sched` is the scheduler that planned it. -/
def countBatch (s : Simulator cfg) (batch : PrefillBatch) (sched : PrefillScheduler) : Simulator cfg :=
  let depth := sched.queueDepth
  { s with
    batches := s.batches + 1
    batchSeqs := s.batchSeqs + batch.chunks.length
    batchTokens := s.batchTokens + batch.totalTokens
    deadlineLimited := if batch.deadlineLimited then s.deadlineLimited + 1 else s.deadlineLimited
    queueDepthSamples := s.queueDepthSamples ++ [(depth : ℚ)]
    demotedSamples :=
      if 0 < depth then s.demotedSamples ++ [(sched.demoted.card : ℚ) / depth] else s.demotedSamples }

/-- Start the next batch of an idle worker, if there is one. Only the part of a batch inside the simulated span is
charged as busy time. -/
def tryStartPrefill (s : Simulator cfg) (w : Fin cfg.topology.prefillWorkers) : Simulator cfg :=
  let worker := s.prefill w
  if worker.busy then s
  else
    let (batch, sched) := worker.sched.plan s.now
    if batch.chunks = [] then s.setPrefill w { worker with sched }
    else
      let ms := worker.curve.batchMs batch.totalTokens batch.chunks.length
      let charged := min ms (max (horizonMs cfg - s.now) 0)
      ((s.countBatch batch sched).setPrefill w
        { worker with sched, busy := true, busyMs := worker.busyMs + charged, batch := some (batch, s.now) }).push
          (s.now + ms) (.prefillDone w)

/-- The index of the prefill worker a routing decision names. -/
def prefillIndex (cfg : Config) (id : WorkerId) : Option (Fin cfg.topology.prefillWorkers) :=
  if inside : id < cfg.topology.prefillWorkers then some ⟨id, inside⟩ else none

/-- The index of the decode worker a routing decision names. -/
def decodeIndex (cfg : Config) (id : WorkerId) : Option (Fin cfg.topology.decodeWorkers) :=
  if inside : decodeIdBase ≤ id ∧ id - decodeIdBase < cfg.topology.decodeWorkers then
    some ⟨id - decodeIdBase, inside.2⟩
  else none

/-- Every prompt has a token pattern of its own, as long as ids stay below the modulus. -/
def promptOf (cfg : Config) (id : RequestId) : List TokenId := List.replicate cfg.workload.isl (id % 100000 + 1)

/-- Queue a routed request on its prefill worker. -/
def accept (s : Simulator cfg) (client : ℕ) (id : RequestId) (pw : Fin cfg.topology.prefillWorkers)
    (dw : Fin cfg.topology.decodeWorkers) (prefixHitTokens : ℕ) : Simulator cfg :=
  let worker := s.prefill pw
  let queued := { s with reqs := s.reqs.insert id ⟨client, s.now, cfg.workload.isl, cfg.workload.osl, dw, none, s.now⟩ }
  let routed := queued.setPrefill pw
    { worker with
      sched := worker.sched.enqueue
        ⟨id, s.now, s.now + cfg.slo.ttftMs, cfg.workload.isl - prefixHitTokens, 0⟩ }
  if cfg.workload.cacheBust then routed
  else { routed with router := routed.router.notePrefill pw (promptOf cfg id) s.now }

/-- A client's next request; a routing failure panics. -/
def onArrival (orders : EventOrders) (s : Simulator cfg) (client : ℕ) : Option (Simulator cfg) :=
  let id := s.nextId
  let synced := { s with nextId := s.nextId + 1, issued := s.issued + 1 }.syncLoads orders
  match synced.router.routeIn orders.registry (promptOf cfg id) s.now cfg.slo.ttftMs with
  | .error _ => none
  | .ok decision =>
    match prefillIndex cfg decision.prefill, decodeIndex cfg decision.decode with
    | some pw, some dw => some ((synced.accept client id pw dw decision.prefixHitTokens).tryStartPrefill pw)
    | _, _ => none

/-- Start as many queued transfers as there are free buffers. -/
def drainLoop : List (RequestId × Fin cfg.topology.decodeWorkers) → Simulator cfg → Simulator cfg
  | [], s => { s with xferQueue := [] }
  | (id, dw) :: queue, s =>
    if s.xferBusy < max cfg.kv.xferConcurrency 1 then
      drainLoop queue ({ s with xferBusy := s.xferBusy + 1 }.push (s.now + kvTransferMs cfg) (.kvArrived id dw))
    else { s with xferQueue := (id, dw) :: queue }

def drainXferQueue (s : Simulator cfg) : Simulator cfg := drainLoop s.xferQueue s

/-- A finished prompt has its first token now and queues for a transfer. -/
def firstToken (s : Simulator cfg) (id : RequestId) (r : ReqState cfg.topology) : Simulator cfg :=
  { s with
    reqs := s.reqs.insert id { r with firstTokenMs := some s.now, lastTokenMs := s.now }
    xferQueue := s.xferQueue ++ [(id, r.decodeWorker)] }

/-- The loop over the finished prompts; an unknown request panics. -/
def handOff : List RequestId → Simulator cfg → Option (Simulator cfg)
  | [], s => some s
  | id :: finished, s =>
    match s.reqs.lookup id with
    | none => none
    | some r => handOff finished (s.firstToken id r)

def onPrefillDone (s : Simulator cfg) (w : Fin cfg.topology.prefillWorkers) : Option (Simulator cfg) :=
  let worker := s.prefill w
  match worker.batch with
  | none => some s
  | some (batch, started) =>
    let (finished, idle) := worker.finishBatch batch (s.now - started)
    match handOff finished (s.setPrefill w idle) with
    | none => none
    | some handed => some (handed.drainXferQueue.tryStartPrefill w)

/-! ### Transfers and decode -/

def onKvArrived (s : Simulator cfg) (id : RequestId) (w : Fin cfg.topology.decodeWorkers) : Simulator cfg :=
  let drained := { s with xferBusy := s.xferBusy - 1 }.drainXferQueue
  let worker := drained.decode w
  let queued := drained.setDecode w { worker with pending := worker.pending ++ [id], stepping := true }
  if worker.stepping then queued else queued.push s.now (.decodeStep w)

/-- Admit pending work of one decode worker. -/
def admitDecode (orders : EventOrders) (s : Simulator cfg) (w : Fin cfg.topology.decodeWorkers) :
    Option DecodeWorkerSim :=
  (s.decode w).admitLoop s.reqs s.now orders.tolerances 0 (s.decode w).pending

/-- A running request's last token. -/
def stampToken (time : Millis) (s : Simulator cfg) (id : RequestId) : Simulator cfg :=
  match s.reqs.lookup id with
  | some r => { s with reqs := s.reqs.insert id { r with lastTokenMs := time } }
  | none => s

/-- Return a finished sequence's pages, score it and release its client. -/
def retire (w : Fin cfg.topology.decodeWorkers) (time : Millis) (s : Simulator cfg) (seq : RunningSeq) :
    Simulator cfg :=
  let freed := s.setDecode w ((s.decode w).giveBack seq.id)
  match s.reqs.lookup seq.id with
  | none => freed
  | some r =>
    let outcome : RequestOutcome :=
      ⟨seq.id, r.arrivalMs, r.firstTokenMs.getD time, time, r.promptLen, seq.tokensEmitted, r.osl⟩
    { freed with reqs := s.reqs.erase seq.id, outcomes := s.outcomes ++ [outcome] }.push time (.arrival r.client)

/-- One forward pass of a worker with running sequences. -/
def forwardPass (orders : EventOrders) (s : Simulator cfg) (w : Fin cfg.topology.decodeWorkers)
    (worker : DecodeWorkerSim) : Simulator cfg :=
  let concurrency := worker.sched.concurrency
  let stepMs := worker.curve.stepMs concurrency
  let time := s.now + stepMs
  let (done, sched) := worker.sched.onStepSyntheticIn orders.step time stepMs
  let stepped :=
    { s with
      concurrencySamples := s.concurrencySamples ++ [(concurrency : ℚ)]
      peakConcurrency := max s.peakConcurrency concurrency }.setDecode w { worker with sched }
  let stamped := ((sched.rehash orders.attached).runningSeqs.map (·.id)).foldl (stampToken time) stepped
  (done.foldl (retire w time) stamped).push time (.decodeStep w)

/-- Admit, then run a step; a worker that could admit nothing tries again a nominal step later, and one without work
stops stepping. -/
def onDecodeStep (orders : EventOrders) (s : Simulator cfg) (w : Fin cfg.topology.decodeWorkers) :
    Option (Simulator cfg) :=
  match s.admitDecode orders w with
  | none => none
  | some worker =>
    if worker.sched.concurrency = 0 then
      if worker.pending = [] then some (s.setDecode w { worker with stepping := false })
      else some ((s.setDecode w worker).push (s.now + worker.curve.stepMs 1) (.decodeStep w))
    else some (s.forwardPass orders w worker)

/-! ### The event loop -/

def handle (orders : EventOrders) (s : Simulator cfg) : Event cfg.topology → Option (Simulator cfg)
  | .arrival client => s.onArrival orders client
  | .prefillDone worker => s.onPrefillDone worker
  | .kvArrived id worker => some (s.onKvArrived id worker)
  | .decodeStep worker => s.onDecodeStep orders worker

/-- What one turn of the event loop ends in. -/
inductive Turn (cfg : Config) where
  /-- The heap is empty, or its earliest event lies past the horizon. -/
  | stopped (s : Simulator cfg)
  | panicked
  | handled (event : Scheduled cfg.topology) (s : Simulator cfg)

def turn (orders : EventOrders) (s : Simulator cfg) : Turn cfg :=
  match popEarliest s.heap with
  | none => .stopped s
  | some (entry, heap) =>
    if horizonMs cfg < entry.time then .stopped { s with heap }
    else
      match { s with heap, now := entry.time }.handle orders entry.event with
      | none => .panicked
      | some next => .handled entry next

end Simulator

end TrtLlm.Sim
