import TrtLlm.Model.Wire.TransportRequest

/-! # Installing the bridge

`python/trtllm_rs_bridge/patch.py`. The bridge changes three places: the capacity scheduler behind an executor's
`scheduler`, the executor's `_append_iter_stats`, and `create_py_executor`. What stands in such a place is upstream's own
object under a list of layers, the outermost first; a layer is an object of its own, so `is` compares tags. Other code may
put layers of its own on any of the three. What `float` and `int` make of a field of a record is given with the record.
-/

namespace TrtLlm.PyExt

open Wire

inductive Layer where
  /-- Put there by the bridge. -/
  | bridge (tag : ℕ) (mode : String)
  | foreign (name : ℕ)
deriving DecidableEq, Repr

namespace Layer

def tag? : Layer → Option ℕ
  | bridge tag _ => some tag
  | foreign _ => none

def name? : Layer → Option ℕ
  | bridge _ _ => none
  | foreign name => some name

end Layer

/-- Whether the object in a place is the layer with this tag. -/
def isTop (tag : ℕ) (layers : List Layer) : Bool := layers.head?.bind Layer.tag? = some tag

/-- Put back what the layer covers, if it is still what stands there. -/
def uncover (tag : ℕ) (layers : List Layer) : List Layer := if isTop tag layers then layers.tail else layers

/-- What a conversion comes to: a value, one of the two errors the bridge catches, or another error. -/
inductive Conversion (α : Type) where
  | value (a : α)
  | refused
  | raised
deriving DecidableEq, Repr

/-- One completed iteration. -/
structure IterRecord where
  /-- `float(host_step_time_ms)`. -/
  hostStepTimeMs : Conversion FloatValue
  /-- `float(stats.iter_latency_ms)`. -/
  iterLatencyMs : Conversion FloatValue
  /-- Whether `num_scheduled_requests` is a bool. -/
  isBool : Bool
  /-- `int(num_scheduled_requests)`. -/
  numScheduledRequests : Conversion ℤ
deriving DecidableEq, Repr

/-- `_clean_positive_float`. -/
def cleanPositiveFloat : Conversion FloatValue → Conversion ℚ
  | .value (.finite ms) => if 0 < ms then .value ms else .refused
  | .value _ => .refused
  | .refused => .refused
  | .raised => .raised

/-- The time `_observe_completed_record` takes a step to have lasted. -/
def stepMsOf (allowIterationFallback : Bool) (record : IterRecord) : Conversion ℚ :=
  match cleanPositiveFloat record.hostStepTimeMs with
  | .refused => if allowIterationFallback then cleanPositiveFloat record.iterLatencyMs else .refused
  | step => step

/-- `_observe_completed_record`: the arguments `observe` is called with, nothing, or an error that is not caught. The
boundary takes a `usize`; its refusal is swallowed. -/
def observeCompletedRecord (allowIterationFallback : Bool) (record : IterRecord) : Conversion (Millis × ℕ) :=
  match stepMsOf allowIterationFallback record with
  | .raised => .raised
  | step =>
    if record.isBool then .refused
    else
      match record.numScheduledRequests with
      | .raised => .raised
      | .refused => .refused
      | .value concurrency =>
        match step with
        | .value ms =>
          if 0 ≤ concurrency ∧ concurrency < 2 ^ 64 then .value (ms, concurrency.toNat) else .refused
        | _ => .refused

/-- What the bridge looks at in an executor and never changes. -/
structure ExecutorShape where
  isRequestScheduler : Bool
  hasCapacityScheduler : Bool
  hasAppendIterStats : Bool
  /-- `_known_non_overlap_executor`. -/
  knownNonOverlap : Bool
deriving DecidableEq, Repr

structure PyExecutor where
  shape : ExecutorShape
  capacityScheduler : List Layer := []
  appendIterStats : List Layer := []
  /-- `_trtllm_rs_bridge_install`. -/
  installed : Option ℕ := none
  /-- The records upstream's own `_append_iter_stats` has been given. -/
  appended : List IterRecord := []
  /-- The calls of `observe`, each with the layer whose Rust scheduler it went to. -/
  observed : List (ℕ × Millis × ℕ) := []
deriving DecidableEq, Repr

inductive InstallError where
  | notRequestScheduler
  | noCapacityScheduler
  | mode (mode : String)
  | factory
deriving DecidableEq, Repr

namespace PyExecutor

/-- `install`, with the tag of the objects it makes. -/
def install (tag : ℕ) (mode : String) (executor : PyExecutor) : Except InstallError PyExecutor :=
  if executor.installed.isSome then .ok executor
  else if !executor.shape.isRequestScheduler then .error .notRequestScheduler
  else if !executor.shape.hasCapacityScheduler then .error .noCapacityScheduler
  else if mode ∉ ["shadow", "live"] then .error (.mode mode)
  else
    .ok { executor with
      capacityScheduler := .bridge tag mode :: executor.capacityScheduler
      appendIterStats :=
        if executor.shape.hasAppendIterStats then .bridge tag mode :: executor.appendIterStats
        else executor.appendIterStats
      installed := some tag }

/-- What `install` hands out to undo it. -/
def restore (tag : ℕ) (executor : PyExecutor) : PyExecutor :=
  { executor with
    capacityScheduler := uncover tag executor.capacityScheduler
    appendIterStats :=
      if executor.shape.hasAppendIterStats then uncover tag executor.appendIterStats else executor.appendIterStats
    installed := if executor.installed = some tag then none else executor.installed }

/-- The observers under some layers see a record, the innermost first, until one raises. -/
def observe (shape : ExecutorShape) (record : IterRecord) : List Layer → List (ℕ × Millis × ℕ) × Bool
  | [] => ([], false)
  | .foreign _ :: inner => observe shape record inner
  | .bridge tag _ :: inner =>
    match observe shape record inner with
    | (seen, true) => (seen, true)
    | (seen, false) =>
      match observeCompletedRecord shape.knownNonOverlap record with
      | .value call => (seen ++ [(tag, call)], false)
      | .refused => (seen, false)
      | .raised => (seen, true)

/-- A call of `_append_iter_stats`, and whether it raises. -/
def append (record : IterRecord) (executor : PyExecutor) : Bool × PyExecutor :=
  let (seen, raised) := observe executor.shape record executor.appendIterStats
  (raised, { executor with appended := executor.appended ++ [record], observed := executor.observed ++ seen })

end PyExecutor

inductive HandleKind where
  | nothing
  | executor (index tag : ℕ)
  | creator (tag : ℕ)
deriving DecidableEq, Repr

structure InstallHandle where
  kind : HandleKind
  restored : Bool := false
deriving DecidableEq, Repr

structure PatchWorld where
  executors : List PyExecutor
  /-- What `create_py_executor` is now, and all it has been. -/
  creator : List Layer
  creators : List (List Layer)
  handles : List InstallHandle
  /-- `_wrapped_executors`. -/
  wrapped : List ℕ
  nextTag : ℕ
deriving DecidableEq, Repr

namespace PatchWorld

def new : PatchWorld := ⟨[], [], [[]], [], [], 0⟩

/-- `install` on an executor of this process. -/
def installAt (index : ℕ) (mode : String) (world : PatchWorld) : Except InstallError HandleKind × PatchWorld :=
  match world.executors[index]? with
  | none => (.ok .nothing, world)
  | some executor =>
    match executor.install world.nextTag mode with
    | .error error => (.error error, world)
    | .ok next =>
      (.ok (if executor.installed.isSome then .nothing else .executor index world.nextTag),
        { world with executors := world.executors.set index next, nextTag := world.nextTag + 1 })

/-- A call of `create_py_executor` through some layers; `factory` says for which of the patches the Rust scheduler can be
made. -/
def build (shape : ExecutorShape) (factory : ℕ → Bool) : List Layer → PatchWorld → Except InstallError ℕ × PatchWorld
  | [], world => (.ok world.executors.length, { world with executors := world.executors ++ [{ shape }] })
  | .foreign _ :: inner, world => build shape factory inner world
  | .bridge tag mode :: inner, world =>
    match build shape factory inner world with
    | (.error error, world) => (.error error, world)
    | (.ok index, world) =>
      if !factory tag then (.error .factory, world)
      else
        match world.installAt index mode with
        | (.error error, world) => (.error error, world)
        | (.ok _, world) => (.ok index, { world with wrapped := world.wrapped ++ [index] })

def setCreator (layers : List Layer) (world : PatchWorld) : PatchWorld :=
  { world with creator := layers, creators := world.creators ++ [layers] }

/-- `install_global`. -/
def installGlobal (mode : String) (world : PatchWorld) : PatchWorld :=
  if (world.creator.head?.bind Layer.tag?).isSome then { world with handles := world.handles ++ [⟨.nothing, false⟩] }
  else
    { world.setCreator (.bridge world.nextTag mode :: world.creator) with
      handles := world.handles ++ [⟨.creator world.nextTag, false⟩]
      nextTag := world.nextTag + 1 }

/-- `InstallHandle.restore`. -/
def restore (handle : ℕ) (world : PatchWorld) : PatchWorld :=
  match world.handles[handle]? with
  | some ⟨kind, false⟩ =>
    let world := { world with handles := world.handles.set handle ⟨kind, true⟩ }
    match kind with
    | .nothing => world
    | .executor index tag => { world with executors := world.executors.modify index (PyExecutor.restore tag) }
    | .creator tag => world.setCreator (uncover tag world.creator)
  | _ => world

end PatchWorld

/-- What may happen in the process. -/
inductive PatchEvent where
  /-- An executor is created, through the function that stands in the module or one taken from there before. -/
  | create (creator : List Layer) (shape : ExecutorShape) (factory : ℕ → Bool)
  | install (index : ℕ) (mode : String)
  | installGlobal (mode : String)
  | restore (handle : ℕ)
  /-- Other code puts a layer on a place. -/
  | wrapCreator (name : ℕ)
  | wrapCapacity (index name : ℕ)
  | wrapAppend (index name : ℕ)
  | append (index : ℕ) (record : IterRecord)

namespace PatchWorld

def step (world : PatchWorld) : PatchEvent → PatchWorld
  | .create creator shape factory => (world.build shape factory creator).2
  | .install index mode =>
    match world.installAt index mode with
    | (.error _, world) => world
    | (.ok kind, world) => { world with handles := world.handles ++ [⟨kind, false⟩] }
  | .installGlobal mode => world.installGlobal mode
  | .restore handle => world.restore handle
  | .wrapCreator name => world.setCreator (.foreign name :: world.creator)
  | .wrapCapacity index name =>
    { world with executors := world.executors.modify index fun executor =>
        { executor with capacityScheduler := .foreign name :: executor.capacityScheduler } }
  | .wrapAppend index name =>
    { world with executors := world.executors.modify index fun executor =>
        { executor with appendIterStats := .foreign name :: executor.appendIterStats } }
  | .append index record =>
    { world with executors := world.executors.modify index fun executor => (executor.append record).2 }

/-- Executors are those that were created, and constructors those that have stood in the module. -/
def Enabled (world : PatchWorld) : PatchEvent → Prop
  | .create creator _ _ => creator ∈ world.creators
  | .install index _ => index < world.executors.length
  | .wrapCapacity index _ => index < world.executors.length
  | .wrapAppend index _ => ∃ executor, world.executors[index]? = some executor ∧ executor.shape.hasAppendIterStats = true
  | .append index _ => ∃ executor, world.executors[index]? = some executor ∧ executor.shape.hasAppendIterStats = true
  | _ => True

end PatchWorld

end TrtLlm.PyExt
