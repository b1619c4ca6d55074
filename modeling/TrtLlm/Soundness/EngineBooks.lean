import Mathlib.Data.List.Perm.Subperm
import TrtLlm.Machine.Path
import TrtLlm.Model.Wire.DynamoEngine
import TrtLlm.Soundness.RequestContract
import TrtLlm.Soundness.StreamCleanup

/-! # The engine's books over a run

Calls of Dynamo, answers of transports, polls and drops interleave in any order. The counter of active requests is the
number of streams handed out and not dropped, ids are not given twice, and a transport that was opened is either
behind such a stream or was left clean: `cancel` was called on it once, unless its terminal event had been read.
-/

namespace TrtLlm.Wire

open Machine

variable {τ : Type*}

/-- What may happen around an engine. The transports of a run log the calls made on them. -/
inductive EngineLabel (τ : Type*) where
  | start
  | cleanup
  | generate (nowMs : Millis) (request : PreprocessedRequest)
  | opened (index : ℕ) (answer : Except TransportError τ)
  | abandon (index : ℕ)
  | poll (index : ℕ) (stopped : Bool) (atMs : Millis)
  | drop (index : ℕ)

namespace EngineWorld

/-- A fresh transport has an empty log. -/
def step (io : Transport τ) (fromStr : String → Except String Json) (world : EngineWorld (τ × List TransportCall)) :
    EngineLabel τ → EngineWorld (τ × List TransportCall)
  | .start => { world with engine := world.engine.start.2 }
  | .cleanup => { world with engine := world.engine.cleanup }
  | .generate nowMs request => (world.generate nowMs request).2
  | .opened index answer => world.opened index (answer.map fun transport => (transport, []))
  | .abandon index => world.abandon index
  | .poll index stopped atMs => (world.poll io.logged fromStr index stopped atMs).2
  | .drop index => world.dropStream io.logged index

/-- The runs of an engine. -/
def system (io : Transport τ) (fromStr : String → Except String Json) (config : DynamoEngineConfig) :
    System (EngineWorld (τ × List TransportCall)) (EngineLabel τ) :=
  .ofFun (· = new config) (fun _ _ => True) (step io fromStr)

/-- The stream has come about by calls on a fresh stream. -/
def Grown (io : Transport τ) (fromStr : String → Except String Json) (s : RequestStream (τ × List TransportCall)) :
    Prop :=
  ∃ transport request ops, s = (RequestStream.new (transport, []) request).after io.logged fromStr ops

/-- The stream was dropped after such calls. -/
def Closed (io : Transport τ) (fromStr : String → Except String Json) (s : RequestStream (τ × List TransportCall)) :
    Prop :=
  ∃ grown, Grown io fromStr grown ∧ s = grown.drop io.logged

/-- The ids of all requests that have one, dropped streams included. -/
def ids (world : EngineWorld τ) : List RequestId :=
  world.starting.map (·.id) ++ world.streams.map (·.requestId) ++ world.dropped.map (·.requestId)

/-- The books of an engine after `count` steps. -/
structure Books (io : Transport τ) (fromStr : String → Except String Json) (count : ℕ)
    (world : EngineWorld (τ × List TransportCall)) : Prop where
  active : world.engine.active = world.streams.length % wordSize
  grown : ∀ stream ∈ world.streams, Grown io fromStr stream
  closed : ∀ stream ∈ world.dropped, Closed io fromStr stream
  room : count < wordSize → world.engine.nextRequestId ≤ count
  fresh : count < wordSize → ∀ id ∈ world.ids, id < world.engine.nextRequestId
  distinct : count < wordSize → world.ids.Nodup

/-! ### One stream -/

section

variable {io : Transport τ} {fromStr : String → Except String Json} {s : RequestStream (τ × List TransportCall)}

theorem apply_requestId (io : Transport τ) (fromStr : String → Except String Json) (s : RequestStream τ)
    (op : StreamOp) : (s.apply io fromStr op).2.requestId = s.requestId := by
  have cleaned : ∀ s : RequestStream τ, (s.cleanup io).2.requestId = s.requestId := by
    intro s
    rw [RequestStream.cleanup]
    split <;> rfl
  cases op with
  | nextAt atMs =>
    rw [RequestStream.apply, RequestStream.nextAt]
    split
    · rfl
    · split
      next event _ _ =>
        rw [RequestStream.receive]
        split
        · exact cleaned _
        · rfl
        · rfl
      · exact cleaned _
      · exact cleaned _
  | cancelAt atMs =>
    rw [RequestStream.apply, RequestStream.cancelAt]
    split
    · rfl
    · simp only
      split <;> exact cleaned _

theorem drop_requestId (io : Transport τ) (s : RequestStream τ) : (s.drop io).requestId = s.requestId := by
  rw [RequestStream.drop, RequestStream.cleanup]
  split <;> rfl

/-- A poll is one call on the stream below. -/
theorem pollStream_snd (io : Transport τ) (fromStr : String → Except String Json) (stopped : Bool) (atMs : Millis)
    (s : RequestStream τ) :
    (pollStream io fromStr stopped atMs s).2 =
      (s.apply io fromStr (if stopped then .cancelAt atMs else .nextAt atMs)).2 := by
  rw [pollStream]
  cases stopped with
  | true =>
    simp only [if_true, RequestStream.apply]
    split
    next same => rw [same]
    next same => rw [same]
    next same => rw [same]
  | false =>
    simp only [Bool.false_eq_true, if_false, RequestStream.apply]
    split
    next same => rw [same]
    next same => rw [same]
    next same => rw [same]

theorem Grown.poll (grown : Grown io fromStr s) (stopped : Bool) (atMs : Millis) :
    Grown io fromStr (pollStream io.logged fromStr stopped atMs s).2 := by
  obtain ⟨transport, request, ops, rfl⟩ := grown
  refine ⟨transport, request, ops ++ [if stopped then .cancelAt atMs else .nextAt atMs], ?_⟩
  rw [pollStream_snd, RequestStream.after_append]
  rfl

theorem grown_new (io : Transport τ) (fromStr : String → Except String Json) (transport : τ) (request : Request) :
    Grown io fromStr (.new (transport, []) request) := ⟨transport, request, [], rfl⟩

end

/-! ### One step -/

/-- Taking an element out of a list takes its image out of the images. -/
theorem perm_map_eraseIdx {α : Type*} (f : α → ℕ) {l : List α} {index : ℕ} {a : α} (found : l[index]? = some a) :
    List.Perm (l.map f) (f a :: (l.eraseIdx index).map f) := by
  obtain ⟨bound, rfl⟩ := List.getElem?_eq_some_iff.mp found
  exact ((List.getElem_cons_eraseIdx_perm bound).map f).symm

theorem succ_mod_wordSize (n : ℕ) : (n % wordSize + 1) % wordSize = (n + 1) % wordSize := by
  rw [wordSize]
  omega

/-- Lowering a counter that wraps undoes raising it. -/
theorem pred_mod_wordSize (n : ℕ) : ((n + 1) % wordSize + wordSize - 1) % wordSize = n % wordSize := by
  rw [wordSize]
  omega

section

variable {io : Transport τ} {fromStr : String → Except String Json} {count : ℕ}
  {world next : EngineWorld (τ × List TransportCall)}

/-- A step that gives no id and invents none. -/
theorem Books.keep (books : Books io fromStr count world)
    (active : next.engine.active = next.streams.length % wordSize)
    (grown : ∀ stream ∈ next.streams, Grown io fromStr stream)
    (closed : ∀ stream ∈ next.dropped, Closed io fromStr stream)
    (same : next.engine.nextRequestId = world.engine.nextRequestId) (fewer : next.ids.Subperm world.ids) :
    Books io fromStr (count + 1) next where
  active
  grown
  closed
  room bound := same ▸ (books.room (Nat.lt_of_succ_lt bound)).trans (Nat.le_succ count)
  fresh bound id member := same ▸ books.fresh (Nat.lt_of_succ_lt bound) id (fewer.subset member)
  distinct bound := by
    obtain ⟨kept, perm, sublist⟩ := fewer
    exact perm.nodup_iff.mp ((books.distinct (Nat.lt_of_succ_lt bound)).sublist sublist)

theorem books_new (io : Transport τ) (fromStr : String → Except String Json) (config : DynamoEngineConfig) :
    Books io fromStr 0 (new config) where
  active := rfl
  grown _ none := nomatch none
  closed _ none := nomatch none
  room _ := Nat.le_refl 0
  fresh _ _ none := nomatch none
  distinct _ := List.nodup_nil

/-- A request takes the next id. -/
theorem Books.issue (books : Books io fromStr count world) (converted : SampledRequest)
    (id : converted.id = world.engine.nextRequestId) :
    Books io fromStr (count + 1)
      { world with
        engine := { world.engine with nextRequestId := (world.engine.nextRequestId + 1) % wordSize }
        starting := world.starting ++ [converted] } := by
  have listed : List.Perm (ids { world with
        engine := { world.engine with nextRequestId := (world.engine.nextRequestId + 1) % wordSize }
        starting := world.starting ++ [converted] }) (world.engine.nextRequestId :: world.ids) := by
    rw [ids, List.map_append, List.map_singleton, id, List.append_assoc, List.append_assoc, ids, List.append_assoc]
    exact List.perm_middle
  have unwrapped : count + 1 < wordSize →
      (world.engine.nextRequestId + 1) % wordSize = world.engine.nextRequestId + 1 := by
    intro bound
    have room := books.room (Nat.lt_of_succ_lt bound)
    exact Nat.mod_eq_of_lt (by omega)
  refine ⟨books.active, books.grown, books.closed, fun bound => ?_, fun bound given member => ?_, fun bound => ?_⟩
  · change (world.engine.nextRequestId + 1) % wordSize ≤ count + 1
    rw [unwrapped bound]
    exact Nat.succ_le_succ (books.room (Nat.lt_of_succ_lt bound))
  · change given < (world.engine.nextRequestId + 1) % wordSize
    rw [unwrapped bound]
    rcases List.mem_cons.mp (listed.subset member) with rfl | old
    · exact Nat.lt_succ_self _
    · exact Nat.lt_succ_of_lt (books.fresh (Nat.lt_of_succ_lt bound) given old)
  · refine listed.nodup_iff.mpr (List.nodup_cons.mpr ⟨fun old => ?_, books.distinct (Nat.lt_of_succ_lt bound)⟩)
    exact Nat.lt_irrefl _ (books.fresh (Nat.lt_of_succ_lt bound) _ old)

theorem Books.generate (books : Books io fromStr count world) (nowMs : Millis) (request : PreprocessedRequest) :
    Books io fromStr (count + 1) (world.generate nowMs request).2 := by
  rw [EngineWorld.generate, DynamoLlmEngine.generate]
  split
  next converted engine accepted =>
    split at accepted
    · cases accepted
    · split at accepted
      · cases accepted
      next made conversion =>
        cases accepted
        obtain ⟨-, -, -, id, -⟩ := PreprocessedRequest.convertRequest_eq_ok conversion
        exact books.issue converted id
  next error engine refused =>
    have same : engine = world.engine := by
      split at refused
      · cases refused
        rfl
      · split at refused
        · cases refused
          rfl
        · cases refused
    subst same
    exact books.keep books.active books.grown books.closed rfl (List.Subperm.refl _)

theorem Books.abandon (books : Books io fromStr count world) (index : ℕ) :
    Books io fromStr (count + 1) (world.abandon index) := by
  refine books.keep books.active books.grown books.closed rfl (List.Sublist.subperm ?_)
  exact ((((List.eraseIdx_sublist _ index).map _).append (.refl _)).append (.refl _))

theorem Books.opened (books : Books io fromStr count world) (index : ℕ)
    (answer : Except TransportError τ) :
    Books io fromStr (count + 1) (world.opened index (answer.map fun transport => (transport, []))) := by
  cases found : world.starting[index]? with
  | none =>
    have same : world.opened index (answer.map fun transport => (transport, [])) = world := by
      simp [EngineWorld.opened, found]
    rw [same]
    exact books.keep books.active books.grown books.closed rfl (.refl _)
  | some request =>
    cases answer with
    | error error =>
      have same : world.opened index ((Except.error error : Except TransportError τ).map
          fun transport => (transport, [])) = world.abandon index := by
        simp [EngineWorld.opened, found, Except.map, EngineWorld.abandon]
      rw [same]
      exact books.abandon index
    | ok transport =>
      simp only [EngineWorld.opened, found, Except.map]
      refine books.keep ?_ ?_ books.closed world.engine.enter_nextRequestId ?_
      · change (world.engine.active + 1) % wordSize = (world.streams ++ [_]).length % wordSize
        rw [books.active, List.length_append, List.length_singleton, succ_mod_wordSize]
      · intro stream member
        rcases List.mem_append.mp member with old | new
        · exact books.grown stream old
        · rw [List.mem_singleton.mp new]
          exact grown_new io fromStr transport request.toRequest
      · refine List.Perm.subperm (List.perm_iff_count.mpr fun id => ?_)
        have taken := (perm_map_eraseIdx (fun request : SampledRequest => request.id) found).count_eq id
        simp only [ids, List.map_append, List.count_append, List.map_cons, List.map_nil, List.count_cons, List.count_nil,
          RequestStream.new] at taken ⊢
        omega

theorem Books.dropStream (books : Books io fromStr count world) (index : ℕ) :
    Books io fromStr (count + 1) (world.dropStream io.logged index) := by
  rw [EngineWorld.dropStream]
  split
  · exact books.keep books.active books.grown books.closed rfl (.refl _)
  next stream found =>
    obtain ⟨bound, here⟩ := List.getElem?_eq_some_iff.mp found
    refine books.keep ?_ ?_ ?_ world.engine.leave_nextRequestId ?_
    · change (world.engine.active + wordSize - 1) % wordSize = (world.streams.eraseIdx index).length % wordSize
      rw [books.active, ← List.length_eraseIdx_add_one bound, pred_mod_wordSize]
    · exact fun other member => books.grown other (List.mem_of_mem_eraseIdx member)
    · intro other member
      rcases List.mem_append.mp member with old | new
      · exact books.closed other old
      · rw [List.mem_singleton.mp new]
        exact ⟨stream, books.grown stream (here ▸ List.getElem_mem bound), rfl⟩
    · refine List.Perm.subperm (List.perm_iff_count.mpr fun id => ?_)
      have taken := (perm_map_eraseIdx (fun stream : RequestStream _ => stream.requestId) found).count_eq id
      simp only [ids, List.map_append, List.count_append, List.map_cons, List.map_nil, List.count_cons, List.count_nil,
        drop_requestId] at taken ⊢
      omega

/-- A stream after one more call is still the stream of its request. -/
theorem Books.setStream (books : Books io fromStr count world) {index : ℕ}
    {stream : RequestStream (τ × List TransportCall)} (found : world.streams[index]? = some stream) (stopped : Bool)
    (atMs : Millis) :
    Books io fromStr count
      { world with streams := world.streams.set index (pollStream io.logged fromStr stopped atMs stream).2 } := by
  obtain ⟨bound, here⟩ := List.getElem?_eq_some_iff.mp found
  have sameIds : ids { world with
      streams := world.streams.set index (pollStream io.logged fromStr stopped atMs stream).2 } = world.ids := by
    have kept : (world.streams.map (·.requestId)).set index stream.requestId = world.streams.map (·.requestId) := by
      rw [← here, ← List.map_set, List.set_getElem_self]
    simp only [ids, List.map_set, pollStream_snd, apply_requestId, kept]
  refine ⟨?_, ?_, books.closed, books.room, ?_, ?_⟩
  · rw [List.length_set]
    exact books.active
  · intro other member
    rcases List.mem_or_eq_of_mem_set member with old | new
    · exact books.grown other old
    · rw [new]
      exact (books.grown stream (here ▸ List.getElem_mem bound)).poll stopped atMs
  · rw [sameIds]
    exact books.fresh
  · rw [sameIds]
    exact books.distinct

theorem Books.poll (books : Books io fromStr count world) (index : ℕ) (stopped : Bool) (atMs : Millis) :
    Books io fromStr (count + 1) (world.poll io.logged fromStr index stopped atMs).2 := by
  rw [EngineWorld.poll]
  split
  · exact books.keep books.active books.grown books.closed rfl (.refl _)
  next stream found =>
    obtain ⟨bound, here⟩ := List.getElem?_eq_some_iff.mp found
    have polled := books.setStream found stopped atMs
    simp only
    split
    · exact polled.keep polled.active polled.grown polled.closed rfl (.refl _)
    · exact polled.dropStream index

theorem Books.step (books : Books io fromStr count world) (label : EngineLabel τ) :
    Books io fromStr (count + 1) (world.step io fromStr label) := by
  cases label with
  | start => exact books.keep books.active books.grown books.closed rfl (.refl _)
  | cleanup => exact books.keep books.active books.grown books.closed rfl (.refl _)
  | generate nowMs request => exact books.generate nowMs request
  | opened index answer => exact books.opened index answer
  | abandon index => exact books.abandon index
  | poll index stopped atMs => exact books.poll index stopped atMs
  | drop index => exact books.dropStream index

end

/-! ### Runs -/

theorem books_of_run {io : Transport τ} {fromStr : String → Except String Json} {config : DynamoEngineConfig}
    {labels : List (EngineLabel τ)} {world : EngineWorld (τ × List TransportCall)}
    (run : Run (system io fromStr config) labels world) : Books io fromStr labels.length world := by
  refine run.induct (P := fun labels world => Books io fromStr labels.length world) ?_ ?_
  · rintro _ rfl
    exact books_new io fromStr config
  · rintro labels world label _ books ⟨-, rfl⟩
    rw [List.length_append, List.length_singleton]
    exact books.step label

/-- What holds of an engine after any run of less than `2^64` steps. -/
structure Accounted (io : Transport τ) (fromStr : String → Except String Json)
    (world : EngineWorld (τ × List TransportCall)) : Prop where
  /-- The engine counts exactly the streams that have not been dropped, ended ones included. -/
  active : world.engine.active = world.streams.length
  quiescent : world.engine.isQuiescent = true ↔ world.streams = []
  /-- No two requests have had one id. -/
  distinct : world.ids.Nodup
  /-- A stream that has not been dropped has called `cancel` at most once. -/
  live : ∀ stream ∈ world.streams, stream.cancels ≤ 1
  /-- A dropped stream has called it once, unless it had read its terminal event. -/
  left : ∀ stream ∈ world.dropped, ∃ transport request ops,
    stream = ((RequestStream.new (transport, []) request).after io.logged fromStr ops).drop io.logged ∧
      stream.cancels =
        if endedNaturally ((RequestStream.new (transport, []) request).trace io.logged fromStr ops) then 0 else 1

theorem Books.length_ids_le {io : Transport τ} {fromStr : String → Except String Json} {count : ℕ}
    {world : EngineWorld (τ × List TransportCall)} (books : Books io fromStr count world) (bound : count < wordSize) :
    world.ids.length ≤ count := by
  have inside : world.ids ⊆ List.range world.engine.nextRequestId :=
    fun id member => List.mem_range.mpr (books.fresh bound id member)
  calc world.ids.length
      ≤ (List.range world.engine.nextRequestId).length := ((books.distinct bound).subperm inside).length_le
    _ = world.engine.nextRequestId := List.length_range
    _ ≤ count := books.room bound

/-- In every run every transport is accounted for: it is behind a stream that the engine counts as active, or it was
left clean. -/
theorem run_balanced {io : Transport τ} {fromStr : String → Except String Json} {config : DynamoEngineConfig}
    {labels : List (EngineLabel τ)} {world : EngineWorld (τ × List TransportCall)}
    (run : Run (system io fromStr config) labels world) (bound : labels.length < wordSize) :
    Accounted io fromStr world := by
  have books := books_of_run run
  have few : world.streams.length ≤ labels.length := by
    have all := books.length_ids_le bound
    simp only [ids, List.length_append, List.length_map] at all
    omega
  have active : world.engine.active = world.streams.length :=
    books.active.trans (Nat.mod_eq_of_lt (few.trans_lt bound))
  refine ⟨active, ?_, books.distinct bound, fun stream member => ?_, fun stream member => ?_⟩
  · rw [DynamoLlmEngine.isQuiescent, active, decide_eq_true_eq, List.length_eq_zero_iff]
  · obtain ⟨transport, request, ops, rfl⟩ := books.grown stream member
    rcases (RequestStream.tracked_after io fromStr transport request ops).status with
      ⟨_, _, _, none, _⟩ | ⟨_, _, _, cancels, _⟩
    · rw [none]
      exact Nat.zero_le 1
    · rw [cancels]
      split
      · exact Nat.zero_le 1
      · exact Nat.le_refl 1
  · obtain ⟨_, ⟨transport, request, ops, rfl⟩, rfl⟩ := books.closed stream member
    exact ⟨transport, request, ops, rfl, (RequestStream.tracked_after io fromStr transport request ops).drop⟩

/-- A transport whose worker never answers. -/
def deaf : Transport Unit := ⟨fun _ => (.error ⟨"HTTP transport error: timed out"⟩, ()), fun _ _ => (.ok (), ())⟩

/-- Two requests of which one is stopped and then dropped. -/
theorem run_balanced_stopped :
    let labels : List (EngineLabel Unit) := [.start, .generate 0 { tokenIds := [1] }, .generate 2 { tokenIds := [2] },
      .opened 1 (.ok ()), .opened 0 (.ok ()), .poll 0 true 5, .drop 0]
    Accounted deaf (fun _ => .ok .null) (labels.foldl (step deaf fun _ => .ok .null) (new .default)) := by
  intro labels
  have first : Run (system deaf (fun _ => .ok .null) .default) [] (new .default) := .start rfl
  exact run_balanced (Run.foldl (fun _ _ => trivial) first labels) (by decide)

end EngineWorld

end TrtLlm.Wire
