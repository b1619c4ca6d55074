import TrtLlm.Machine.Path
import TrtLlm.Model.PyExt.Patch

/-! # One bridge for each executor

Installs, restores, patched constructors and layers of other code come in any order. As long as nothing is restored from
under a layer of other code, an executor has one bridge layer where it is installed and none where it is not, so that a
record is observed once or not at all. Without its layers every place reads as if the bridge had never been there.
-/

namespace TrtLlm.PyExt

open Machine

/-- The tags of the bridge's layers in a place, and the names of the others. -/
def bridgeTags (layers : List Layer) : List ℕ := layers.filterMap Layer.tag?

def foreignNames (layers : List Layer) : List ℕ := layers.filterMap Layer.name?

@[simp] theorem bridgeTags_bridge (tag : ℕ) (mode : String) (layers : List Layer) :
    bridgeTags (.bridge tag mode :: layers) = tag :: bridgeTags layers := rfl

@[simp] theorem bridgeTags_foreign (name : ℕ) (layers : List Layer) :
    bridgeTags (.foreign name :: layers) = bridgeTags layers := rfl

@[simp] theorem foreignNames_bridge (tag : ℕ) (mode : String) (layers : List Layer) :
    foreignNames (.bridge tag mode :: layers) = foreignNames layers := rfl

@[simp] theorem foreignNames_foreign (name : ℕ) (layers : List Layer) :
    foreignNames (.foreign name :: layers) = name :: foreignNames layers := rfl

theorem isTop_iff {tag : ℕ} {layers : List Layer} :
    isTop tag layers = true ↔ ∃ mode rest, layers = .bridge tag mode :: rest := by
  rw [isTop, decide_eq_true_eq]
  constructor
  · intro top
    cases layers with
    | nil => cases top
    | cons layer rest =>
      cases layer with
      | bridge other mode =>
        cases top
        exact ⟨mode, rest, rfl⟩
      | foreign name => cases top
  · rintro ⟨mode, rest, rfl⟩
    rfl

/-- Uncovering takes no layer of other code away. -/
theorem foreignNames_uncover (tag : ℕ) (layers : List Layer) :
    foreignNames (uncover tag layers) = foreignNames layers := by
  rw [uncover]
  split
  next top =>
    obtain ⟨mode, rest, rfl⟩ := isTop_iff.mp top
    rfl
  next => rfl

theorem bridgeTags_uncover {tag : ℕ} {layers : List Layer} (top : isTop tag layers = true) :
    bridgeTags layers = tag :: bridgeTags (uncover tag layers) := by
  rw [uncover, if_pos top]
  obtain ⟨mode, rest, rfl⟩ := isTop_iff.mp top
  rfl

/-! ### One executor -/

/-- The executor carries the bridge once if it is installed, and not at all otherwise. -/
structure Single (executor : PyExecutor) : Prop where
  capacity : bridgeTags executor.capacityScheduler = executor.installed.toList
  append : bridgeTags executor.appendIterStats =
    if executor.shape.hasAppendIterStats then executor.installed.toList else []

/-- Restoring this layer finds it uncovered. -/
def Uncovered (tag : ℕ) (executor : PyExecutor) : Prop :=
  isTop tag executor.capacityScheduler = true ∧
    (executor.shape.hasAppendIterStats = true → isTop tag executor.appendIterStats = true)

/-- What the bridge sees of a record, and whether that raises. -/
def delivered (record : IterRecord) (executor : PyExecutor) : List (ℕ × Millis × ℕ) × Bool :=
  match executor.installed with
  | none => ([], false)
  | some tag =>
    match observeCompletedRecord executor.shape.knownNonOverlap record with
    | .value call => ([(tag, call)], false)
    | .refused => ([], false)
    | .raised => ([], true)

section

variable {executor next : PyExecutor} {tag : ℕ} {mode : String}

/-- What an install leaves as it was. -/
structure SameOutside (executor next : PyExecutor) : Prop where
  shape : next.shape = executor.shape
  capacity : foreignNames next.capacityScheduler = foreignNames executor.capacityScheduler
  append : foreignNames next.appendIterStats = foreignNames executor.appendIterStats
  appended : next.appended = executor.appended
  observed : next.observed = executor.observed

theorem install_spec (single : Single executor) (installed : executor.install tag mode = .ok next) :
    Single next ∧ SameOutside executor next ∧ next.installed.isSome = true := by
  rw [PyExecutor.install] at installed
  split at installed
  next already =>
    cases installed
    exact ⟨single, ⟨rfl, rfl, rfl, rfl, rfl⟩, already⟩
  next fresh =>
    have vacant : executor.installed = none := by simpa using fresh
    split at installed
    · cases installed
    split at installed
    · cases installed
    split at installed
    · cases installed
    cases installed
    have capacity := single.capacity
    have append := single.append
    rw [vacant] at capacity append
    refine ⟨⟨?_, ?_⟩, ⟨rfl, rfl, ?_, rfl, rfl⟩, rfl⟩
    · rw [bridgeTags_bridge, capacity]
      rfl
    · simp only
      split
      next callable =>
        rw [if_pos callable] at append
        rw [bridgeTags_bridge, append]
        rfl
      next silent => rwa [if_neg silent] at append
    · simp only
      split
      · rfl
      · rfl

/-- Restoring an uncovered layer leaves no layer of the bridge. -/
theorem restore_spec (single : Single executor) (uncovered : Uncovered tag executor) :
    Single (executor.restore tag) ∧ (executor.restore tag).installed = none := by
  obtain ⟨top, second⟩ := uncovered
  have tags := bridgeTags_uncover top
  rw [single.capacity] at tags
  have here : executor.installed = some tag := by
    cases installed : executor.installed with
    | none =>
      rw [installed] at tags
      cases tags
    | some other =>
      rw [installed] at tags
      rw [(List.cons.inj tags).1]
  have below : bridgeTags (uncover tag executor.capacityScheduler) = [] := by
    rw [here] at tags
    exact (List.cons.inj tags).2.symm
  have cleared : (executor.restore tag).installed = none := if_pos here
  refine ⟨⟨?_, ?_⟩, cleared⟩
  · rw [cleared]
    exact below
  · rw [cleared, PyExecutor.restore]
    have append := single.append
    simp only
    split
    next callable =>
      rw [if_pos callable, here, bridgeTags_uncover (second callable)] at append
      exact (List.cons.inj append).2
    next silent => rwa [if_neg silent] at append

theorem restore_sameOutside (tag : ℕ) (executor : PyExecutor) : SameOutside executor (executor.restore tag) := by
  refine ⟨rfl, foreignNames_uncover tag _, ?_, rfl, rfl⟩
  rw [PyExecutor.restore]
  simp only
  split
  · exact foreignNames_uncover tag _
  · rfl

/-- Where the bridge has no layer, layers of other code pass records on. -/
theorem observe_of_none (shape : ExecutorShape) (record : IterRecord) {layers : List Layer}
    (none : bridgeTags layers = []) : PyExecutor.observe shape record layers = ([], false) := by
  induction layers with
  | nil => rfl
  | cons layer layers ih =>
    cases layer with
    | bridge tag mode => cases none
    | foreign name => exact ih none

theorem observe_of_one (shape : ExecutorShape) (record : IterRecord) {layers : List Layer}
    (one : bridgeTags layers = [tag]) : PyExecutor.observe shape record layers =
      match observeCompletedRecord shape.knownNonOverlap record with
      | .value call => ([(tag, call)], false)
      | .refused => ([], false)
      | .raised => ([], true) := by
  induction layers with
  | nil => cases one
  | cons layer layers ih =>
    cases layer with
    | bridge other mode =>
      obtain ⟨rfl, rest⟩ := List.cons.inj one
      rw [PyExecutor.observe, observe_of_none shape record rest]
      rfl
    | foreign name => exact ih one

/-- A record reaches upstream, and the bridge sees it once if it is installed. -/
theorem append_eq (single : Single executor) (callable : executor.shape.hasAppendIterStats = true)
    (record : IterRecord) : executor.append record = ((delivered record executor).2,
      { executor with
        appended := executor.appended ++ [record]
        observed := executor.observed ++ (delivered record executor).1 }) := by
  have append := single.append
  rw [if_pos callable] at append
  have seen : PyExecutor.observe executor.shape record executor.appendIterStats = delivered record executor := by
    rw [delivered]
    cases installed : executor.installed with
    | none =>
      rw [installed] at append
      exact observe_of_none _ _ append
    | some tag =>
      rw [installed] at append
      exact observe_of_one _ _ append
  rw [PyExecutor.append, seen]

end

/-! ### The constructor -/

/-- The process with one more executor, which only the bridge has touched. -/
structure Built (creator : List Layer) (shape : ExecutorShape) (world : PatchWorld)
    (out : Except InstallError ℕ × PatchWorld) (executor : PyExecutor) : Prop where
  executors : out.2.executors = world.executors ++ [executor]
  creator_same : out.2.creator = world.creator
  creators_same : out.2.creators = world.creators
  single : Single executor
  outside : SameOutside { shape } executor
  /-- An executor that comes out of the constructor is installed exactly if a patch was on the way. -/
  installed : ∀ index, out.1 = .ok index → index = world.executors.length ∧
    (executor.installed.isSome = true ↔ bridgeTags creator ≠ [])

theorem build_spec (shape : ExecutorShape) (factory : ℕ → Bool) (creator : List Layer) (world : PatchWorld) :
    ∃ executor, Built creator shape world (world.build shape factory creator) executor := by
  induction creator with
  | nil =>
    refine ⟨{ shape }, rfl, rfl, rfl, ⟨rfl, ?_⟩, ⟨rfl, rfl, rfl, rfl, rfl⟩, ?_⟩
    · change [] = _
      split <;> rfl
    · rintro index ⟨rfl⟩
      exact ⟨rfl, iff_of_false Bool.false_ne_true (· rfl)⟩
  | cons layer inner ih =>
    obtain ⟨executor, built⟩ := ih
    cases layer with
    | foreign name =>
      exact ⟨executor, built.executors, built.creator_same, built.creators_same, built.single, built.outside,
        built.installed⟩
    | bridge tag mode =>
      rw [PatchWorld.build]
      generalize world.build shape factory inner = out at built
      obtain ⟨result, after⟩ := out
      have failed : ∀ error, ∃ executor, Built (.bridge tag mode :: inner) shape world (.error error, after) executor :=
        fun error => ⟨executor, built.executors, built.creator_same, built.creators_same, built.single, built.outside,
          by rintro index ⟨⟩⟩
      cases result with
      | error error => exact failed error
      | ok index =>
        simp only
        split
        · exact failed .factory
        obtain ⟨rfl, -⟩ := built.installed index rfl
        have executors : after.executors = world.executors ++ [executor] := built.executors
        have found : after.executors[world.executors.length]? = some executor := by
          rw [executors, List.getElem?_concat_length]
        rw [PatchWorld.installAt, found]
        simp only
        cases installed : executor.install after.nextTag mode with
        | error error => exact failed error
        | ok next =>
          obtain ⟨single, outside, some⟩ := install_spec built.single installed
          refine ⟨next, ?_, built.creator_same, built.creators_same, single, ?_, ?_⟩
          · change after.executors.set world.executors.length next = _
            rw [executors, List.set_append_right _ _ (Nat.le_refl _), Nat.sub_self]
            rfl
          · obtain ⟨shape, capacity, append, appended, observed⟩ := built.outside
            exact ⟨outside.shape.trans shape, outside.capacity.trans capacity, outside.append.trans append,
              outside.appended.trans appended, outside.observed.trans observed⟩
          · rintro index ⟨rfl⟩
            exact ⟨rfl, iff_of_true some (List.cons_ne_nil _ _)⟩

/-! ### Runs -/

/-- What other code does to an executor, and what upstream tells it. -/
inductive Outside where
  | capacity (name : ℕ)
  | append (name : ℕ)
  | told (record : IterRecord)
deriving DecidableEq, Repr

namespace Outside

def capacity? : Outside → Option ℕ
  | capacity name => some name
  | _ => none

def append? : Outside → Option ℕ
  | append name => some name
  | _ => none

def record? : Outside → Option IterRecord
  | told record => some record
  | _ => none

end Outside

def outsideOf (index : ℕ) : PatchEvent → Option Outside
  | .wrapCapacity other name => if other = index then some (.capacity name) else none
  | .wrapAppend other name => if other = index then some (.append name) else none
  | .append other record => if other = index then some (.told record) else none
  | _ => none

def creatorOf : PatchEvent → Option ℕ
  | .wrapCreator name => some name
  | _ => none

/-- An executor reads as if only other code had touched it, apart from the one layer it has where it is installed. -/
structure Kept (said : List Outside) (executor : PyExecutor) : Prop where
  single : Single executor
  capacity : foreignNames executor.capacityScheduler = (said.filterMap Outside.capacity?).reverse
  append : foreignNames executor.appendIterStats = (said.filterMap Outside.append?).reverse
  appended : executor.appended = said.filterMap Outside.record?

structure Books (events : List PatchEvent) (world : PatchWorld) : Prop where
  creator : foreignNames world.creator = (events.filterMap creatorOf).reverse
  kept : ∀ index executor, world.executors[index]? = some executor → Kept (events.filterMap (outsideOf index)) executor
  unborn : ∀ index, world.executors.length ≤ index → events.filterMap (outsideOf index) = []

/-- Nothing is restored from under a layer of other code. -/
def Clear (world : PatchWorld) : PatchEvent → Prop
  | .restore handle => ∀ index tag executor, world.handles[handle]? = some ⟨.executor index tag, false⟩ →
      world.executors[index]? = some executor → Uncovered tag executor
  | _ => True

def PatchWorld.system : System PatchWorld PatchEvent := .ofFun (· = .new) PatchWorld.Enabled PatchWorld.step

section

variable {events : List PatchEvent} {world next : PatchWorld} {event : PatchEvent}

theorem Kept.touch {said : List Outside} {executor next : PyExecutor} (kept : Kept said executor)
    (outside : SameOutside executor next) (single : Single next) : Kept said next :=
  ⟨single, outside.capacity.trans kept.capacity, outside.append.trans kept.append, outside.appended.trans kept.appended⟩

theorem filterMap_concat_none {α β : Type*} {f : α → Option β} (l : List α) {a : α} (none : f a = none) :
    (l ++ [a]).filterMap f = l.filterMap f := by
  rw [List.filterMap_append, List.filterMap_cons, none, List.filterMap_nil, List.append_nil]

theorem filterMap_concat_some {α β : Type*} {f : α → Option β} (l : List α) {a : α} {b : β} (some : f a = some b) :
    (l ++ [a]).filterMap f = l.filterMap f ++ [b] := by
  rw [List.filterMap_append, List.filterMap_cons, some, List.filterMap_nil]

/-- A step of the bridge alone. -/
theorem Books.quiet (books : Books events world) (silent : ∀ index, outsideOf index event = none)
    (creator : creatorOf event = none) (same : foreignNames next.creator = foreignNames world.creator)
    (kept : ∀ index executor, next.executors[index]? = some executor →
      Kept (events.filterMap (outsideOf index)) executor)
    (length : world.executors.length ≤ next.executors.length) : Books (events ++ [event]) next := by
  refine ⟨?_, fun index executor found => ?_, fun index beyond => ?_⟩
  · rw [filterMap_concat_none events creator, same]
    exact books.creator
  · rw [filterMap_concat_none events (silent index)]
    exact kept index executor found
  · rw [filterMap_concat_none events (silent index)]
    exact books.unborn index (length.trans beyond)

/-- A step at one executor. -/
theorem Books.modify (books : Books events world) {index : ℕ} (inside : index < world.executors.length)
    {change : PyExecutor → PyExecutor} (others : ∀ other, other ≠ index → outsideOf other event = none)
    (creator : creatorOf event = none)
    (kept : ∀ executor, world.executors[index]? = some executor →
      Kept ((events ++ [event]).filterMap (outsideOf index)) (change executor)) :
    Books (events ++ [event]) { world with executors := world.executors.modify index change } := by
  refine ⟨?_, fun other executor found => ?_, fun other beyond => ?_⟩
  · rw [filterMap_concat_none events creator]
    exact books.creator
  · rw [List.getElem?_modify] at found
    obtain ⟨before, there, rfl⟩ := Option.map_eq_some_iff.mp found
    split
    next same =>
      subst same
      exact kept before there
    next apart =>
      rw [filterMap_concat_none events (others other (Ne.symm apart))]
      exact books.kept other before there
  · rw [List.length_modify] at beyond
    rw [filterMap_concat_none events (others other (by omega))]
    exact books.unborn other beyond

theorem Books.install (books : Books events world) (index : ℕ) (mode : String) :
    Books (events ++ [.install index mode]) (world.step (.install index mode)) := by
  have unchanged : Books (events ++ [.install index mode]) world :=
    books.quiet (fun _ => rfl) rfl rfl books.kept (Nat.le_refl _)
  have quiet : ∀ world handles, Books (events ++ [.install index mode]) world →
      Books (events ++ [.install index mode]) { world with handles := handles } :=
    fun _ _ books => ⟨books.creator, books.kept, books.unborn⟩
  rw [PatchWorld.step, PatchWorld.installAt]
  cases found : world.executors[index]? with
  | none => exact quiet _ _ unchanged
  | some executor =>
    simp only
    cases installed : executor.install world.nextTag mode with
    | error error => exact unchanged
    | ok next =>
      refine quiet _ _ (books.quiet (fun _ => rfl) rfl rfl (fun other changed there => ?_) ?_)
      · rw [List.getElem?_set] at there
        split at there
        next same =>
          subst same
          split at there
          next =>
            obtain rfl := Option.some.inj there
            obtain ⟨single, outside, -⟩ := install_spec (books.kept index executor found).single installed
            exact (books.kept index executor found).touch outside single
          next => cases there
        next => exact books.kept other changed there
      · exact (List.length_set).ge

theorem Books.create (books : Books events world) (creator : List Layer) (shape : ExecutorShape) (factory : ℕ → Bool) :
    Books (events ++ [.create creator shape factory]) (world.step (.create creator shape factory)) := by
  obtain ⟨executor, built⟩ := build_spec shape factory creator world
  rw [PatchWorld.step]
  refine books.quiet (fun _ => rfl) rfl ?_ (fun index other found => ?_) ?_
  · rw [built.creator_same]
  · rw [built.executors, List.getElem?_append] at found
    split at found
    · exact books.kept index other found
    next beyond =>
      have first := List.mem_of_getElem? found
      obtain rfl := List.mem_singleton.mp first
      rw [books.unborn index (Nat.le_of_not_lt beyond)]
      exact ⟨built.single, built.outside.capacity, built.outside.append, built.outside.appended⟩
  · rw [built.executors, List.length_append]
    exact Nat.le_add_right _ _

theorem Books.installGlobal (books : Books events world) (mode : String) :
    Books (events ++ [.installGlobal mode]) (world.step (.installGlobal mode)) := by
  refine books.quiet (fun _ => rfl) rfl ?_ (fun index executor found => ?_) ?_
  · rw [PatchWorld.step, PatchWorld.installGlobal]
    split
    · rfl
    · rfl
  · rw [PatchWorld.step, PatchWorld.installGlobal] at found
    split at found
    · exact books.kept index executor found
    · exact books.kept index executor found
  · rw [PatchWorld.step, PatchWorld.installGlobal]
    split
    · exact Nat.le_refl _
    · exact Nat.le_refl _

theorem Books.restore (books : Books events world) {handle : ℕ} (clear : Clear world (.restore handle)) :
    Books (events ++ [.restore handle]) (world.step (.restore handle)) := by
  have unchanged : Books (events ++ [.restore handle]) world :=
    books.quiet (fun _ => rfl) rfl rfl books.kept (Nat.le_refl _)
  rw [PatchWorld.step, PatchWorld.restore]
  split
  next kind held =>
    cases kind with
    | nothing => exact ⟨unchanged.creator, unchanged.kept, unchanged.unborn⟩
    | creator tag =>
      refine books.quiet (fun _ => rfl) rfl ?_ books.kept (Nat.le_refl _)
      exact foreignNames_uncover tag _
    | executor index tag =>
      refine books.quiet (fun _ => rfl) rfl rfl (fun other executor found => ?_) (List.length_modify _ _ _).ge
      rw [List.getElem?_modify] at found
      obtain ⟨before, there, rfl⟩ := Option.map_eq_some_iff.mp found
      have kept := books.kept other before there
      split
      next same =>
        subst same
        exact kept.touch (restore_sameOutside tag before) (restore_spec kept.single (clear _ _ _ held there)).1
      next => exact kept
  next => exact unchanged

theorem Books.step (books : Books events world) (enabled : world.Enabled event) (clear : Clear world event) :
    Books (events ++ [event]) (world.step event) := by
  cases event with
  | create creator shape factory => exact books.create creator shape factory
  | install index mode => exact books.install index mode
  | installGlobal mode => exact books.installGlobal mode
  | restore handle => exact books.restore clear
  | wrapCreator name =>
    refine ⟨?_, fun index executor found => ?_, fun index beyond => ?_⟩
    · rw [filterMap_concat_some (f := creatorOf) events rfl, List.reverse_append, ← books.creator]
      rfl
    · rw [filterMap_concat_none (f := outsideOf index) events rfl]
      exact books.kept index executor found
    · rw [filterMap_concat_none (f := outsideOf index) events rfl]
      exact books.unborn index beyond
  | wrapCapacity index name =>
    refine books.modify enabled (fun other apart => if_neg (Ne.symm apart)) rfl fun executor found => ?_
    have kept := books.kept index executor found
    rw [filterMap_concat_some events (if_pos rfl)]
    refine ⟨⟨kept.single.capacity, kept.single.append⟩, ?_, ?_, ?_⟩
    · rw [filterMap_concat_some (f := Outside.capacity?) _ rfl, List.reverse_append, ← kept.capacity]
      rfl
    · rw [filterMap_concat_none (f := Outside.append?) _ rfl]
      exact kept.append
    · rw [filterMap_concat_none (f := Outside.record?) _ rfl]
      exact kept.appended
  | wrapAppend index name =>
    obtain ⟨executor, found, -⟩ := enabled
    refine books.modify (List.getElem?_eq_some_iff.mp found).1 (fun other apart => if_neg (Ne.symm apart)) rfl
      fun executor found => ?_
    have kept := books.kept index executor found
    rw [filterMap_concat_some events (if_pos rfl)]
    refine ⟨⟨kept.single.capacity, kept.single.append⟩, ?_, ?_, ?_⟩
    · rw [filterMap_concat_none (f := Outside.capacity?) _ rfl]
      exact kept.capacity
    · rw [filterMap_concat_some (f := Outside.append?) _ rfl, List.reverse_append, ← kept.append]
      rfl
    · rw [filterMap_concat_none (f := Outside.record?) _ rfl]
      exact kept.appended
  | append index record =>
    obtain ⟨executor, found, callable⟩ := enabled
    refine books.modify (List.getElem?_eq_some_iff.mp found).1 (fun other apart => if_neg (Ne.symm apart)) rfl
      fun other there => ?_
    obtain rfl := Option.some.inj (found.symm.trans there)
    have kept := books.kept index executor found
    rw [filterMap_concat_some events (if_pos rfl), append_eq kept.single callable]
    refine ⟨⟨kept.single.capacity, kept.single.append⟩, ?_, ?_, ?_⟩
    · rw [filterMap_concat_none (f := Outside.capacity?) _ rfl]
      exact kept.capacity
    · rw [filterMap_concat_none (f := Outside.append?) _ rfl]
      exact kept.append
    · rw [filterMap_concat_some (f := Outside.record?) _ rfl, ← kept.appended]

end

/-- What holds of the process after a run. -/
structure Transparent (events : List PatchEvent) (world : PatchWorld) : Prop where
  /-- Without the bridge's layers, `create_py_executor` is as other code left it, -/
  creator : foreignNames world.creator = (events.filterMap creatorOf).reverse
  /-- and so is every executor, which has one layer of the bridge in each place if it is installed and none otherwise. -/
  kept : ∀ index executor, world.executors[index]? = some executor → Kept (events.filterMap (outsideOf index)) executor
  /-- The next record reaches upstream, and the bridge once if it is installed. -/
  delivers : ∀ (index : ℕ) executor record, world.executors[index]? = some executor →
    executor.shape.hasAppendIterStats = true → executor.append record = ((delivered record executor).2,
      { executor with
        appended := executor.appended ++ [record]
        observed := executor.observed ++ (delivered record executor).1 })
  /-- An executor that comes out of a constructor is installed exactly if a patch was on the way. -/
  creates : ∀ creator shape factory index, (world.build shape factory creator).1 = .ok index →
    ∃ executor, (world.build shape factory creator).2.executors = world.executors ++ [executor] ∧
      (executor.installed.isSome = true ↔ bridgeTags creator ≠ [])

/-- Whatever the order in which the bridge is installed, restored and covered, no executor has it twice, and without its
layers every place is as other code left it. -/
theorem PatchWorld.run_transparent {events : List PatchEvent} {world : PatchWorld}
    (run : Run (system.restrict Clear) events world) : Transparent events world := by
  have books : Books events world := by
    refine run.induct (P := Books) ?_ ?_
    · rintro _ rfl
      exact ⟨rfl, fun index executor none => (nomatch none), fun _ _ => rfl⟩
    · rintro events world event _ books ⟨clear, enabled, rfl⟩
      exact books.step enabled clear
  refine ⟨books.creator, books.kept, fun index executor record found callable => ?_,
    fun creator shape factory index made => ?_⟩
  · exact append_eq (books.kept index executor found).single callable record
  · obtain ⟨executor, built⟩ := build_spec shape factory creator world
    exact ⟨executor, built.executors, (built.installed index made).2⟩

/-- An ordinary executor, and a record of a step of 2 ms with three requests. -/
def ordinary : ExecutorShape := ⟨true, true, true, false⟩

def twoMs : IterRecord := ⟨.value (.finite 2), .refused, false, .value 3⟩

/-- Other code wraps the patched constructor and the constructor is patched again: the executor it makes is installed once,
its record is observed once, and after a second install and a restore of the first handle nothing is left. -/
theorem PatchWorld.run_transparent_twice :
    let creator : List Layer := [.bridge 1 "live", .foreign 7, .bridge 0 "shadow"]
    let events : List PatchEvent := [.installGlobal "shadow", .wrapCreator 7, .installGlobal "live",
      .create creator ordinary fun _ => true, .append 0 twoMs, .create [] ordinary fun _ => true, .install 1 "live",
      .install 1 "live", .append 1 twoMs, .restore 2, .append 1 twoMs]
    let world := events.foldl PatchWorld.step .new
    Transparent events world ∧ world.executors.map (·.observed) = [[(2, 2, 3)], [(4, 2, 3)]] ∧
      world.executors.map (·.installed) = [some 2, none] := by
  intro creator events world
  have start : Run (system.restrict Clear) [] PatchWorld.new := .start rfl
  have patched := (start.applyGuarded (.installGlobal "shadow") trivial trivial).applyGuarded (.wrapCreator 7) trivial trivial
  have again := patched.applyGuarded (.installGlobal "live") trivial trivial
  have created := again.applyGuarded (.create creator ordinary fun _ => true) trivial
    (by rw [PatchWorld.Enabled]; decide)
  have told := created.applyGuarded (.append 0 twoMs) trivial ⟨_, rfl, rfl⟩
  have plain := told.applyGuarded (.create [] ordinary fun _ => true) trivial
    (by rw [PatchWorld.Enabled]; decide)
  have installed := plain.applyGuarded (.install 1 "live") trivial (by rw [PatchWorld.Enabled]; decide)
  have twice := installed.applyGuarded (.install 1 "live") trivial (by rw [PatchWorld.Enabled]; decide)
  have observed := twice.applyGuarded (.append 1 twoMs) trivial ⟨_, rfl, rfl⟩
  have restored := observed.applyGuarded (.restore 2)
    (by
      rintro index tag executor ⟨⟩ ⟨⟩
      exact ⟨rfl, fun _ => rfl⟩) trivial
  have final := restored.applyGuarded (.append 1 twoMs) trivial ⟨_, rfl, rfl⟩
  exact ⟨PatchWorld.run_transparent final, by decide +kernel, by decide +kernel⟩

end TrtLlm.PyExt
