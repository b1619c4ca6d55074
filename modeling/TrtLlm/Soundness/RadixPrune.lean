import TrtLlm.Machine.Path
import TrtLlm.Soundness.RadixTree

/-! # Removing leaves, and whole runs of the radix index

Detaching a leaf moves the last node into the hole. Seen from the outside this is a renaming of
the surviving nodes, so the tree keeps its shape and covers nothing new. The module ends with the
invariant over every sequence of operations: the index never credits a worker with more than it was
told about, and until something is pruned or turned away it credits exactly that.
-/

namespace TrtLlm.KvCache.RadixIndex

variable {index : RadixIndex} {path : ℕ → List TokenId}

/-! ### Detaching a leaf -/

/-- The search finds the only entry that points at a node. -/
theorem findParent_eq {p k target : ℕ} (entry : index.child p k = some target)
    (only : ∀ {p' k'}, index.child p' k' = some target → p' = p ∧ k' = k) :
    index.findParent target = some (p, k) := by
  cases answer : index.findParent target with
  | none =>
    have nowhere := List.findSome?_eq_none_iff.mp answer p (List.mem_range.mpr (inside_of_child entry))
    rw [Option.map_eq_none_iff, List.find?_eq_none] at nowhere
    have member : ⟨k, target⟩ ∈ (index.node p).children.entries := AList.mem_lookup_iff.mp entry
    simpa using nowhere _ member
  | some pair =>
    obtain ⟨i, _, search⟩ := List.exists_of_findSome?_eq_some answer
    obtain ⟨found, hit, rfl⟩ := Option.map_eq_some_iff.mp search
    have value : found.2 = target := by simpa using List.find?_some hit
    have here : index.child i found.1 = some target := by
      rw [← value]
      exact AList.mem_lookup_iff.mpr (List.mem_of_find?_eq_some hit)
    obtain ⟨rfl, rfl⟩ := only here
    rfl

/-- Where the node now at position `j` was before the leaf `victim` was removed. -/
def formerly (index : RadixIndex) (victim j : ℕ) : ℕ := if j = victim then index.nodes.length - 1 else j

/-- One index is another with the leaf `victim` removed and the survivors renamed. -/
structure Removed (index after : RadixIndex) (victim : ℕ) : Prop where
  length : after.nodes.length + 1 = index.nodes.length
  edge : ∀ j < after.nodes.length, (after.node j).edge = (index.node (index.formerly victim j)).edge
  workers : ∀ j < after.nodes.length, (after.node j).workers = (index.node (index.formerly victim j)).workers
  touched : ∀ j < after.nodes.length,
    (after.node j).lastAccessMs = (index.node (index.formerly victim j)).lastAccessMs
  child : ∀ q k d, after.child q k = some d ↔
    q < after.nodes.length ∧ d < after.nodes.length ∧
      index.child (index.formerly victim q) k = some (index.formerly victim d)

theorem node_dropLast (nodes : List Node) (j : ℕ) :
    nodes.dropLast.getD j (Node.new [] 0) =
      if j < nodes.length - 1 then nodes.getD j (Node.new [] 0) else Node.new [] 0 := by
  rw [List.getD_eq_getElem?_getD, List.getElem?_dropLast]
  split
  · rw [List.getD_eq_getElem?_getD]
  · rfl

theorem child_erase {p key : ℕ} (inside : p < index.nodes.length) (q k : ℕ) :
    (index.modify p fun node => { node with children := node.children.erase key }).child q k =
      if q = p ∧ k = key then none else index.child q k := by
  rw [child, node_modify _ _ _ inside]
  by_cases here : q = p
  · by_cases same : k = key
    · subst same
      simp [here]
    · simp [here, same, child, AList.lookup_erase_ne same]
  · simp [here, child]

theorem child_relink {p key target : ℕ} (inside : p < index.nodes.length) (q k : ℕ) :
    (index.modify p fun node => { node with children := node.children.insert key target }).child q k =
      if q = p ∧ k = key then some target else index.child q k := by
  rw [child, node_modify _ _ _ inside]
  by_cases here : q = p
  · by_cases same : k = key
    · subst same
      simp [here]
    · simp [here, same, child, AList.lookup_insert_ne same]
  · simp [here, child]

theorem formerly_self (victim : ℕ) : index.formerly victim victim = index.nodes.length - 1 := if_pos rfl

theorem formerly_of_ne {victim j : ℕ} (other : j ≠ victim) : index.formerly victim j = j := if_neg other

/-- The same nodes up to their child tables. -/
structure SameData (index table : RadixIndex) : Prop where
  length : table.nodes.length = index.nodes.length
  edge : ∀ j, (table.node j).edge = (index.node j).edge
  workers : ∀ j, (table.node j).workers = (index.node j).workers
  touched : ∀ j, (table.node j).lastAccessMs = (index.node j).lastAccessMs

theorem SameData.trans {a b c : RadixIndex} (first : SameData a b) (second : SameData b c) : SameData a c where
  length := second.length.trans first.length
  edge j := (second.edge j).trans (first.edge j)
  workers j := (second.workers j).trans (first.workers j)
  touched j := (second.touched j).trans (first.touched j)

theorem sameData_modify {p : ℕ} (inside : p < index.nodes.length) (f : HashMap TokenId ℕ → HashMap TokenId ℕ) :
    SameData index (index.modify p fun node => { node with children := f node.children }) := by
  have each : ∀ j, (index.modify p fun node => { node with children := f node.children }).node j =
      { index.node j with children := if j = p then f (index.node j).children else (index.node j).children } := by
    intro j
    rw [node_modify _ _ _ inside]
    split <;> rfl
  refine ⟨modify_length _ _, ?_, ?_, ?_⟩
  · intro j
    rw [each]
  · intro j
    rw [each]
  · intro j
    rw [each]

/-- Once the child tables point at the new positions, moving the last node into the hole is the
removal. -/
theorem Removed.of_table {table after : RadixIndex} {victim : ℕ} (data : SameData index table)
    (size : after.nodes.length + 1 = index.nodes.length)
    (moved : ∀ j < after.nodes.length, after.node j = table.node (index.formerly victim j))
    (entries : ∀ q k d, table.child q k = some d ↔
      d < after.nodes.length ∧ index.child q k = some (index.formerly victim d)) :
    Removed index after victim := by
  refine ⟨size, ?_, ?_, ?_, ?_⟩
  · intro j bound
    rw [moved j bound, data.edge]
  · intro j bound
    rw [moved j bound, data.workers]
  · intro j bound
    rw [moved j bound, data.touched]
  · intro q k d
    constructor
    · intro entry
      have bound := inside_of_child entry
      rw [RadixIndex.child, moved q bound] at entry
      exact ⟨bound, (entries _ _ _).mp entry⟩
    · rintro ⟨bound, entry⟩
      rw [RadixIndex.child, moved q bound]
      exact (entries _ _ _).mpr entry

/-- Detaching the last node only drops it. -/
theorem Shape.detach_last (shape : Shape index path) {victim : ℕ} (positive : 0 < victim)
    (inside : victim < index.nodes.length) (last : victim = index.nodes.length - 1) :
    Removed index (index.detach victim) victim := by
  obtain ⟨p, key, entry⟩ := shape.parent positive inside
  have above := inside_of_child entry
  have unlinkEq : index.unlink victim = index.removeChild p key := by
    rw [unlink, findParent_eq entry fun up => shape.unique up entry]
  have data : SameData index (index.removeChild p key) := sameData_modify above (·.erase key)
  have unlinked : index.detach victim =
      { index.removeChild p key with nodes := (index.removeChild p key).nodes.dropLast } := by
    rw [detach, unlinkEq, data.length]
    exact if_neg (not_not.mpr last)
  have size : (index.detach victim).nodes.length = index.nodes.length - 1 := by
    rw [unlinked, List.length_dropLast, data.length]
  have former : ∀ {j}, j < index.nodes.length - 1 → index.formerly victim j = j := fun bound =>
    formerly_of_ne (by omega)
  refine .of_table data (by omega) ?_ ?_
  · intro j bound
    rw [size] at bound
    rw [former bound, unlinked]
    change List.getD _ j _ = _
    rw [node_dropLast, data.length, if_pos bound]
    rfl
  · intro q k d
    rw [size, removeChild, child_erase above]
    constructor
    · intro found
      split at found
      next => cases found
      next other =>
        have bound := (shape.link found).inside
        have survives : d ≠ victim := by
          rintro rfl
          exact other (shape.unique found entry)
        refine ⟨by omega, ?_⟩
        rw [formerly_of_ne survives]
        exact found
    · rintro ⟨bound, found⟩
      rw [former bound] at found
      rw [if_neg]
      · exact found
      · rintro ⟨rfl, rfl⟩
        rw [entry] at found
        obtain rfl := Option.some.inj found
        omega

section Turned

variable {victim p key p' key' : ℕ}

/-- The tables with the entry of the victim erased and the entry of the last node turned to the victim's place. -/
def turned (index : RadixIndex) (victim p key p' key' : ℕ) : RadixIndex :=
  (index.removeChild p key).setChild p' key' victim

theorem sameData_turned (above : p < index.nodes.length) (above' : p' < index.nodes.length) :
    SameData index (index.turned victim p key p' key') := by
  have data : SameData index (index.removeChild p key) := sameData_modify above (·.erase key)
  exact data.trans (sameData_modify (data.length ▸ above') (·.insert key' victim))

theorem child_turned (above : p < index.nodes.length) (above' : p' < index.nodes.length) (q k : ℕ) :
    (index.turned victim p key p' key').child q k =
      if q = p' ∧ k = key' then some victim else if q = p ∧ k = key then none else index.child q k := by
  have data : SameData index (index.removeChild p key) := sameData_modify above (·.erase key)
  rw [turned, setChild, child_relink (data.length ▸ above'), removeChild, child_erase above]

/-- What `detach` builds, once it is known which entries it finds. -/
theorem Shape.detach_eq (shape : Shape index path) (entry : index.child p key = some victim)
    (entry' : index.child p' key' = some (index.nodes.length - 1)) (inner : victim ≠ index.nodes.length - 1) :
    index.detach victim =
      { index.turned victim p key p' key' with
        nodes := ((index.turned victim p key p' key').nodes.set victim
          ((index.turned victim p key p' key').node (index.nodes.length - 1))).dropLast } := by
  have above := inside_of_child entry
  have unlinked : ∀ q k, (index.removeChild p key).child q k =
      if q = p ∧ k = key then none else index.child q k := child_erase above
  have apart : ¬ (p' = p ∧ key' = key) := by
    rintro ⟨rfl, rfl⟩
    rw [entry] at entry'
    exact inner (Option.some.inj entry')
  have only : ∀ {q k}, (index.removeChild p key).child q k = some (index.nodes.length - 1) → q = p' ∧ k = key' := by
    intro q k found
    rw [unlinked] at found
    split at found
    · cases found
    · exact shape.unique found entry'
  have found : (index.removeChild p key).findParent (index.nodes.length - 1) = some (p', key') := by
    refine findParent_eq ?_ only
    rw [unlinked, if_neg apart]
    exact entry'
  have unlinkEq : index.unlink victim = index.removeChild p key := by
    rw [unlink, findParent_eq entry fun up => shape.unique up entry]
  have relinkEq : (index.removeChild p key).relink (index.nodes.length - 1) victim =
      index.turned victim p key p' key' := by
    rw [relink, found]
    rfl
  have data : SameData index (index.removeChild p key) := sameData_modify above (·.erase key)
  rw [detach, unlinkEq, data.length, relinkEq]
  exact if_pos inner

/-- The turned tables hold the surviving entries, by their new places. -/
theorem Shape.turned_iff (shape : Shape index path) (entry : index.child p key = some victim)
    (entry' : index.child p' key' = some (index.nodes.length - 1)) (inner : victim ≠ index.nodes.length - 1)
    (q k d : ℕ) : (index.turned victim p key p' key').child q k = some d ↔
      d < index.nodes.length - 1 ∧ index.child q k = some (index.formerly victim d) := by
  have inside := (shape.link entry).inside
  rw [child_turned (inside_of_child entry) (inside_of_child entry')]
  split
  next last =>
    obtain ⟨rfl, rfl⟩ := last
    rw [entry', Option.some.injEq, Option.some.injEq]
    constructor
    · rintro rfl
      exact ⟨by omega, (formerly_self _).symm⟩
    · rintro ⟨bound, same⟩
      by_contra other
      rw [formerly_of_ne (Ne.symm other)] at same
      omega
  next notLast =>
    split
    next gone =>
      obtain ⟨rfl, rfl⟩ := gone
      constructor
      · intro impossible
        cases impossible
      · rintro ⟨bound, same⟩
        rw [entry, Option.some.injEq] at same
        by_cases here : d = victim
        · rw [here, formerly_self] at same
          exact absurd same inner
        · rw [formerly_of_ne here] at same
          exact absurd same.symm here
    next notGone =>
      constructor
      · intro stays
        have bound := (shape.link stays).inside
        have survives : d ≠ victim := by
          rintro rfl
          exact notGone (shape.unique stays entry)
        have unmoved : d ≠ index.nodes.length - 1 := by
          rintro rfl
          exact notLast (shape.unique stays entry')
        refine ⟨by omega, ?_⟩
        rw [formerly_of_ne survives]
        exact stays
      · rintro ⟨bound, stays⟩
        by_cases here : d = victim
        · rw [here, formerly_self] at stays
          exact absurd (shape.unique stays entry') notLast
        · rw [formerly_of_ne here] at stays
          exact stays

end Turned

/-- Detaching another leaf moves the last node into its slot. -/
theorem Shape.detach_inner (shape : Shape index path) {victim : ℕ} (positive : 0 < victim)
    (inside : victim < index.nodes.length) (inner : victim ≠ index.nodes.length - 1) :
    Removed index (index.detach victim) victim := by
  obtain ⟨p, key, entry⟩ := shape.parent positive inside
  obtain ⟨p', key', entry'⟩ := shape.parent (by omega : 0 < index.nodes.length - 1) (by omega)
  have data : SameData index (index.turned victim p key p' key') :=
    sameData_turned (inside_of_child entry) (inside_of_child entry')
  have detached := shape.detach_eq entry entry' inner
  have size : (index.detach victim).nodes.length = index.nodes.length - 1 := by
    rw [detached, List.length_dropLast, List.length_set, data.length]
  refine .of_table data (by omega) ?_ fun q k d => ?_
  · intro j bound
    rw [size] at bound
    rw [detached]
    change List.getD _ j _ = _
    rw [node_dropLast, List.length_set, data.length, if_pos bound, List.getD_eq_getElem?_getD, List.getElem?_set]
    by_cases here : victim = j
    · subst here
      rw [if_pos rfl, if_pos (data.length ▸ inside), formerly_self]
      rfl
    · rw [if_neg here, formerly_of_ne (Ne.symm here), node, List.getD_eq_getElem?_getD]
  · rw [size]
    exact shape.turned_iff entry entry' inner q k d

theorem Shape.detach (shape : Shape index path) {victim : ℕ} (positive : 0 < victim)
    (inside : victim < index.nodes.length) : Removed index (index.detach victim) victim := by
  by_cases last : victim = index.nodes.length - 1
  · exact shape.detach_last positive inside last
  · exact shape.detach_inner positive inside last

section Removed

variable {after : RadixIndex} {victim : ℕ}

theorem Removed.formerly_inside (removed : Removed index after victim) {j : ℕ} (bound : j < after.nodes.length) :
    index.formerly victim j < index.nodes.length := by
  have size := removed.length
  unfold formerly
  split <;> omega

theorem Removed.formerly_injective (removed : Removed index after victim) {i j : ℕ}
    (hi : i < after.nodes.length) (hj : j < after.nodes.length)
    (same : index.formerly victim i = index.formerly victim j) : i = j := by
  have size := removed.length
  unfold formerly at same
  split at same <;> split at same <;> omega

/-- Every survivor has a new position. -/
theorem Removed.exists_formerly (removed : Removed index after victim) (inside : victim < index.nodes.length)
    {j : ℕ} (bound : j < index.nodes.length) (survives : j ≠ victim) :
    ∃ i < after.nodes.length, index.formerly victim i = j := by
  have size := removed.length
  by_cases last : j = index.nodes.length - 1
  · refine ⟨victim, by omega, ?_⟩
    rw [formerly_self, last]
  · exact ⟨j, by omega, formerly_of_ne survives⟩

/-- Removing a leaf keeps the shape and covers nothing new. -/
theorem Shape.removed (shape : Shape index path) (removed : Removed index after victim) (positive : 0 < victim)
    (inside : victim < index.nodes.length) (leaf : ∀ k, index.child victim k = none) :
    Shape after (path ∘ index.formerly victim) ∧
      ∀ w tokens, after.Covers (path ∘ index.formerly victim) w tokens → index.Covers path w tokens := by
  have size := removed.length
  have root : index.formerly victim 0 = 0 := formerly_of_ne positive.ne
  refine ⟨⟨by omega, ?_, ?_, ?_, ?_⟩, ?_⟩
  · rw [Function.comp, root]
    exact shape.root_path
  · intro p k c entry
    obtain ⟨above, below, entry⟩ := (removed.child _ _ _).mp entry
    have link := shape.link entry
    refine ⟨?_, below, ?_, ?_, ?_⟩
    · rcases Nat.eq_zero_or_pos c with rfl | positive
      · rw [root] at link
        exact absurd link.not_root (lt_irrefl 0)
      · exact positive
    · rw [removed.edge c below]
      exact link.key_first
    · rw [removed.edge c below]
      exact link.path_eq
    · rw [removed.workers c below, removed.workers p above]
      exact link.workers
  · intro p k p' k' c entry entry'
    obtain ⟨above, _, entry⟩ := (removed.child _ _ _).mp entry
    obtain ⟨above', _, entry'⟩ := (removed.child _ _ _).mp entry'
    obtain ⟨same, key⟩ := shape.unique entry entry'
    exact ⟨removed.formerly_injective above above' same, key⟩
  · intro c root bound
    have lifted : 0 < index.formerly victim c := by
      unfold formerly
      split <;> omega
    obtain ⟨p, k, entry⟩ := shape.parent lifted (removed.formerly_inside bound)
    have survives : p ≠ victim := by
      rintro rfl
      rw [leaf k] at entry
      cases entry
    obtain ⟨q, above, rfl⟩ := removed.exists_formerly inside (inside_of_child entry) survives
    exact ⟨q, k, (removed.child _ _ _).mpr ⟨above, bound, entry⟩⟩
  · rintro w tokens ⟨j, bound, member, agrees⟩
    rw [removed.workers j bound] at member
    exact ⟨_, removed.formerly_inside bound, member, agrees⟩

end Removed

/-! ### Pruning -/

theorem staleLeaf_spec {now ttlMs : Millis} {victim : ℕ} (found : index.staleLeaf now ttlMs = some victim) :
    0 < victim ∧ victim < index.nodes.length ∧ (∀ k, index.child victim k = none) ∧
      ttlMs < now - (index.node victim).lastAccessMs := by
  have inside := List.mem_range.mp (List.mem_of_find?_eq_some found)
  have picked := List.find?_some found
  simp only [decide_eq_true_eq] at picked
  refine ⟨Nat.pos_of_ne_zero picked.1, inside, fun k => ?_, picked.2.2⟩
  have empty : (index.node victim).children = ∅ := AList.ext picked.2.1
  rw [child, empty]
  rfl

theorem Shape.pruneLoop (now ttlMs : Millis) (rounds : ℕ) {index : RadixIndex} {path : ℕ → List TokenId}
    (shape : Shape index path) :
    ∃ path', Shape (RadixIndex.pruneLoop now ttlMs rounds index).2 path' ∧
      ∀ w tokens, (RadixIndex.pruneLoop now ttlMs rounds index).2.Covers path' w tokens →
        index.Covers path w tokens := by
  induction rounds generalizing index path with
  | zero => exact ⟨path, shape, fun _ _ => id⟩
  | succ rounds ih =>
    rw [RadixIndex.pruneLoop]
    cases found : index.staleLeaf now ttlMs with
    | none => exact ⟨path, shape, fun _ _ => id⟩
    | some victim =>
      obtain ⟨positive, inside, leaf, -⟩ := staleLeaf_spec found
      obtain ⟨next, less⟩ := shape.removed (shape.detach positive inside) positive inside leaf
      obtain ⟨path', final, fewer⟩ := ih next
      exact ⟨path', final, fun w tokens covered => less w tokens (fewer w tokens covered)⟩

/-! ### Runs -/

open Machine

/-- The operations of the index. -/
inductive Op where
  | insert (worker : WorkerId) (tokens : List TokenId) (now : Millis)
  | forgetWorker (worker : WorkerId)
  | prune (now ttlMs : Millis)
  | clear
deriving DecidableEq, Repr

def step (index : RadixIndex) : Op → RadixIndex
  | .insert worker tokens now => index.insert worker tokens now
  | .forgetWorker worker => index.forgetWorker worker
  | .prune now ttlMs => (index.prune now ttlMs).2
  | .clear => index.clear

/-- Any sequence of operations on a new index. -/
def system (minPrefixTokens maxNodes : ℕ) : System RadixIndex Op :=
  .ofFun (· = .new minPrefixTokens maxNodes) (fun _ _ => True) step

/-- An operation after which the index still knows everything it was told: no pruning, and no
string turned away. -/
def Retains (index : RadixIndex) : Op → Prop
  | .insert _ tokens _ => ¬ index.rejects tokens
  | .prune _ _ => False
  | .forgetWorker _ => True
  | .clear => True

/-- One operation's effect on the strings inserted for a worker and not forgotten since. -/
def remember (worker : WorkerId) (known : List (List TokenId)) : Op → List (List TokenId)
  | .insert w tokens _ => if w = worker then tokens :: known else known
  | .forgetWorker w => if w = worker then [] else known
  | .prune _ _ => known
  | .clear => []

/-- The strings inserted for a worker since the last clear and since it was last forgotten. -/
def insertedFor (worker : WorkerId) (ops : List Op) : List (List TokenId) := ops.foldl (remember worker) []

/-- The longest common prefix of a query with any of the strings, zero if there is none. -/
def longestCommon (strings : List (List TokenId)) (query : List TokenId) : ℕ :=
  (strings.map fun string => commonPrefixLen string query).foldr max 0

/-- The nodes form a tree rooted at node 0. -/
structure IsTree (index : RadixIndex) : Prop where
  rooted : 0 < index.nodes.length ∧ ∀ j < index.nodes.length, Below index 0 j
  root_unparented : ∀ p k, index.child p k ≠ some 0
  one_parent : ∀ c, 0 < c → c < index.nodes.length → ∃! entry : ℕ × TokenId, index.child entry.1 entry.2 = some c
  entry : ∀ p k c, index.child p k = some c →
    c < index.nodes.length ∧ (∃ rest, (index.node c).edge = k :: rest) ∧
      (index.node c).workers ⊆ (index.node p).workers

theorem Shape.isTree (shape : Shape index path) : index.IsTree where
  rooted := ⟨shape.root_inside, fun _ inside => shape.below_root inside⟩
  root_unparented _ _ entry := absurd (shape.link entry).not_root (lt_irrefl 0)
  one_parent c positive inside := by
    obtain ⟨p, k, entry⟩ := shape.parent positive inside
    refine ⟨(p, k), entry, ?_⟩
    rintro ⟨p', k'⟩ other
    obtain ⟨rfl, rfl⟩ := shape.unique other entry
    rfl
  entry _ _ _ entry := ⟨(shape.link entry).inside, (shape.link entry).key_first, (shape.link entry).workers⟩

theorem insertedFor_snoc (worker : WorkerId) (ops : List Op) (op : Op) :
    insertedFor worker (ops ++ [op]) = remember worker (insertedFor worker ops) op :=
  List.foldl_concat ..

theorem le_longestCommon_iff {strings : List (List TokenId)} {query : List TokenId} {n : ℕ} :
    n ≤ longestCommon strings query ↔ n = 0 ∨ ∃ string ∈ strings, n ≤ commonPrefixLen string query := by
  induction strings with
  | nil => simp [longestCommon]
  | cons string strings ih =>
    change n ≤ max _ (longestCommon strings query) ↔ _
    rw [le_max_iff, ih]
    simp only [List.mem_cons, exists_eq_or_imp]
    tauto

/-- Some string in the list starts with the given tokens. -/
def Extends (strings : List (List TokenId)) (tokens : List TokenId) : Prop :=
  ∃ string ∈ strings, tokens <+: string

theorem extends_remember_insert {worker w : WorkerId} {known : List (List TokenId)} {tokens string : List TokenId}
    {now : Millis} :
    Extends (remember w known (.insert worker tokens now)) string ↔
      Extends known string ∨ w = worker ∧ string <+: tokens := by
  simp only [Extends, remember]
  split
  next same =>
    subst same
    simp only [List.mem_cons, exists_eq_or_imp, true_and]
    exact or_comm
  next other => simp [Ne.symm other]

theorem extends_remember_forget {worker w : WorkerId} {known : List (List TokenId)} {string : List TokenId} :
    Extends (remember w known (.forgetWorker worker)) string ↔ w ≠ worker ∧ Extends known string := by
  simp only [Extends, remember]
  split
  next same => simp [same]
  next other => simp [Ne.symm other]

/-- The tree stands, and what it covers for a worker are prefixes of strings it was given. -/
def Sound (ops : List Op) (index : RadixIndex) : Prop :=
  ∃ path, Shape index path ∧ ∀ w tokens, index.Covers path w tokens → Extends (insertedFor w ops) tokens

/-- The tree stands, and it covers for a worker exactly the prefixes of the strings it was given. -/
def Exact (ops : List Op) (index : RadixIndex) : Prop :=
  ∃ path, Shape index path ∧ ∀ w tokens, index.Covers path w tokens ↔ Extends (insertedFor w ops) tokens

theorem step_rejected {worker : WorkerId} {tokens : List TokenId} {now : Millis} (rejected : index.rejects tokens) :
    index.step (.insert worker tokens now) = index := if_pos rejected

theorem Sound.step {ops : List Op} (sound : Sound ops index) (op : Op) :
    Sound (ops ++ [op]) (index.step op) := by
  obtain ⟨path, shape, covers⟩ := sound
  cases op with
  | insert worker tokens now =>
    by_cases rejected : index.rejects tokens
    · rw [step_rejected rejected]
      refine ⟨path, shape, fun w string covered => ?_⟩
      rw [insertedFor_snoc, extends_remember_insert]
      exact .inl (covers w string covered)
    · obtain ⟨path', shape', covers'⟩ := shape.insert worker tokens now rejected
      refine ⟨path', shape', fun w string covered => ?_⟩
      rw [insertedFor_snoc, extends_remember_insert]
      exact ((covers' w string).mp covered).imp_left (covers w string)
  | forgetWorker worker =>
    obtain ⟨shape', covers'⟩ := shape.forgetWorker worker
    refine ⟨path, shape', fun w string covered => ?_⟩
    rw [insertedFor_snoc, extends_remember_forget]
    obtain ⟨other, before⟩ := (covers' w string).mp covered
    exact ⟨other, covers w string before⟩
  | prune now ttlMs =>
    obtain ⟨path', shape', fewer⟩ := shape.pruneLoop now ttlMs index.nodes.length
    refine ⟨path', shape', fun w string covered => ?_⟩
    rw [insertedFor_snoc]
    exact covers w string (fewer w string covered)
  | clear =>
    obtain ⟨shape', nothing⟩ := shape_of_root (rfl : index.clear.nodes = [Node.new [] 0])
    exact ⟨_, shape', fun w string covered => absurd covered (nothing w string)⟩

theorem Exact.step {ops : List Op} (exact : Exact ops index) {op : Op} (retains : index.Retains op) :
    Exact (ops ++ [op]) (index.step op) := by
  obtain ⟨path, shape, covers⟩ := exact
  cases op with
  | insert worker tokens now =>
    obtain ⟨path', shape', covers'⟩ := shape.insert worker tokens now retains
    refine ⟨path', shape', fun w string => ?_⟩
    rw [insertedFor_snoc, extends_remember_insert, ← covers]
    exact covers' w string
  | forgetWorker worker =>
    obtain ⟨shape', covers'⟩ := shape.forgetWorker worker
    refine ⟨path, shape', fun w string => ?_⟩
    rw [insertedFor_snoc, extends_remember_forget, ← covers]
    exact covers' w string
  | prune now ttlMs => exact retains.elim
  | clear =>
    obtain ⟨shape', nothing⟩ := shape_of_root (rfl : index.clear.nodes = [Node.new [] 0])
    refine ⟨_, shape', fun w string => ⟨fun covered => absurd covered (nothing w string), ?_⟩⟩
    rw [insertedFor_snoc]
    rintro ⟨_, member, _⟩
    cases member

theorem exact_new (minPrefixTokens maxNodes : ℕ) : Exact [] (new minPrefixTokens maxNodes) := by
  obtain ⟨shape, nothing⟩ := shape_of_root (rfl : (new minPrefixTokens maxNodes).nodes = [Node.new [] 0])
  refine ⟨_, shape, fun w string => ⟨fun covered => absurd covered (nothing w string), ?_⟩⟩
  rintro ⟨_, member, _⟩
  cases member

theorem Exact.sound {ops : List Op} (exact : Exact ops index) : Sound ops index := by
  obtain ⟨path, shape, covers⟩ := exact
  exact ⟨path, shape, fun w string => (covers w string).mp⟩

theorem Sound.matchWorker_le {ops : List Op} (sound : Sound ops index) (worker : WorkerId)
    (tokens : List TokenId) :
    index.matchWorker worker tokens ≤ longestCommon (insertedFor worker ops) tokens := by
  obtain ⟨path, shape, covers⟩ := sound
  rw [le_longestCommon_iff]
  rcases (shape.le_matchWorker_iff worker tokens _).mp le_rfl with zero | ⟨short, covered⟩
  · exact .inl zero
  · obtain ⟨string, member, agrees⟩ := covers worker _ covered
    exact .inr ⟨string, member, (le_commonPrefixLen_iff short).mpr agrees⟩

theorem Exact.le_matchWorker {ops : List Op} (exact : Exact ops index) (worker : WorkerId)
    (tokens : List TokenId) :
    longestCommon (insertedFor worker ops) tokens ≤ index.matchWorker worker tokens := by
  obtain ⟨path, shape, covers⟩ := exact
  rw [shape.le_matchWorker_iff]
  rcases le_longestCommon_iff.mp (le_refl (longestCommon (insertedFor worker ops) tokens)) with zero |
    ⟨string, member, bound⟩
  · exact .inl zero
  · have short := bound.trans (commonPrefixLen_le_right string tokens)
    exact .inr ⟨short, (covers worker _).mpr ⟨string, member, (le_commonPrefixLen_iff short).mp bound⟩⟩

theorem sound_of_run {minPrefixTokens maxNodes : ℕ} {ops : List Op}
    (run : Run (system minPrefixTokens maxNodes) ops index) : Sound ops index := by
  refine run.induct (P := Sound) ?_ ?_
  · rintro s rfl
    exact (exact_new minPrefixTokens maxNodes).sound
  · rintro ops s op t before ⟨-, rfl⟩
    exact before.step op

/-- After every sequence of operations the index is a tree and credits a worker with no more than the
longest common prefix with a string it was given; with nothing pruned and nothing turned away it
credits exactly that. -/
theorem radix_index_sound_and_exact (minPrefixTokens maxNodes : ℕ) :
    (∀ ops index, Run (system minPrefixTokens maxNodes) ops index →
      index.IsTree ∧ ∀ worker tokens,
        index.matchWorker worker tokens ≤ longestCommon (insertedFor worker ops) tokens) ∧
    (∀ ops index, Run ((system minPrefixTokens maxNodes).restrict Retains) ops index →
      ∀ worker tokens, index.matchWorker worker tokens = longestCommon (insertedFor worker ops) tokens) := by
  constructor
  · intro ops index run
    have sound := sound_of_run run
    refine ⟨?_, sound.matchWorker_le⟩
    obtain ⟨path, shape, _⟩ := sound
    exact shape.isTree
  · intro ops index run worker tokens
    have exact : Exact ops index := run.induct (P := Exact)
      (fun s first => by
        rw [show s = new minPrefixTokens maxNodes from first]
        exact exact_new minPrefixTokens maxNodes)
      (fun ops s op t before taken => by
        rw [taken.2.2]
        exact before.step taken.1)
    exact le_antisymm (exact.sound.matchWorker_le worker tokens) (exact.le_matchWorker worker tokens)

/-- Two workers whose strings part inside an edge. -/
def forkedIndex : RadixIndex :=
  ((new 0 8).step (.insert 1 [1, 2, 3] 0)).step (.insert 2 [1, 2, 4] 1)

theorem radix_index_sound_and_exact_forked :
    forkedIndex.IsTree ∧ forkedIndex.matchWorker 1 [1, 2, 4] = longestCommon [[1, 2, 3]] [1, 2, 4] ∧
      longestCommon [[1, 2, 3]] [1, 2, 4] = 2 := by
  have start : Run ((system 0 8).restrict Retains) [] (new 0 8) := .start rfl
  have first := start.applyGuarded (.insert 1 [1, 2, 3] 0) (by simp only [Retains]; decide) trivial
  have second := first.applyGuarded (.insert 2 [1, 2, 4] 1) (by simp only [Retains]; decide) trivial
  obtain ⟨sound, exact⟩ := radix_index_sound_and_exact 0 8
  exact ⟨(sound _ _ second.of_restrict).1, exact _ _ second 1 [1, 2, 4], by decide⟩

end TrtLlm.KvCache.RadixIndex
