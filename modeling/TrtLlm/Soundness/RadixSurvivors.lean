import Mathlib.Data.Finset.Card
import Mathlib.Data.Finset.Max
import TrtLlm.Soundness.RadixPrune
import TrtLlm.ToMathlib.AListSum

/-! # What survives pruning

A node is known by the tokens from the root to it: in a tree of the index's shape no two nodes share them, and one node
is below another exactly when its tokens extend the other's. Each round of pruning drops one stale leaf from this
picture, so in the end exactly the subtrees without a fresh node are gone, whatever the positions in the vector were.
-/

namespace TrtLlm.KvCache.RadixIndex

variable {index after : RadixIndex} {path : ℕ → List TokenId} {i j : ℕ} {tokens : List TokenId} {now ttlMs : Millis}

/-! ### Nodes by their tokens -/

/-- The tokens on the way from the root down to a node. -/
inductive Located (index : RadixIndex) : List TokenId → ℕ → Prop
  | root : Located index [] 0
  | step {tokens : List TokenId} {p k c : ℕ} : Located index tokens p → index.child p k = some c →
      Located index (tokens ++ (index.node c).edge) c

/-- What a node holds besides its child table. -/
structure Content where
  edge : List TokenId
  workers : List WorkerId
  lastAccessMs : Millis
deriving DecidableEq

def content (index : RadixIndex) (i : ℕ) : Content :=
  ⟨(index.node i).edge, (index.node i).workers, (index.node i).lastAccessMs⟩

/-- The node with these tokens holds this. -/
def Holds (index : RadixIndex) (tokens : List TokenId) (content : Content) : Prop :=
  ∃ i, Located index tokens i ∧ index.content i = content

/-- The node or one below it was accessed within the time to live. -/
def FreshBelow (index : RadixIndex) (now ttlMs : Millis) (i : ℕ) : Prop :=
  ∃ j, Below index i j ∧ now - (index.node j).lastAccessMs ≤ ttlMs

theorem Shape.located_iff (shape : Shape index path) :
    Located index tokens i ↔ i < index.nodes.length ∧ path i = tokens := by
  constructor
  · intro located
    induction located with
    | root => exact ⟨shape.root_inside, shape.root_path⟩
    | step _ entry ih =>
      have link := shape.link entry
      exact ⟨link.inside, by rw [link.path_eq, ih.2]⟩
  · rintro ⟨inside, rfl⟩
    have below := shape.below_root inside
    clear inside
    induction below with
    | refl => exact shape.root_path ▸ .root
    | step _ entry ih =>
      rw [(shape.link entry).path_eq]
      exact ih.step entry

/-- The tree order is the prefix order of the tokens. -/
theorem Shape.below_iff (shape : Shape index path) (above : i < index.nodes.length) (inside : j < index.nodes.length) :
    Below index i j ↔ path i <+: path j := by
  refine ⟨fun below => (shape.below_path below).1, fun prefixed => ?_⟩
  have rooted := shape.below_root above
  clear above
  induction rooted with
  | refl => exact shape.below_root inside
  | step _ entry ih =>
    have link := shape.link entry
    obtain ⟨rest, edge⟩ := link.key_first
    rw [link.path_eq, edge] at prefixed
    rcases (ih ((List.prefix_append _ _).trans prefixed)).cases_child with rfl | ⟨k', c', entry', below⟩
    · have short := prefixed.length_le
      rw [List.length_append, List.length_cons] at short
      omega
    · -- Both edges start the same remaining tokens, so they have the same key.
      have link' := shape.link entry'
      obtain ⟨rest', edge'⟩ := link'.key_first
      have other := (shape.below_path below).1
      rw [link'.path_eq, edge'] at other
      obtain ⟨tail, split⟩ := prefixed
      obtain ⟨tail', split'⟩ := other
      rw [← split', List.append_assoc, List.append_assoc, List.append_cancel_left_eq, List.cons_append,
        List.cons_append] at split
      obtain ⟨rfl, -⟩ := List.cons.inj split
      obtain rfl := Option.some.inj (entry.symm.trans entry')
      exact below

theorem Shape.path_injective (shape : Shape index path) (hi : i < index.nodes.length) (hj : j < index.nodes.length)
    (same : path i = path j) : i = j := by
  rcases ((shape.below_iff hi hj).mpr (same ▸ List.prefix_refl _)).cases_child with rfl | ⟨k, c, entry, below⟩
  · rfl
  · have longer := (shape.link entry).path_length
    have least := (shape.below_path below).1.length_le
    rw [same] at longer
    omega

theorem Shape.holds_iff (shape : Shape index path) {content : Content} :
    index.Holds tokens content ↔ ∃ i < index.nodes.length, path i = tokens ∧ index.content i = content := by
  simp only [Holds, shape.located_iff, and_assoc]

/-- Indexes that hold the same have as many nodes. -/
theorem Shape.length_le {other : RadixIndex} {otherPath : ℕ → List TokenId} (shape : Shape index path)
    (otherShape : Shape other otherPath)
    (same : ∀ tokens content, index.Holds tokens content → other.Holds tokens content) :
    index.nodes.length ≤ other.nodes.length := by
  have images : (Finset.range index.nodes.length).image path ⊆ (Finset.range other.nodes.length).image otherPath := by
    intro tokens member
    obtain ⟨i, inside, rfl⟩ := Finset.mem_image.mp member
    have held : index.Holds (path i) (index.content i) := shape.holds_iff.mpr ⟨i, Finset.mem_range.mp inside, rfl, rfl⟩
    obtain ⟨j, bound, located, -⟩ := otherShape.holds_iff.mp (same _ _ held)
    exact Finset.mem_image.mpr ⟨j, Finset.mem_range.mpr bound, located⟩
  have distinct : ((Finset.range index.nodes.length).image path).card = index.nodes.length := by
    rw [Finset.card_image_of_injOn, Finset.card_range]
    exact fun i hi j hj => shape.path_injective (Finset.mem_range.mp hi) (Finset.mem_range.mp hj)
  calc index.nodes.length
      _ = ((Finset.range index.nodes.length).image path).card := distinct.symm
      _ ≤ ((Finset.range other.nodes.length).image otherPath).card := Finset.card_le_card images
      _ ≤ (Finset.range other.nodes.length).card := Finset.card_image_le
      _ = other.nodes.length := Finset.card_range _

/-! ### Survivors -/

/-- The root's tokens, or those of a node above a fresh one. -/
def Survives (index : RadixIndex) (now ttlMs : Millis) (tokens : List TokenId) : Prop :=
  tokens = [] ∨ ∃ longer content, index.Holds longer content ∧ tokens <+: longer ∧ now - content.lastAccessMs ≤ ttlMs

theorem Survives.mono (survives : Survives after now ttlMs tokens)
    (less : ∀ tokens content, after.Holds tokens content → index.Holds tokens content) :
    Survives index now ttlMs tokens := by
  refine survives.imp_right ?_
  rintro ⟨longer, content, held, fresh⟩
  exact ⟨longer, content, less _ _ held, fresh⟩

theorem Shape.survives_iff (shape : Shape index path) (inside : i < index.nodes.length) :
    Survives index now ttlMs (path i) ↔ i = 0 ∨ FreshBelow index now ttlMs i := by
  refine or_congr ⟨fun empty => ?_, fun root => ?_⟩ ⟨?_, ?_⟩
  · exact shape.path_injective inside shape.root_inside (empty.trans shape.root_path.symm)
  · rw [root, shape.root_path]
  · rintro ⟨longer, content, held, prefixed, fresh⟩
    obtain ⟨j, bound, rfl, rfl⟩ := shape.holds_iff.mp held
    exact ⟨j, (shape.below_iff inside bound).mpr prefixed, fresh⟩
  · rintro ⟨j, below, fresh⟩
    have bound := shape.below_inside inside below
    exact ⟨path j, index.content j, shape.holds_iff.mpr ⟨j, bound, rfl, rfl⟩, (shape.below_path below).1, fresh⟩

section Round

variable {victim : ℕ}

theorem Removed.formerly_ne (removed : Removed index after victim) {j : ℕ} (bound : j < after.nodes.length) :
    index.formerly victim j ≠ victim := by
  have size := removed.length
  unfold formerly
  split <;> omega

/-- Removing a leaf leaves all other nodes with their tokens and what they hold. -/
theorem Shape.removed_holds_iff (shape : Shape index path) (removed : Removed index after victim)
    (positive : 0 < victim) (inside : victim < index.nodes.length) (leaf : ∀ k, index.child victim k = none)
    {content : Content} :
    after.Holds tokens content ↔
      ∃ i < index.nodes.length, i ≠ victim ∧ path i = tokens ∧ index.content i = content := by
  have same : ∀ j < after.nodes.length, after.content j = index.content (index.formerly victim j) := by
    intro j bound
    rw [RadixIndex.content, RadixIndex.content, removed.edge j bound, removed.workers j bound, removed.touched j bound]
  rw [(shape.removed removed positive inside leaf).1.holds_iff]
  constructor
  · rintro ⟨j, bound, located, rfl⟩
    exact ⟨_, removed.formerly_inside bound, removed.formerly_ne bound, located, (same j bound).symm⟩
  · rintro ⟨i, bound, other, rfl, rfl⟩
    obtain ⟨j, kept, rfl⟩ := removed.exists_formerly inside bound other
    exact ⟨j, kept, rfl, same j kept⟩

/-- A round drops nothing that survives. -/
theorem Shape.stale_round (shape : Shape index path) (removed : Removed index after victim) (positive : 0 < victim)
    (inside : victim < index.nodes.length) (leaf : ∀ k, index.child victim k = none)
    (stale : ttlMs < now - (index.node victim).lastAccessMs) {content : Content} (held : index.Holds tokens content)
    (survives : Survives index now ttlMs tokens) : after.Holds tokens content ∧ Survives after now ttlMs tokens := by
  obtain ⟨i, bound, rfl, rfl⟩ := shape.holds_iff.mp held
  refine ⟨(shape.removed_holds_iff removed positive inside leaf).mpr ⟨i, bound, ?_, rfl, rfl⟩, ?_⟩
  · rintro rfl
    rcases (shape.survives_iff bound).mp survives with root | ⟨j, below, fresh⟩
    · exact positive.ne' root
    · rcases below.cases_child with rfl | ⟨k, c, entry, -⟩
      · exact fresh.not_gt stale
      · rw [leaf k] at entry
        cases entry
  · refine survives.imp_right ?_
    rintro ⟨longer, content, heldToo, prefixed, fresh⟩
    obtain ⟨j, boundToo, rfl, rfl⟩ := shape.holds_iff.mp heldToo
    refine ⟨path j, index.content j, ?_, prefixed, fresh⟩
    refine (shape.removed_holds_iff removed positive inside leaf).mpr ⟨j, boundToo, ?_, rfl, rfl⟩
    rintro rfl
    exact fresh.not_gt stale

end Round

theorem staleLeaf_eq_none_iff : index.staleLeaf now ttlMs = none ↔
    ∀ i < index.nodes.length, i ≠ 0 → (∀ k, index.child i k = none) → now - (index.node i).lastAccessMs ≤ ttlMs := by
  have leaf : ∀ i, (index.node i).children.entries = [] ↔ ∀ k, index.child i k = none := by
    intro i
    constructor
    · intro empty k
      rw [child, AList.lookup_eq_none, AList.mem_keys, AList.keys, empty]
      exact List.not_mem_nil
    · intro none
      exact (AList.perm_of_lookup (t := ∅) none).eq_nil
  simp only [staleLeaf, List.find?_eq_none, List.mem_range, decide_eq_true_eq, not_and, not_lt, leaf]

/-- Without a stale leaf, every node survives: a lowest node under it is a leaf, and fresh. -/
theorem Shape.survives_of_no_stale (shape : Shape index path) (done : index.staleLeaf now ttlMs = none)
    {content : Content} (held : index.Holds tokens content) : Survives index now ttlMs tokens := by
  classical
  obtain ⟨i, inside, rfl, -⟩ := shape.holds_iff.mp held
  rw [shape.survives_iff inside]
  by_cases root : i = 0
  · exact .inl root
  · have some : ((Finset.range index.nodes.length).filter fun j => Below index i j).Nonempty :=
      ⟨i, Finset.mem_filter.mpr ⟨Finset.mem_range.mpr inside, .refl i⟩⟩
    obtain ⟨j, member, lowest⟩ := Finset.exists_max_image _ (fun j => (path j).length) some
    obtain ⟨bound, below⟩ := Finset.mem_filter.mp member
    have leaf : ∀ k, index.child j k = none := by
      intro k
      cases entry : index.child j k with
      | none => rfl
      | some c =>
        have link := shape.link entry
        have deeper := lowest c (Finset.mem_filter.mpr ⟨Finset.mem_range.mpr link.inside, below.step entry⟩)
        exact absurd link.path_length deeper.not_gt
    have nonroot : j ≠ 0 := by
      rintro rfl
      have short := (shape.below_path below).1
      rw [shape.root_path, List.prefix_nil] at short
      exact root (shape.path_injective inside shape.root_inside (short.trans shape.root_path.symm))
    exact .inr ⟨j, below, staleLeaf_eq_none_iff.mp done j (Finset.mem_range.mp bound) nonroot leaf⟩

/-! ### The loop -/

/-- Any number of rounds drops nodes, and none that survives; as many rounds as there are nodes leave no stale leaf. -/
theorem Shape.pruneLoop_spec (shape : Shape index path) (now ttlMs : Millis) (rounds : ℕ) :
    let removed := (RadixIndex.pruneLoop now ttlMs rounds index).1
    let after := (RadixIndex.pruneLoop now ttlMs rounds index).2
    (∃ path', Shape after path') ∧ removed + after.nodes.length = index.nodes.length ∧
      (index.nodes.length ≤ rounds + 1 → after.staleLeaf now ttlMs = none) ∧
      (∀ tokens content, after.Holds tokens content → index.Holds tokens content) ∧
      ∀ tokens content, index.Holds tokens content → Survives index now ttlMs tokens → after.Holds tokens content := by
  induction rounds generalizing index path with
  | zero =>
    refine ⟨⟨path, shape⟩, Nat.zero_add _, fun one => ?_, fun _ _ => id, fun _ _ held _ => held⟩
    refine staleLeaf_eq_none_iff.mpr fun i (inside : i < index.nodes.length) nonroot => ?_
    omega
  | succ rounds ih =>
    rw [RadixIndex.pruneLoop]
    cases found : index.staleLeaf now ttlMs with
    | none => exact ⟨⟨path, shape⟩, Nat.zero_add _, fun _ => found, fun _ _ => id, fun _ _ held _ => held⟩
    | some victim =>
      obtain ⟨positive, inside, leaf, stale⟩ := staleLeaf_spec found
      have removed := shape.detach positive inside
      have size := removed.length
      obtain ⟨shape', total, done, less, kept⟩ := ih (shape.removed removed positive inside leaf).1
      refine ⟨shape', ?_, fun enough => done (by omega), fun tokens content held => ?_,
        fun tokens content held survives => ?_⟩
      · dsimp only
        omega
      · obtain ⟨i, bound, -, rest⟩ :=
          (shape.removed_holds_iff removed positive inside leaf).mp (less tokens content held)
        exact shape.holds_iff.mpr ⟨i, bound, rest⟩
      · obtain ⟨heldToo, survivesToo⟩ := shape.stale_round removed positive inside leaf stale held survives
        exact kept tokens content heldToo survivesToo

/-- Once no stale leaf is left, more rounds do nothing. -/
theorem pruneLoop_add {rounds : ℕ} (done : (pruneLoop now ttlMs rounds index).2.staleLeaf now ttlMs = none)
    (extra : ℕ) : pruneLoop now ttlMs (rounds + extra) index = pruneLoop now ttlMs rounds index := by
  induction rounds generalizing index with
  | zero =>
    cases extra with
    | zero => rfl
    | succ extra =>
      have stop : index.staleLeaf now ttlMs = none := done
      rw [Nat.zero_add, pruneLoop, pruneLoop, stop]
  | succ rounds ih =>
    rw [Nat.add_right_comm, pruneLoop, pruneLoop]
    rw [pruneLoop] at done
    cases found : index.staleLeaf now ttlMs with
    | none => rfl
    | some victim =>
      rw [found] at done
      dsimp only
      rw [ih done]

/-- What pruning leaves, and how many nodes it counts. -/
theorem Shape.prune_spec (shape : Shape index path) (now ttlMs : Millis) :
    (index.prune now ttlMs).2.staleLeaf now ttlMs = none ∧
      (index.prune now ttlMs).1 + (index.prune now ttlMs).2.nodes.length = index.nodes.length ∧
      (∃ path', Shape (index.prune now ttlMs).2 path') ∧
      ∀ tokens content, (index.prune now ttlMs).2.Holds tokens content ↔
        index.Holds tokens content ∧ Survives index now ttlMs tokens := by
  obtain ⟨⟨path', shape'⟩, total, done, less, kept⟩ := shape.pruneLoop_spec now ttlMs index.nodes.length
  have stop := done (Nat.le_succ _)
  refine ⟨stop, total, ⟨path', shape'⟩, fun tokens content => ⟨fun held => ?_, fun both => kept _ _ both.1 both.2⟩⟩
  exact ⟨less _ _ held, (shape'.survives_of_no_stale stop held).mono less⟩

/-- Pruning ends with no stale leaf left. It keeps, unchanged, the root and exactly the nodes with a fresh node at or
below them, known by their tokens, and counts the others. So it does the same to any two indexes that hold the same. -/
theorem prune_drops_stale_subtrees {minPrefixTokens maxNodes : ℕ} {ops : List Op}
    (run : Machine.Run (system minPrefixTokens maxNodes) ops index) (now ttlMs : Millis) :
    let removed := (index.prune now ttlMs).1
    let after := (index.prune now ttlMs).2
    (after.staleLeaf now ttlMs = none ∧
      ∀ rounds, index.nodes.length ≤ rounds → pruneLoop now ttlMs rounds index = index.prune now ttlMs) ∧
    ((∀ i < index.nodes.length, ∃ tokens, Located index tokens i) ∧
      ∀ tokens i j, Located index tokens i → Located index tokens j → i = j) ∧
    (∀ tokens content, after.Holds tokens content ↔
      ∃ i, Located index tokens i ∧ index.content i = content ∧ (i = 0 ∨ FreshBelow index now ttlMs i)) ∧
    removed + after.nodes.length = index.nodes.length ∧
    ∀ (n m : ℕ) (otherOps : List Op) (other : RadixIndex), Machine.Run (system n m) otherOps other →
      (∀ tokens content, other.Holds tokens content ↔ index.Holds tokens content) →
      (other.prune now ttlMs).1 = removed ∧
        ∀ tokens content, (other.prune now ttlMs).2.Holds tokens content ↔ after.Holds tokens content := by
  obtain ⟨path, shape, -⟩ := sound_of_run run
  obtain ⟨stop, total, ⟨afterPath, afterShape⟩, holds⟩ := shape.prune_spec now ttlMs
  refine ⟨⟨stop, fun rounds enough => ?_⟩, ⟨fun i inside => ?_, fun tokens i j first second => ?_⟩,
    fun tokens content => ?_, total, fun n m otherOps other otherRun same => ?_⟩
  · obtain ⟨extra, rfl⟩ := Nat.exists_eq_add_of_le enough
    exact pruneLoop_add stop extra
  · exact ⟨path i, shape.located_iff.mpr ⟨inside, rfl⟩⟩
  · obtain ⟨hi, rfl⟩ := shape.located_iff.mp first
    obtain ⟨hj, equal⟩ := shape.located_iff.mp second
    exact shape.path_injective hi hj equal.symm
  · rw [holds, shape.holds_iff]
    simp only [shape.located_iff, and_assoc]
    constructor
    · rintro ⟨⟨i, inside, rfl, held⟩, survives⟩
      exact ⟨i, inside, rfl, held, (shape.survives_iff inside).mp survives⟩
    · rintro ⟨i, inside, rfl, held, survives⟩
      exact ⟨⟨i, inside, rfl, held⟩, (shape.survives_iff inside).mpr survives⟩
  · obtain ⟨otherPath, otherShape, -⟩ := sound_of_run otherRun
    obtain ⟨-, otherTotal, ⟨otherAfterPath, otherAfterShape⟩, otherHolds⟩ :=
      otherShape.prune_spec now ttlMs
    have agree : ∀ tokens content,
        (other.prune now ttlMs).2.Holds tokens content ↔ (index.prune now ttlMs).2.Holds tokens content := by
      intro tokens content
      rw [otherHolds, holds, same]
      refine and_congr_right fun _ => ?_
      exact ⟨fun survives => survives.mono fun _ _ => (same _ _).mp,
        fun survives => survives.mono fun _ _ => (same _ _).mpr⟩
    have before := le_antisymm (otherShape.length_le shape fun _ _ => (same _ _).mp)
      (shape.length_le otherShape fun _ _ => (same _ _).mpr)
    have later := le_antisymm (otherAfterShape.length_le afterShape fun _ _ => (agree _ _).mp)
      (afterShape.length_le otherAfterShape fun _ _ => (agree _ _).mpr)
    exact ⟨by omega, agree⟩

/-- An old fork of three nodes and a younger branch. -/
def agedIndex : RadixIndex :=
  [.insert 1 [1, 2, 3] 0, .insert 2 [1, 2, 4] 1, .insert 2 [5, 6] 20].foldl step (new 0 8)

theorem agedIndex_pruned :
    (agedIndex.prune 25 10).1 = 3 ∧ (agedIndex.prune 25 10).2.Holds [5, 6] ⟨[5, 6], [2], 20⟩ := by
  have start : Machine.Run (system 0 8) [] (new 0 8) := .start rfl
  have run : Machine.Run (system 0 8) _ agedIndex := start.foldl (fun _ _ => trivial) _
  obtain ⟨-, -, holds, total, -⟩ := prune_drops_stale_subtrees run 25 10
  refine ⟨?_, (holds _ _).mpr ⟨4, ?_, by decide +kernel, .inr ⟨4, .refl 4, by decide +kernel⟩⟩⟩
  · have before : agedIndex.nodes.length = 5 := by decide +kernel
    have left : (agedIndex.prune 25 10).2.nodes.length = 2 := by decide +kernel
    omega
  · have entry : agedIndex.child 0 5 = some 4 := by decide +kernel
    have edge : [] ++ (agedIndex.node 4).edge = [5, 6] := by decide +kernel
    exact edge ▸ Located.root.step entry

end TrtLlm.KvCache.RadixIndex
