import TrtLlm.Soundness.RadixSurvivors

/-! # How far an insert can overshoot the cap

The cap is tested once, before the walk. An insert adds two nodes when its string parts from an edge part-way, which
splits the edge and hangs a new leaf beside its tail, and at most one otherwise. So the cap is exceeded by exactly the
inserts of the first kind into an index with room for one node.
-/

namespace TrtLlm.KvCache.RadixIndex

variable {index orig : RadixIndex} {path : ℕ → List TokenId} {cur : ℕ} {tokens : List TokenId}

/-! ### Where a string leaves the tree -/

/-- The string parts from an edge after some of its tokens, with tokens of its own left. -/
def Forks (index : RadixIndex) (tokens : List TokenId) : Prop :=
  ∃ before rest p k c, tokens = before ++ rest ∧ Located index before p ∧ index.child p k = some c ∧
    0 < commonPrefixLen (index.node c).edge rest ∧
    commonPrefixLen (index.node c).edge rest < (index.node c).edge.length ∧
    commonPrefixLen (index.node c).edge rest < rest.length

/-- The same at a node below `cur`. -/
def ForksBelow (index : RadixIndex) (path : ℕ → List TokenId) (cur : ℕ) (tokens : List TokenId) : Prop :=
  ∃ p k c rest, Below index cur p ∧ index.child p k = some c ∧ tokens = path p ++ rest ∧
    0 < commonPrefixLen (index.node c).edge rest ∧
    commonPrefixLen (index.node c).edge rest < (index.node c).edge.length ∧
    commonPrefixLen (index.node c).edge rest < rest.length

theorem Shape.forks_iff (shape : Shape index path) : index.Forks tokens ↔ ForksBelow index path 0 tokens := by
  constructor
  · rintro ⟨before, rest, p, k, c, rfl, located, entry, parts⟩
    obtain ⟨inside, rfl⟩ := shape.located_iff.mp located
    exact ⟨p, k, c, rest, shape.below_root inside, entry, rfl, parts⟩
  · rintro ⟨p, k, c, rest, below, entry, rfl, parts⟩
    exact ⟨path p, rest, p, k, c, rfl, shape.located_iff.mpr ⟨inside_of_child entry, rfl⟩, entry, parts⟩

/-- An edge that shares a token with a string starts with the string's first token. -/
theorem Link.key_eq {p k c first : ℕ} (link : Link index path p k c)
    (shares : 0 < commonPrefixLen (index.node c).edge (first :: tokens)) : k = first := by
  obtain ⟨rest, edge⟩ := link.key_first
  by_contra other
  rw [edge, commonPrefixLen, if_neg other] at shares
  exact lt_irrefl 0 shares

theorem Shape.forksBelow_nil (shape : Shape index path) : ¬ForksBelow index path cur (path cur) := by
  rintro ⟨p, k, c, rest, below, -, split, -, -, left⟩
  have longer := (shape.below_path below).1.length_le
  rw [split, List.length_append] at longer
  omega

/-- A fork below a node is at the node or below the child under the next token. -/
theorem Shape.forksBelow_cons (shape : Shape index path) {first : ℕ} :
    ForksBelow index path cur (path cur ++ first :: tokens) ↔
      ∃ c, index.child cur first = some c ∧
        (commonPrefixLen (index.node c).edge (first :: tokens) < (index.node c).edge.length ∧
            commonPrefixLen (index.node c).edge (first :: tokens) < (first :: tokens).length ∨
          ForksBelow index path c (path cur ++ first :: tokens)) := by
  constructor
  · rintro ⟨p, k, c, rest, below, entry, split, shares, inner, left⟩
    rcases below.cases_child with rfl | ⟨key, next, entrance, further⟩
    · obtain rfl := List.append_cancel_left split
      obtain rfl := (shape.link entry).key_eq shares
      exact ⟨c, entry, .inl ⟨inner, left⟩⟩
    · have link := shape.link entrance
      obtain ⟨tail, edge⟩ := link.key_first
      obtain ⟨more, deeper⟩ := (shape.below_path further).1
      have same := split
      rw [← deeper, link.path_eq, edge, List.append_assoc, List.append_assoc, List.append_cancel_left_eq,
        List.cons_append] at same
      obtain ⟨rfl, -⟩ := List.cons.inj same
      exact ⟨next, entrance, .inr ⟨p, k, c, rest, further, entry, split, shares, inner, left⟩⟩
  · rintro ⟨c, entry, ⟨inner, left⟩ | ⟨p, k, d, rest, below, deeper, parts⟩⟩
    · exact ⟨cur, first, c, first :: tokens, .refl cur, entry, rfl, (shape.link entry).common_pos tokens, inner, left⟩
    · exact ⟨p, k, d, rest, ((Below.refl cur).step entry).trans below, deeper, parts⟩

/-! ### One insert -/

/-- The same tree, whatever the worker sets and access times. -/
structure SameTree (orig index : RadixIndex) : Prop where
  length : index.nodes.length = orig.nodes.length
  child : ∀ p k, index.child p k = orig.child p k
  edge : ∀ j, (index.node j).edge = (orig.node j).edge

theorem sameTree_touch {i : ℕ} (same : SameTree orig index) (inside : i < index.nodes.length) (worker : WorkerId)
    (now : Millis) : SameTree orig (index.modify i (·.touch worker now)) where
  length := (modify_length i _).trans same.length
  child p k := (child_touch inside worker now p k).trans (same.child p k)
  edge j := (edge_touch inside worker now j).trans (same.edge j)

theorem insertLoop_nil (worker : WorkerId) (now : Millis) (rounds cur : ℕ) :
    insertLoop worker now rounds cur [] index = index := by
  cases rounds <;> rfl

/-- Below a child whose edge runs past the string, nothing forks. -/
theorem Shape.not_forksBelow_of_inner (shape : Shape index path) {first c : ℕ} (entry : index.child cur first = some c)
    (inner : commonPrefixLen (index.node c).edge (first :: tokens) < (index.node c).edge.length) :
    ¬ForksBelow index path c (path cur ++ first :: tokens) := by
  rintro ⟨p, k, d, rest, below, -, split, -⟩
  obtain ⟨more, deeper⟩ := (shape.below_path below).1
  rw [← deeper, (shape.link entry).path_eq, List.append_assoc, List.append_assoc, List.append_cancel_left_eq] at split
  have short : (index.node c).edge.length ≤ (first :: tokens).length := by
    rw [split, List.length_append]
    omega
  refine inner.not_ge ((le_commonPrefixLen_iff short).mpr ?_)
  rw [split, List.take_left]

/-- The child under the next token, with its edge split where the string leaves it. -/
theorem insertLoop_split_length (worker : WorkerId) (now : Millis) {rounds first c : ℕ} (inside : c < index.nodes.length)
    (inner : commonPrefixLen (index.node c).edge (first :: tokens) < (index.node c).edge.length)
    (enough : ((first :: tokens).drop (commonPrefixLen (index.node c).edge (first :: tokens))).length ≤ rounds) :
    (insertLoop worker now rounds c ((first :: tokens).drop (commonPrefixLen (index.node c).edge (first :: tokens)))
      ((index.split c (commonPrefixLen (index.node c).edge (first :: tokens)) now).modify c
        (·.touch worker now))).nodes.length =
      if commonPrefixLen (index.node c).edge (first :: tokens) < (first :: tokens).length then index.nodes.length + 2
      else index.nodes.length + 1 := by
  generalize commonEq : commonPrefixLen (index.node c).edge (first :: tokens) = common at inner enough ⊢
  have parted : c < (index.split c common now).nodes.length := by
    rw [split_length]
    omega
  split
  next left =>
    cases rest : (first :: tokens).drop common with
    | nil =>
      rw [List.drop_eq_nil_iff] at rest
      omega
    | cons next tail =>
      obtain ⟨head, edge, cut⟩ : ∃ head edge, (index.node c).edge.drop common = head :: edge :=
        List.exists_cons_of_ne_nil (by simpa using inner)
      have differ : next ≠ head := (head_drop_commonPrefixLen_ne (commonEq ▸ cut) (commonEq ▸ rest)).symm
      have none : ((index.split c common now).modify c (·.touch worker now)).child c next = none := by
        rw [child_touch parted, child_split inside, if_pos rfl, cut]
        exact if_neg differ
      cases rounds with
      | zero =>
        rw [rest] at enough
        exact absurd enough (Nat.not_succ_le_zero _)
      | succ rounds =>
        rw [insertLoop]
        change AList.lookup _ _ = _ at none
        rw [none]
        simp only
        rw [addLeaf_length, modify_length, split_length]
  next ended =>
    rw [List.drop_eq_nil_of_le (not_lt.mp ended), insertLoop_nil, modify_length, split_length]

theorem Shape.insertLoop_length (shape : Shape orig path) (worker : WorkerId) (now : Millis) (rounds : ℕ)
    (same : SameTree orig index) (enough : tokens.length ≤ rounds) :
    (ForksBelow orig path cur (path cur ++ tokens) →
        (RadixIndex.insertLoop worker now rounds cur tokens index).nodes.length = orig.nodes.length + 2) ∧
      (¬ForksBelow orig path cur (path cur ++ tokens) →
        (RadixIndex.insertLoop worker now rounds cur tokens index).nodes.length ≤ orig.nodes.length + 1) := by
  induction rounds generalizing index cur tokens with
  | zero =>
    obtain rfl := List.length_eq_zero_iff.mp (Nat.le_zero.mp enough)
    rw [insertLoop_nil, same.length, List.append_nil]
    exact ⟨fun forks => absurd forks shape.forksBelow_nil, fun _ => Nat.le_succ _⟩
  | succ rounds ih =>
    cases tokens with
    | nil =>
      rw [insertLoop_nil, same.length, List.append_nil]
      exact ⟨fun forks => absurd forks shape.forksBelow_nil, fun _ => Nat.le_succ _⟩
    | cons first tokens =>
      rw [shape.forksBelow_cons, RadixIndex.insertLoop]
      cases found : (index.node cur).children.lookup first with
      | none =>
        have unknown : orig.child cur first = none := (same.child cur first).symm.trans found
        refine ⟨?_, fun _ => ?_⟩
        · rintro ⟨c, entry, -⟩
          rw [unknown] at entry
          cases entry
        · simp only
          rw [addLeaf_length, same.length]
      | some c =>
        have entry : orig.child cur first = some c := (same.child cur first).symm.trans found
        have link := shape.link entry
        have inside : c < index.nodes.length := same.length ▸ link.inside
        have positive := link.common_pos tokens
        simp only [entry, Option.some_inj, exists_eq_left']
        rw [← same.edge c] at positive ⊢
        have shorter : ((first :: tokens).drop
            (commonPrefixLen (index.node c).edge (first :: tokens))).length ≤ rounds := by
          rw [List.length_drop]
          omega
        split
        next inner =>
          rw [insertLoop_split_length worker now inside inner shorter, same.length]
          have within : commonPrefixLen (orig.node c).edge (first :: tokens) < (orig.node c).edge.length :=
            same.edge c ▸ inner
          have below := shape.not_forksBelow_of_inner entry within
          by_cases left : commonPrefixLen (index.node c).edge (first :: tokens) < (first :: tokens).length
          · rw [if_pos left]
            exact ⟨fun _ => rfl, fun none => absurd (.inl ⟨inner, left⟩) none⟩
          · rw [if_neg left]
            refine ⟨?_, fun _ => le_rfl⟩
            rintro (⟨-, part⟩ | deeper)
            · exact absurd part left
            · exact absurd deeper below
        next whole =>
          have joined := take_append_drop_common (index.node c).edge (first :: tokens)
          rw [List.take_of_length_le (not_lt.mp whole)] at joined
          have total : path cur ++ first :: tokens = path c ++
              (first :: tokens).drop (commonPrefixLen (index.node c).edge (first :: tokens)) := by
            rw [link.path_eq, List.append_assoc, ← same.edge c, joined]
          rw [total]
          simp only [whole, false_and, false_or]
          exact ih (sameTree_touch same inside worker now) shorter

/-- An accepted string adds two nodes if it forks, else at most one. -/
theorem Shape.insert_length (shape : Shape index path) (worker : WorkerId) (now : Millis)
    (accepted : ¬index.rejects tokens) :
    (index.Forks tokens → (index.insert worker tokens now).nodes.length = index.nodes.length + 2) ∧
      (¬index.Forks tokens → (index.insert worker tokens now).nodes.length ≤ index.nodes.length + 1) := by
  have same : SameTree index (index.modify 0 (·.touch worker now)) :=
    sameTree_touch ⟨rfl, fun _ _ => rfl, fun _ => rfl⟩ shape.root_inside worker now
  have spec := @Shape.insertLoop_length _ _ _ 0 tokens shape worker now tokens.length same le_rfl
  rw [shape.root_path, List.nil_append] at spec
  rw [RadixIndex.insert, if_neg accepted, shape.forks_iff]
  exact spec

/-! ### Runs -/

/-- The call inserts a forking string where there is room for one node only. -/
def Overfills (index : RadixIndex) : Op → Prop
  | .insert _ tokens _ =>
    index.minPrefixTokens ≤ tokens.length ∧ index.nodeCount + 1 = index.maxNodes ∧ index.Forks tokens
  | .forgetWorker _ => False
  | .prune _ _ => False
  | .clear => False

theorem insertLoop_maxNodes (worker : WorkerId) (now : Millis) (rounds cur : ℕ) (tokens : List TokenId) :
    (insertLoop worker now rounds cur tokens index).maxNodes = index.maxNodes := by
  induction rounds generalizing index cur tokens with
  | zero => rfl
  | succ rounds ih =>
    cases tokens with
    | nil => rfl
    | cons first tokens =>
      rw [insertLoop]
      split
      next => rfl
      next =>
        simp only
        rw [ih]
        split <;> rfl

theorem detach_maxNodes (victim : ℕ) : (index.detach victim).maxNodes = index.maxNodes := by
  have unlinked : (index.unlink victim).maxNodes = index.maxNodes := by
    unfold unlink
    split <;> rfl
  have relinked : ∀ (table : RadixIndex) (last : ℕ), (table.relink last victim).maxNodes = table.maxNodes := by
    intro table last
    unfold relink
    split <;> rfl
  unfold detach
  simp only
  split
  next => rw [relinked, unlinked]
  next => exact unlinked

theorem pruneLoop_maxNodes (now ttlMs : Millis) (rounds : ℕ) :
    (pruneLoop now ttlMs rounds index).2.maxNodes = index.maxNodes := by
  induction rounds generalizing index with
  | zero => rfl
  | succ rounds ih =>
    rw [pruneLoop]
    split
    next => rfl
    next victim _ => exact ih.trans (detach_maxNodes victim)

theorem step_maxNodes (op : Op) : (index.step op).maxNodes = index.maxNodes := by
  cases op with
  | insert worker tokens now =>
    rw [step, insert]
    split
    next => rfl
    next => rw [insertLoop_maxNodes, modify]
  | forgetWorker worker => rfl
  | prune now ttlMs => exact pruneLoop_maxNodes now ttlMs _
  | clear => rfl

/-- From within the cap, a call stays within it unless it overfills. -/
theorem Shape.step_within_iff (shape : Shape index path) (within : index.nodeCount ≤ index.maxNodes) (op : Op) :
    (index.step op).nodeCount ≤ index.maxNodes ↔ ¬index.Overfills op := by
  cases op with
  | insert worker tokens now =>
    by_cases rejected : index.rejects tokens
    · rw [step_rejected rejected]
      refine iff_of_true within ?_
      rintro ⟨long, room, -⟩
      rcases rejected with short | full
      · exact short.not_ge long
      · rw [nodeCount] at room
        omega
    · obtain ⟨forked, straight⟩ := shape.insert_length worker now rejected
      have free := not_or.mp rejected
      change (index.insert worker tokens now).nodes.length ≤ index.maxNodes ↔ _
      rw [Overfills, nodeCount, and_iff_right (not_lt.mp free.1)]
      by_cases forks : index.Forks tokens
      · rw [forked forks, and_iff_left forks]
        omega
      · have size := straight forks
        exact iff_of_true (by omega) fun both => forks both.2
  | forgetWorker worker =>
    refine iff_of_true ?_ not_false
    rwa [step, nodeCount, RadixIndex.forgetWorker, List.length_map]
  | prune now ttlMs =>
    obtain ⟨-, total, -⟩ := shape.prune_spec now ttlMs
    rw [nodeCount] at within
    refine iff_of_true ?_ not_false
    rw [step, nodeCount]
    omega
  | clear => exact iff_of_true ((Nat.succ_le_of_lt shape.root_inside).trans within) not_false

/-- All states of a run are within the cap exactly when no call of it overfills. -/
theorem within_cap_iff (minPrefixTokens : ℕ) {maxNodes : ℕ} (positive : 1 ≤ maxNodes) (ops : List Op) :
    let start := new minPrefixTokens maxNodes
    (∀ front, front <+: ops → (front.foldl step start).nodeCount ≤ maxNodes) ↔
      ∀ front op, front ++ [op] <+: ops → ¬(front.foldl step start).Overfills op := by
  intro start
  have cap : ∀ front : List Op, (front.foldl step start).maxNodes = maxNodes := by
    intro front
    induction front using List.reverseRecOn with
    | nil => exact max_eq_left positive
    | append_singleton front op ih => rw [List.foldl_concat, step_maxNodes, ih]
  have stepped : ∀ front op, (front.foldl step start).nodeCount ≤ maxNodes →
      (((front ++ [op]).foldl step start).nodeCount ≤ maxNodes ↔ ¬(front.foldl step start).Overfills op) := by
    intro front op within
    have first : Machine.Run (system minPrefixTokens maxNodes) [] start := .start rfl
    obtain ⟨path, shape, -⟩ := sound_of_run (first.foldl (fun _ _ => trivial) front)
    have iff := shape.step_within_iff ((cap front).symm ▸ within) op
    rwa [cap front, ← List.foldl_concat (f := step)] at iff
  constructor
  · intro within front op inside
    exact (stepped front op (within front ((List.prefix_append _ _).trans inside))).mp (within _ inside)
  · intro never front
    induction front using List.reverseRecOn with
    | nil => exact fun _ => positive
    | append_singleton front op ih =>
      intro inside
      exact (stepped front op (ih ((List.prefix_append _ _).trans inside))).mpr (never front op inside)

/-- Two strings that part after their first token. -/
def forkRun : List Op := [.insert 1 [1, 2] 0, .insert 1 [1, 3] 0]

theorem forkRun_overfills :
    ¬∀ front op, front ++ [op] <+: forkRun → ¬(front.foldl step (new 0 3)).Overfills op := by
  intro never
  have within := (@within_cap_iff 0 3 (by decide) forkRun).mpr never forkRun (List.prefix_refl _)
  exact absurd within (by decide +kernel)

/-- The cap is not a hard cap. -/
theorem fork_exceeds_cap :
    ¬∀ (minPrefixTokens maxNodes : ℕ) (ops : List Op), 1 ≤ maxNodes →
      (ops.foldl step (new minPrefixTokens maxNodes)).nodeCount ≤ maxNodes := by
  intro always
  exact absurd (always 0 3 forkRun (by decide)) (by decide +kernel)

end TrtLlm.KvCache.RadixIndex
