import Mathlib.Data.List.Basic
import Mathlib.Logic.Function.Basic
import TrtLlm.Model.KvCache.Radix

/-! # The radix index is a trie

The vector of nodes represents a tree: each node has a path, the tokens from the root to it. What
the index knows about a worker is the set of strings it covers, the prefixes of the paths of the
nodes that carry the worker. `Shape` says that the vector is such a tree; every operation keeps it and
changes the covered strings in a way stated without mentioning nodes; and matching a query reads
exactly the covered strings.
-/

namespace TrtLlm.KvCache

/-- The second string agrees with the first on its first `n` tokens exactly up to the common length. -/
theorem le_commonPrefixLen_iff {a b : List TokenId} {n : ℕ} (short : n ≤ b.length) :
    n ≤ commonPrefixLen a b ↔ b.take n <+: a := by
  induction a generalizing b n with
  | nil =>
    cases n with
    | zero => simp
    | succ n =>
      cases b with
      | nil => simp at short
      | cons y b => simp [commonPrefixLen]
  | cons x a ih =>
    cases n with
    | zero => simp
    | succ n =>
      cases b with
      | nil => simp at short
      | cons y b =>
        rw [List.take_succ_cons, List.cons_prefix_cons, commonPrefixLen]
        split
        next same =>
          rw [Nat.succ_le_succ_iff, ih (Nat.le_of_succ_le_succ short)]
          simp [same]
        next different =>
          constructor
          · intro impossible
            omega
          · rintro ⟨same, _⟩
            exact absurd same.symm different

theorem commonPrefixLen_le_left (a b : List TokenId) : commonPrefixLen a b ≤ a.length := by
  induction a generalizing b with
  | nil => simp [commonPrefixLen]
  | cons x a ih =>
    cases b with
    | nil => simp [commonPrefixLen]
    | cons y b =>
      rw [commonPrefixLen]
      split
      · exact Nat.succ_le_succ (ih b)
      · exact Nat.zero_le _

theorem commonPrefixLen_le_right (a b : List TokenId) : commonPrefixLen a b ≤ b.length := by
  induction a generalizing b with
  | nil => simp [commonPrefixLen]
  | cons x a ih =>
    cases b with
    | nil => simp [commonPrefixLen]
    | cons y b =>
      rw [commonPrefixLen]
      split
      · exact Nat.succ_le_succ (ih b)
      · exact Nat.zero_le _

/-- The common part is the beginning of both strings. -/
theorem take_commonPrefixLen (a b : List TokenId) :
    a.take (commonPrefixLen a b) = b.take (commonPrefixLen a b) := by
  have start := (le_commonPrefixLen_iff (commonPrefixLen_le_right a b)).mp (le_refl (commonPrefixLen a b))
  have size : (b.take (commonPrefixLen a b)).length = commonPrefixLen a b :=
    List.length_take_of_le (commonPrefixLen_le_right a b)
  rw [List.prefix_iff_eq_take.mp start, size]

/-- Past the common part, two strings differ in their next tokens. -/
theorem head_drop_commonPrefixLen_ne {a b a' b' : List TokenId} {x y : TokenId}
    (left : a.drop (commonPrefixLen a b) = x :: a') (right : b.drop (commonPrefixLen a b) = y :: b') : x ≠ y := by
  induction a generalizing b with
  | nil => simp at left
  | cons first a ih =>
    cases b with
    | nil => simp at right
    | cons second b =>
      rw [commonPrefixLen] at left right
      split at left
      next same =>
        rw [if_pos same, List.drop_succ_cons] at right
        exact ih left right
      next differ =>
        rw [if_neg differ] at right
        obtain ⟨rfl, -⟩ := List.cons.inj left
        obtain ⟨rfl, -⟩ := List.cons.inj right
        exact differ

namespace RadixIndex

variable {index : RadixIndex}

/-! ### Reading the vector after an update -/

@[simp] theorem modify_length (i : ℕ) (f : Node → Node) : (index.modify i f).nodes.length = index.nodes.length := by
  simp [modify]

@[simp] theorem push_length (node : Node) : (index.push node).nodes.length = index.nodes.length + 1 := by
  simp [push]

theorem node_modify (i j : ℕ) (f : Node → Node) (inside : i < index.nodes.length) :
    (index.modify i f).node j = if j = i then f (index.node j) else index.node j := by
  unfold node modify
  rw [List.getD_eq_getElem?_getD, List.getD_eq_getElem?_getD, List.getElem?_modify]
  split
  next same =>
    subst same
    simp [inside]
  next different => simp [Ne.symm different]

theorem node_push (node : Node) (j : ℕ) :
    (index.push node).node j = if j = index.nodes.length then node else index.node j := by
  unfold RadixIndex.node push
  rw [List.getD_eq_getElem?_getD, List.getD_eq_getElem?_getD]
  rcases lt_trichotomy j index.nodes.length with inside | here | outside
  · rw [List.getElem?_append_left inside, if_neg (by omega)]
  · subst here
    simp
  · rw [if_neg (by omega), List.getElem?_eq_none (by simp; omega), List.getElem?_eq_none (by omega)]

theorem node_outside {j : ℕ} (outside : index.nodes.length ≤ j) : index.node j = Node.new [] 0 := by
  unfold node
  rw [List.getD_eq_getElem?_getD, List.getElem?_eq_none outside]
  rfl

/-! ### Tree shape -/

/-- The child entry of a node under a key. -/
def child (index : RadixIndex) (parent : ℕ) (key : TokenId) : Option ℕ :=
  (index.node parent).children.lookup key

theorem inside_of_child {p k c : ℕ} (entry : index.child p k = some c) : p < index.nodes.length := by
  by_contra outside
  rw [child, node_outside (not_lt.mp outside)] at entry
  simp [Node.new] at entry

/-- What holds of every child entry. -/
structure Link (index : RadixIndex) (path : ℕ → List TokenId) (p k c : ℕ) : Prop where
  not_root : 0 < c
  inside : c < index.nodes.length
  key_first : ∃ rest, (index.node c).edge = k :: rest
  path_eq : path c = path p ++ (index.node c).edge
  workers : (index.node c).workers ⊆ (index.node p).workers

/-- The vector is a tree, and `path` gives the tokens from the root to each node. -/
structure Shape (index : RadixIndex) (path : ℕ → List TokenId) : Prop where
  root_inside : 0 < index.nodes.length
  root_path : path 0 = []
  link : ∀ {p k c}, index.child p k = some c → Link index path p k c
  unique : ∀ {p k p' k' c}, index.child p k = some c → index.child p' k' = some c → p = p' ∧ k = k'
  parent : ∀ {c}, 0 < c → c < index.nodes.length → ∃ p k, index.child p k = some c

/-- A node and everything hanging below it. -/
inductive Below (index : RadixIndex) : ℕ → ℕ → Prop
  | refl (i : ℕ) : Below index i i
  | step {i j k c : ℕ} : Below index i j → index.child j k = some c → Below index i c

/-- The strings known to be held by a worker: prefixes of the paths of the nodes that carry it. -/
def Covers (index : RadixIndex) (path : ℕ → List TokenId) (worker : WorkerId) (tokens : List TokenId) : Prop :=
  ∃ i < index.nodes.length, worker ∈ (index.node i).workers ∧ tokens <+: path i

variable {path : ℕ → List TokenId}

theorem Link.path_length {p k c : ℕ} (link : Link index path p k c) : (path p).length < (path c).length := by
  obtain ⟨rest, edge⟩ := link.key_first
  rw [link.path_eq, edge]
  simp

theorem Link.ne {p k c : ℕ} (link : Link index path p k c) : c ≠ p := by
  rintro rfl
  exact lt_irrefl _ link.path_length

theorem Below.trans {a b c : ℕ} (first : Below index a b) (second : Below index b c) : Below index a c := by
  induction second with
  | refl => exact first
  | step _ entry ih => exact ih.step entry

/-- The first edge on the way down. -/
theorem Below.cases_child {i j : ℕ} (below : Below index i j) :
    j = i ∨ ∃ k c, index.child i k = some c ∧ Below index c j := by
  induction below with
  | refl => exact .inl rfl
  | step _ entry ih =>
    rcases ih with rfl | ⟨k, c, first, rest⟩
    · exact .inr ⟨_, _, entry, .refl _⟩
    · exact .inr ⟨k, c, first, rest.step entry⟩

theorem Shape.below_path (shape : Shape index path) {i j : ℕ} (below : Below index i j) :
    path i <+: path j ∧ (index.node j).workers ⊆ (index.node i).workers := by
  induction below with
  | refl => exact ⟨List.prefix_refl _, List.Subset.refl _⟩
  | step _ entry ih =>
    have link := shape.link entry
    refine ⟨ih.1.trans ?_, fun w member => ih.2 (link.workers member)⟩
    rw [link.path_eq]
    exact List.prefix_append _ _

theorem Shape.below_inside (shape : Shape index path) {i j : ℕ} (start : i < index.nodes.length)
    (below : Below index i j) : j < index.nodes.length := by
  cases below with
  | refl => exact start
  | step _ entry => exact (shape.link entry).inside

/-- Every node hangs below the root. -/
theorem Shape.below_root (shape : Shape index path) {j : ℕ} (inside : j < index.nodes.length) :
    Below index 0 j := by
  induction size : (path j).length using Nat.strong_induction_on generalizing j with
  | _ n ih =>
    rcases Nat.eq_zero_or_pos j with rfl | positive
    · exact .refl 0
    · obtain ⟨p, k, entry⟩ := shape.parent positive inside
      have link := shape.link entry
      have above := ih (path p).length (size ▸ link.path_length) (inside_of_child entry) rfl
      exact above.step entry

/-! ### Matching a query -/

/-- What a match table says about one worker. -/
def credit (out : HashMap WorkerId ℕ) (worker : WorkerId) : ℕ := (out.lookup worker).getD 0

theorem credit_record (out : HashMap WorkerId ℕ) (workers : List WorkerId) (matched : ℕ) (worker : WorkerId) :
    credit (record out workers matched) worker =
      if worker ∈ workers then max (credit out worker) matched else credit out worker := by
  induction workers generalizing out with
  | nil => simp [record]
  | cons first workers ih =>
    rw [record, List.foldl_cons]
    change credit (record _ workers matched) worker = _
    rw [ih]
    by_cases here : worker = first
    · subst here
      have credited : credit (out.insert worker (max ((out.lookup worker).getD 0) matched)) worker =
          max (credit out worker) matched := by
        simp [credit]
      rw [credited]
      simp
    · have kept : credit (out.insert first (max ((out.lookup first).getD 0) matched)) worker =
          credit out worker := by
        simp [credit, AList.lookup_insert_ne here]
      rw [kept]
      simp [here]

theorem le_credit_record {out : HashMap WorkerId ℕ} {workers : List WorkerId} {matched n : ℕ}
    {worker : WorkerId} :
    n ≤ credit (record out workers matched) worker ↔
      n ≤ credit out worker ∨ worker ∈ workers ∧ n ≤ matched := by
  rw [credit_record]
  split
  next member => simp [member]
  next absent => simp [absent]

/-- Some node below `cur` carries the worker and agrees with the query on `n` tokens. -/
def HeldBelow (index : RadixIndex) (path : ℕ → List TokenId) (cur : ℕ) (worker : WorkerId)
    (query : List TokenId) (n : ℕ) : Prop :=
  ∃ j, Below index cur j ∧ worker ∈ (index.node j).workers ∧ n ≤ query.length ∧ query.take n <+: path j

/-- Up to the current node, holding a prefix means being carried by the current node. -/
theorem Shape.heldBelow_of_le (shape : Shape index path) {cur n : ℕ} {worker : WorkerId} {tokens : List TokenId}
    (reached : n ≤ (path cur).length) :
    HeldBelow index path cur worker (path cur ++ tokens) n ↔ worker ∈ (index.node cur).workers := by
  constructor
  · rintro ⟨j, below, carried, _, _⟩
    exact (shape.below_path below).2 carried
  · intro carried
    refine ⟨cur, .refl cur, carried, ?_, ?_⟩
    · rw [List.length_append]
      omega
    · rw [List.take_append_of_le_length reached]
      exact List.take_prefix _ _

/-- Beyond the current node, the next token picks the only child that can hold the prefix. -/
theorem Shape.heldBelow_of_gt (shape : Shape index path) {cur n first : ℕ} {worker : WorkerId}
    {tokens : List TokenId} (beyond : (path cur).length < n) :
    HeldBelow index path cur worker (path cur ++ first :: tokens) n ↔
      ∃ c, index.child cur first = some c ∧ HeldBelow index path c worker (path cur ++ first :: tokens) n := by
  constructor
  · rintro ⟨j, below, carried, size, agrees⟩
    obtain ⟨m, rfl⟩ : ∃ m, n = (path cur).length + (m + 1) := ⟨n - (path cur).length - 1, by omega⟩
    rw [List.take_length_add_append, List.take_succ_cons] at agrees
    rcases below.cases_child with rfl | ⟨k, c, entry, below⟩
    · have short := agrees.length_le
      simp only [List.length_append, List.length_cons] at short
      omega
    · obtain ⟨rest, edge⟩ := (shape.link entry).key_first
      have down := (shape.below_path below).1
      rw [(shape.link entry).path_eq, edge] at down
      have same : k = first := by
        obtain ⟨tail, eq⟩ := down
        rw [← eq, List.append_assoc, List.prefix_append_right_inj, List.cons_append,
          List.cons_prefix_cons] at agrees
        exact agrees.1.symm
      subst same
      refine ⟨c, entry, j, below, carried, size, ?_⟩
      rw [List.take_length_add_append, List.take_succ_cons]
      exact agrees
  · rintro ⟨c, entry, j, below, carried, size, agrees⟩
    exact ⟨j, (Below.refl cur).step entry |>.trans below, carried, size, agrees⟩

/-- When the query leaves the tree inside the edge into `c`, what is held below `c` ends there. -/
theorem Shape.heldBelow_partial (shape : Shape index path) {cur k c n : ℕ} {worker : WorkerId}
    {tokens : List TokenId} (entry : index.child cur k = some c)
    (inner : commonPrefixLen (index.node c).edge tokens < (index.node c).edge.length) :
    HeldBelow index path c worker (path cur ++ tokens) n ↔
      worker ∈ (index.node c).workers ∧ n ≤ (path cur).length + commonPrefixLen (index.node c).edge tokens := by
  have link := shape.link entry
  have common := commonPrefixLen_le_right (index.node c).edge tokens
  constructor
  · rintro ⟨j, below, carried, size, agrees⟩
    obtain ⟨down, workers⟩ := shape.below_path below
    refine ⟨workers carried, ?_⟩
    by_contra beyond
    rw [List.length_append] at size
    -- one token past the common part would still agree with the edge
    have further : path cur ++ tokens.take (commonPrefixLen (index.node c).edge tokens + 1) <+: path j := by
      refine List.IsPrefix.trans ?_ agrees
      rw [← List.take_length_add_append]
      exact List.take_prefix_take_left (by omega)
    rw [link.path_eq] at down
    have agree := List.prefix_of_prefix_length_le further down (by
      simp only [List.length_append, List.length_take]
      omega)
    rw [List.prefix_append_right_inj, ← le_commonPrefixLen_iff (by omega)] at agree
    omega
  · rintro ⟨carried, reach⟩
    refine ⟨c, .refl c, carried, ?_, ?_⟩
    · rw [List.length_append]
      omega
    · rw [link.path_eq]
      have agree : tokens.take (commonPrefixLen (index.node c).edge tokens) <+: (index.node c).edge :=
        (le_commonPrefixLen_iff common).mp le_rfl
      refine List.IsPrefix.trans (List.take_prefix_take_left reach) ?_
      rw [List.take_length_add_append, List.prefix_append_right_inj]
      exact agree

theorem Shape.heldBelow_child (shape : Shape index path) {cur k c n : ℕ} {worker : WorkerId}
    {query : List TokenId} (entry : index.child cur k = some c)
    (held : HeldBelow index path c worker query n) : worker ∈ (index.node cur).workers := by
  obtain ⟨j, below, carried, _, _⟩ := held
  exact (shape.link entry).workers ((shape.below_path below).2 carried)

theorem take_append_drop_common (a b : List TokenId) :
    a.take (commonPrefixLen a b) ++ b.drop (commonPrefixLen a b) = b := by
  rw [take_commonPrefixLen, List.take_append_drop]

/-- The child under the next token shares at least that token with the rest of the string. -/
theorem Link.common_pos {p k c : ℕ} (link : Link index path p k c) (tokens : List TokenId) :
    0 < commonPrefixLen (index.node c).edge (k :: tokens) := by
  obtain ⟨rest, edge⟩ := link.key_first
  simp [edge, commonPrefixLen]

theorem Shape.matchEnd_spec (shape : Shape index path) {cur : ℕ} (n : ℕ) (out : HashMap WorkerId ℕ)
    (worker : WorkerId) :
    n ≤ credit (record out (index.node cur).workers (path cur).length) worker ↔
      n ≤ credit out worker ∨ HeldBelow index path cur worker (path cur ++ []) n := by
  rw [le_credit_record]
  refine or_congr_right ⟨fun ⟨carried, reached⟩ => (shape.heldBelow_of_le reached).mpr carried, ?_⟩
  intro held
  have reached : n ≤ (path cur).length := by
    obtain ⟨_, _, _, size, _⟩ := held
    simpa using size
  exact ⟨(shape.heldBelow_of_le reached).mp held, reached⟩

/-- The matching loop adds to the table exactly what is held below its node. -/
theorem Shape.matchLoop_spec (shape : Shape index path) (rounds : ℕ) {cur : ℕ} (n : ℕ)
    {tokens : List TokenId} (out : HashMap WorkerId ℕ) (worker : WorkerId) (enough : tokens.length ≤ rounds) :
    n ≤ credit (matchLoop index rounds cur (path cur).length tokens out) worker ↔
      n ≤ credit out worker ∨ HeldBelow index path cur worker (path cur ++ tokens) n := by
  induction rounds generalizing cur tokens out with
  | zero =>
    obtain rfl := List.length_eq_zero_iff.mp (Nat.le_zero.mp enough)
    exact shape.matchEnd_spec n out worker
  | succ rounds ih =>
    cases tokens with
    | nil => exact shape.matchEnd_spec n out worker
    | cons first tokens =>
      rw [matchLoop]
      cases found : (index.node cur).children.lookup first with
      | none =>
        have no : index.child cur first = none := found
        simp only
        rw [le_credit_record]
        refine or_congr_right ?_
        rcases le_or_gt n (path cur).length with reached | beyond
        · simp [shape.heldBelow_of_le reached, reached]
        · rw [shape.heldBelow_of_gt beyond]
          simp [no, beyond]
      | some c =>
        have entry : index.child cur first = some c := found
        have link := shape.link entry
        have below : n ≤ credit out worker ∨ HeldBelow index path cur worker (path cur ++ first :: tokens) n ↔
            n ≤ credit (record out (index.node cur).workers (path cur).length) worker ∨
              HeldBelow index path c worker (path cur ++ first :: tokens) n := by
          rw [le_credit_record, or_assoc]
          refine or_congr_right ?_
          rcases le_or_gt n (path cur).length with reached | beyond
          · rw [shape.heldBelow_of_le reached]
            constructor
            · exact fun carried => .inl ⟨carried, reached⟩
            · rintro (⟨carried, _⟩ | held)
              · exact carried
              · exact shape.heldBelow_child entry held
          · rw [shape.heldBelow_of_gt beyond]
            simp [entry, beyond]
        simp only
        split
        next inner => rw [le_credit_record, below, shape.heldBelow_partial entry inner]
        next whole =>
          have full : commonPrefixLen (index.node c).edge (first :: tokens) = (index.node c).edge.length :=
            le_antisymm (commonPrefixLen_le_left _ _) (not_lt.mp whole)
          have rest : path c ++ (first :: tokens).drop (commonPrefixLen (index.node c).edge (first :: tokens)) =
              path cur ++ first :: tokens := by
            have joined := take_append_drop_common (index.node c).edge (first :: tokens)
            rw [List.take_of_length_le full.ge] at joined
            rw [link.path_eq, List.append_assoc, joined]
          have depth : (path cur).length + commonPrefixLen (index.node c).edge (first :: tokens) =
              (path c).length := by
            rw [full, link.path_eq, List.length_append]
          have shorter : ((first :: tokens).drop
              (commonPrefixLen (index.node c).edge (first :: tokens))).length ≤ rounds := by
            have positive := link.common_pos tokens
            rw [List.length_drop]
            omega
          rw [depth, ih _ shorter, rest, below]

/-- A worker is credited with `n` tokens of a query exactly when it covers them. -/
theorem Shape.le_matchWorker_iff (shape : Shape index path) (worker : WorkerId) (tokens : List TokenId) (n : ℕ) :
    n ≤ index.matchWorker worker tokens ↔ n = 0 ∨ n ≤ tokens.length ∧ index.Covers path worker (tokens.take n) := by
  have spec : n ≤ credit (matchLoop index tokens.length 0 (path 0).length tokens ∅) worker ↔ _ :=
    shape.matchLoop_spec tokens.length n ∅ worker (le_refl tokens.length)
  rw [shape.root_path, List.nil_append] at spec
  have empty : n ≤ credit ∅ worker ↔ n = 0 := Nat.le_zero
  have root : HeldBelow index path 0 worker tokens n ↔
      n ≤ tokens.length ∧ index.Covers path worker (tokens.take n) := by
    constructor
    · rintro ⟨j, below, carried, size, agrees⟩
      exact ⟨size, j, shape.below_inside shape.root_inside below, carried, agrees⟩
    · rintro ⟨size, j, inside, carried, agrees⟩
      exact ⟨j, shape.below_root inside, carried, size, agrees⟩
  rw [empty, root] at spec
  exact spec

/-! ### Inserting a string -/

theorem mem_touch {node : Node} {worker w : WorkerId} {now : Millis} :
    w ∈ (node.touch worker now).workers ↔ w ∈ node.workers ∨ w = worker := by
  unfold Node.touch
  split
  next known =>
    constructor
    · exact .inl
    · rintro (member | rfl)
      · exact member
      · exact known
  next => simp

theorem child_touch {i : ℕ} (inside : i < index.nodes.length) (worker : WorkerId) (now : Millis) (p k : ℕ) :
    (index.modify i (·.touch worker now)).child p k = index.child p k := by
  rw [child, child, node_modify _ _ _ inside]
  split <;> rfl

theorem edge_touch {i : ℕ} (inside : i < index.nodes.length) (worker : WorkerId) (now : Millis) (j : ℕ) :
    ((index.modify i (·.touch worker now)).node j).edge = (index.node j).edge := by
  rw [node_modify _ _ _ inside]
  split <;> rfl

/-- Touching a node whose parent already carries the worker. -/
theorem Shape.touch (shape : Shape index path) {i : ℕ} (worker : WorkerId) (now : Millis)
    (inside : i < index.nodes.length)
    (above : ∀ {p k}, index.child p k = some i → worker ∈ (index.node p).workers) :
    Shape (index.modify i (·.touch worker now)) path ∧
      ∀ w tokens, (index.modify i (·.touch worker now)).Covers path w tokens ↔
        index.Covers path w tokens ∨ w = worker ∧ tokens <+: path i := by
  have same := child_touch inside worker now
  have edges := edge_touch inside worker now
  have workers : ∀ j w, w ∈ ((index.modify i (·.touch worker now)).node j).workers ↔
      w ∈ (index.node j).workers ∨ j = i ∧ w = worker := by
    intro j w
    rw [node_modify _ _ _ inside]
    split
    next here => simp [here, mem_touch]
    next other => simp [other]
  refine ⟨⟨by simpa using shape.root_inside, shape.root_path, ?_, ?_, ?_⟩, ?_⟩
  · intro p k c entry
    rw [same] at entry
    have link := shape.link entry
    refine ⟨link.not_root, by simpa using link.inside, by simpa [edges] using link.key_first,
      by rw [edges]; exact link.path_eq, ?_⟩
    intro w member
    rcases (workers c w).mp member with before | ⟨rfl, rfl⟩
    · exact (workers p w).mpr (.inl (link.workers before))
    · exact (workers p w).mpr (.inl (above entry))
  · intro p k p' k' c entry entry'
    rw [same] at entry entry'
    exact shape.unique entry entry'
  · intro c positive bound
    simpa [same] using shape.parent positive (by simpa using bound)
  · intro w tokens
    constructor
    · rintro ⟨j, bound, member, agrees⟩
      rcases (workers j w).mp member with before | ⟨rfl, rfl⟩
      · exact .inl ⟨j, by simpa using bound, before, agrees⟩
      · exact .inr ⟨rfl, agrees⟩
    · rintro (⟨j, bound, member, agrees⟩ | ⟨rfl, agrees⟩)
      · exact ⟨j, by simpa using bound, (workers j w).mpr (.inl member), agrees⟩
      · exact ⟨i, by simpa using inside, (workers i w).mpr (.inr ⟨rfl, rfl⟩), agrees⟩

section AddLeaf

variable {cur first : ℕ} {worker : WorkerId} {now : Millis} {tokens : List TokenId}

theorem addLeaf_length :
    (index.addLeaf worker now cur tokens).nodes.length = index.nodes.length + 1 := by
  simp [addLeaf]

theorem node_addLeaf_new (inside : cur < index.nodes.length) :
    (index.addLeaf worker now cur tokens).node index.nodes.length = (Node.new tokens now).touch worker now := by
  rw [addLeaf, node_modify _ _ _ (by simp; omega), if_neg (by omega), node_push, if_pos rfl]

theorem node_addLeaf_old (inside : cur < index.nodes.length) {j : ℕ} (old : j ≠ index.nodes.length) :
    (index.addLeaf worker now cur tokens).node j =
      if j = cur then
        { index.node j with children := (index.node j).children.insert (tokens.headD 0) index.nodes.length }
      else index.node j := by
  rw [addLeaf, node_modify _ _ _ (by simp; omega), node_push, if_neg old]

theorem child_addLeaf (inside : cur < index.nodes.length) (p k : ℕ) :
    (index.addLeaf worker now cur (first :: tokens)).child p k =
      if p = cur ∧ k = first then some index.nodes.length else index.child p k := by
  by_cases new : p = index.nodes.length
  · subst new
    rw [child, child, node_addLeaf_new inside, if_neg (by omega), node_outside le_rfl]
    rfl
  · rw [child, child, node_addLeaf_old inside new]
    by_cases here : p = cur
    · by_cases key : k = first
      · subst key
        simp [here]
      · simp [here, key, AList.lookup_insert_ne key]
    · simp [here]

theorem edge_addLeaf (inside : cur < index.nodes.length) (j : ℕ) :
    ((index.addLeaf worker now cur tokens).node j).edge =
      if j = index.nodes.length then tokens else (index.node j).edge := by
  split
  next new =>
    rw [new, node_addLeaf_new inside]
    rfl
  next old =>
    rw [node_addLeaf_old inside old]
    split <;> rfl

theorem mem_workers_addLeaf (inside : cur < index.nodes.length) (j : ℕ) (w : WorkerId) :
    w ∈ ((index.addLeaf worker now cur tokens).node j).workers ↔
      w ∈ (index.node j).workers ∨ j = index.nodes.length ∧ w = worker := by
  by_cases new : j = index.nodes.length
  · rw [new, node_addLeaf_new inside, mem_touch, node_outside le_rfl]
    simp [Node.new]
  · rw [node_addLeaf_old inside new]
    split <;> simp [new]

/-- The paths with a new leaf below `cur`. -/
def leafPath (index : RadixIndex) (path : ℕ → List TokenId) (cur : ℕ) (tokens : List TokenId) : ℕ → List TokenId :=
  Function.update path index.nodes.length (path cur ++ tokens)

theorem leafPath_old {j : ℕ} (bound : j < index.nodes.length) : index.leafPath path cur tokens j = path j :=
  Function.update_of_ne bound.ne _ _

theorem leafPath_new : index.leafPath path cur tokens index.nodes.length = path cur ++ tokens :=
  Function.update_self ..

theorem Shape.addLeaf_link (shape : Shape index path) (inside : cur < index.nodes.length)
    (carried : worker ∈ (index.node cur).workers) {p k c : ℕ}
    (entry : (index.addLeaf worker now cur (first :: tokens)).child p k = some c) :
    Link (index.addLeaf worker now cur (first :: tokens)) (index.leafPath path cur (first :: tokens)) p k c := by
  rw [child_addLeaf inside] at entry
  split at entry
  next here =>
    obtain ⟨rfl, rfl⟩ := here
    obtain rfl := Option.some.inj entry
    refine ⟨shape.root_inside, by rw [addLeaf_length]; omega, ⟨tokens, ?_⟩, ?_, ?_⟩
    · simp [edge_addLeaf inside]
    · rw [leafPath_new, leafPath_old inside, edge_addLeaf inside, if_pos rfl]
    · intro w member
      rw [mem_workers_addLeaf inside, node_outside le_rfl] at member
      obtain rfl : w = worker := by simpa [Node.new] using member
      exact (mem_workers_addLeaf inside _ _).mpr (.inl carried)
  next =>
    have link := shape.link entry
    refine ⟨link.not_root, by rw [addLeaf_length]; exact link.inside.trans (Nat.lt_succ_self _), ?_, ?_, ?_⟩
    · rw [edge_addLeaf inside, if_neg link.inside.ne]
      exact link.key_first
    · rw [leafPath_old link.inside, leafPath_old (inside_of_child entry), edge_addLeaf inside,
        if_neg link.inside.ne]
      exact link.path_eq
    · intro w member
      rcases (mem_workers_addLeaf inside _ _).mp member with before | ⟨new, _⟩
      · exact (mem_workers_addLeaf inside _ _).mpr (.inl (link.workers before))
      · exact absurd new link.inside.ne

theorem Shape.addLeaf_unique (shape : Shape index path) (inside : cur < index.nodes.length) {p k p' k' c : ℕ}
    (entry : (index.addLeaf worker now cur (first :: tokens)).child p k = some c)
    (entry' : (index.addLeaf worker now cur (first :: tokens)).child p' k' = some c) : p = p' ∧ k = k' := by
  rw [child_addLeaf inside] at entry entry'
  split at entry <;> split at entry'
  next here here' => exact ⟨here.1.trans here'.1.symm, here.2.trans here'.2.symm⟩
  next =>
    obtain rfl := Option.some.inj entry
    exact absurd (shape.link entry').inside (lt_irrefl _)
  next =>
    obtain rfl := Option.some.inj entry'
    exact absurd (shape.link entry).inside (lt_irrefl _)
  next => exact shape.unique entry entry'

theorem Shape.addLeaf_parent (shape : Shape index path) (inside : cur < index.nodes.length)
    (free : index.child cur first = none) {c : ℕ} (positive : 0 < c)
    (bound : c < (index.addLeaf worker now cur (first :: tokens)).nodes.length) :
    ∃ p k, (index.addLeaf worker now cur (first :: tokens)).child p k = some c := by
  rw [addLeaf_length] at bound
  by_cases leaf : c = index.nodes.length
  · exact ⟨cur, first, by rw [child_addLeaf inside, if_pos ⟨rfl, rfl⟩, leaf]⟩
  · obtain ⟨p, k, entry⟩ := shape.parent positive (by omega)
    refine ⟨p, k, ?_⟩
    rw [child_addLeaf inside, if_neg]
    · exact entry
    · rintro ⟨rfl, rfl⟩
      rw [free] at entry
      cases entry

theorem addLeaf_covers_iff (inside : cur < index.nodes.length) (w : WorkerId) (string : List TokenId) :
    (index.addLeaf worker now cur tokens).Covers (index.leafPath path cur tokens) w string ↔
      index.Covers path w string ∨ w = worker ∧ string <+: path cur ++ tokens := by
  constructor
  · rintro ⟨j, bound, member, agrees⟩
    rw [addLeaf_length] at bound
    rcases (mem_workers_addLeaf inside _ _).mp member with before | ⟨rfl, rfl⟩
    · have known : j < index.nodes.length := by
        by_contra outside
        rw [node_outside (not_lt.mp outside)] at before
        simp [Node.new] at before
      rw [leafPath_old known] at agrees
      exact .inl ⟨j, known, before, agrees⟩
    · rw [leafPath_new] at agrees
      exact .inr ⟨rfl, agrees⟩
  · rintro (⟨j, bound, member, agrees⟩ | ⟨rfl, agrees⟩)
    · refine ⟨j, by rw [addLeaf_length]; omega, (mem_workers_addLeaf inside _ _).mpr (.inl member), ?_⟩
      rw [leafPath_old bound]
      exact agrees
    · refine ⟨index.nodes.length, by rw [addLeaf_length]; omega,
        (mem_workers_addLeaf inside _ _).mpr (.inr ⟨rfl, rfl⟩), ?_⟩
      rw [leafPath_new]
      exact agrees

/-- Hanging a new leaf below a node that carries the worker. -/
theorem Shape.addLeaf (shape : Shape index path) (inside : cur < index.nodes.length)
    (free : index.child cur first = none) (carried : worker ∈ (index.node cur).workers) :
    ∃ path', Shape (index.addLeaf worker now cur (first :: tokens)) path' ∧
      ∀ w string, (index.addLeaf worker now cur (first :: tokens)).Covers path' w string ↔
        index.Covers path w string ∨ w = worker ∧ string <+: path cur ++ first :: tokens := by
  have rootPath := (leafPath_old shape.root_inside : index.leafPath path cur (first :: tokens) 0 = path 0)
  refine ⟨index.leafPath path cur (first :: tokens),
    ⟨by rw [addLeaf_length]; omega, rootPath.trans shape.root_path, ?_, ?_, ?_⟩, addLeaf_covers_iff inside⟩
  · exact fun entry => shape.addLeaf_link inside carried entry
  · exact fun entry entry' => shape.addLeaf_unique inside entry entry'
  · exact fun positive bound => shape.addLeaf_parent inside free positive bound

end AddLeaf

section Split

variable {c cut : ℕ} {now : Millis}

theorem split_length : (index.split c cut now).nodes.length = index.nodes.length + 1 := by
  simp [split]

theorem node_split_tail (inside : c < index.nodes.length) :
    (index.split c cut now).node index.nodes.length =
      { Node.new ((index.node c).edge.drop cut) now with
        children := (index.node c).children, workers := (index.node c).workers } := by
  rw [split, node_modify _ _ _ (by simp; omega), if_neg (by omega), node_push, if_pos (by simp)]

theorem node_split_old (inside : c < index.nodes.length) {j : ℕ} (old : j ≠ index.nodes.length) :
    (index.split c cut now).node j =
      if j = c then
        { index.node c with
          edge := (index.node c).edge.take cut
          children := AList.insert (((index.node c).edge.drop cut).headD 0) index.nodes.length ∅ }
      else index.node j := by
  rw [split, node_modify _ _ _ (by simp; omega), node_push, modify_length, if_neg old, node_modify _ _ _ inside]
  by_cases here : j = c
  · simp only [here, if_true]
  · simp only [if_neg here]

theorem edge_split (inside : c < index.nodes.length) (j : ℕ) :
    ((index.split c cut now).node j).edge =
      if j = index.nodes.length then (index.node c).edge.drop cut
      else if j = c then (index.node c).edge.take cut else (index.node j).edge := by
  split
  next new =>
    rw [new, node_split_tail inside]
    rfl
  next old =>
    rw [node_split_old inside old]
    split <;> rfl

theorem workers_split (inside : c < index.nodes.length) (j : ℕ) :
    ((index.split c cut now).node j).workers =
      if j = index.nodes.length then (index.node c).workers else (index.node j).workers := by
  split
  next new => rw [new, node_split_tail inside]
  next old =>
    rw [node_split_old inside old]
    split
    next here => rw [here]
    next => rfl

theorem child_split (inside : c < index.nodes.length) (p k : ℕ) :
    (index.split c cut now).child p k =
      if p = c then if k = ((index.node c).edge.drop cut).headD 0 then some index.nodes.length else none
      else if p = index.nodes.length then index.child c k else index.child p k := by
  by_cases new : p = index.nodes.length
  · subst new
    rw [if_neg (by omega), if_pos rfl, child, node_split_tail inside]
    rfl
  · rw [child, node_split_old inside new]
    by_cases here : p = c
    · rw [if_pos here, if_pos here]
      split
      next key =>
        rw [key]
        exact AList.lookup_insert _
      next other =>
        change AList.lookup k (AList.insert _ _ _) = none
        rw [AList.lookup_insert_ne other]
        rfl
    · rw [if_neg here, if_neg here, if_neg new]
      rfl

/-- The paths once the edge into `c` is split: `c` becomes the node in the middle, the new node is where `c` was. -/
structure SplitPath (index : RadixIndex) (path path' : ℕ → List TokenId) (p c cut : ℕ) : Prop where
  middle : path' c = path p ++ (index.node c).edge.take cut
  tail : path' index.nodes.length = path c
  rest : ∀ {j}, j < index.nodes.length → j ≠ c → path' j = path j

theorem exists_splitPath (path : ℕ → List TokenId) (p : ℕ) (inside : c < index.nodes.length) :
    ∃ path', SplitPath index path path' p c cut := by
  refine ⟨Function.update (Function.update path index.nodes.length (path c)) c
    (path p ++ (index.node c).edge.take cut), Function.update_self .., ?_, ?_⟩
  · rw [Function.update_of_ne inside.ne', Function.update_self]
  · intro j bound other
    rw [Function.update_of_ne other, Function.update_of_ne bound.ne]

section Split

variable {p k : ℕ} {path' : ℕ → List TokenId}

theorem SplitPath.whole (paths : SplitPath index path path' p c cut) (link : Link index path p k c) :
    path c = path' c ++ (index.node c).edge.drop cut := by
  rw [paths.middle, List.append_assoc, List.take_append_drop, link.path_eq]

/-- The entry of the new node. -/
theorem Link.split_tail (link : Link index path p k c) (paths : SplitPath index path path' p c cut) (root : 0 < c)
    (inner : cut < (index.node c).edge.length) :
    Link (index.split c cut now) path' c (((index.node c).edge.drop cut).headD 0) index.nodes.length := by
  have inside := link.inside
  obtain ⟨first, tail, tailEq⟩ : ∃ first tail, (index.node c).edge.drop cut = first :: tail :=
    List.exists_cons_of_ne_nil (by simpa using inner)
  refine ⟨root.trans inside, by rw [split_length]; omega, ⟨tail, ?_⟩, ?_, ?_⟩
  · rw [edge_split inside, if_pos rfl, tailEq]
    rfl
  · rw [paths.tail, edge_split inside, if_pos rfl, ← paths.whole link]
  · rw [workers_split inside, if_pos rfl, workers_split inside, if_neg inside.ne]
    exact List.Subset.refl _

/-- The entry of the node in the middle. -/
theorem Link.split_middle (link : Link index path p k c) (paths : SplitPath index path path' p c cut)
    (parent : p < index.nodes.length) (positive : 0 < cut) : Link (index.split c cut now) path' p k c := by
  have inside := link.inside
  refine ⟨link.not_root, by rw [split_length]; omega, ?_, ?_, ?_⟩
  · obtain ⟨rest, edge⟩ := link.key_first
    obtain ⟨less, rfl⟩ := Nat.exists_eq_succ_of_ne_zero positive.ne'
    refine ⟨rest.take less, ?_⟩
    rw [edge_split inside, if_neg inside.ne, if_pos rfl, edge]
    rfl
  · rw [edge_split inside, if_neg inside.ne, if_pos rfl, paths.middle, paths.rest parent link.ne.symm]
  · rw [workers_split inside, if_neg inside.ne, workers_split inside, if_neg parent.ne]
    exact link.workers

theorem Shape.split_link (shape : Shape index path) (entry : index.child p k = some c)
    (paths : SplitPath index path path' p c cut) (positive : 0 < cut) (inner : cut < (index.node c).edge.length)
    {q key d : ℕ} (found : (index.split c cut now).child q key = some d) :
    Link (index.split c cut now) path' q key d := by
  have link := shape.link entry
  have inside := link.inside
  rw [child_split inside] at found
  split at found
  next here =>
    split at found
    next first =>
      obtain rfl := Option.some.inj found
      rw [here, first]
      exact link.split_tail paths link.not_root inner
    next => cases found
  next other =>
    split at found
    next new =>
      have below := shape.link found
      have bound := below.inside
      refine ⟨below.not_root, by rw [split_length]; omega, ?_, ?_, ?_⟩
      · rw [edge_split inside, if_neg bound.ne, if_neg below.ne]
        exact below.key_first
      · rw [new, paths.tail, paths.rest bound below.ne, edge_split inside, if_neg bound.ne, if_neg below.ne]
        exact below.path_eq
      · rw [workers_split inside, if_neg bound.ne, workers_split inside, if_pos new]
        exact below.workers
    next old =>
      have below := shape.link found
      have bound := below.inside
      have above := inside_of_child found
      by_cases target : d = c
      · subst target
        obtain ⟨rfl, rfl⟩ := shape.unique found entry
        exact below.split_middle paths above positive
      · refine ⟨below.not_root, by rw [split_length]; omega, ?_, ?_, ?_⟩
        · rw [edge_split inside, if_neg bound.ne, if_neg target]
          exact below.key_first
        · rw [paths.rest bound target, paths.rest above other, edge_split inside, if_neg bound.ne, if_neg target]
          exact below.path_eq
        · rw [workers_split inside, if_neg bound.ne, workers_split inside, if_neg old]
          exact below.workers

theorem Shape.split_unique (shape : Shape index path) (inside : c < index.nodes.length) {q key q' key' d : ℕ}
    (found : (index.split c cut now).child q key = some d) (found' : (index.split c cut now).child q' key' = some d) :
    q = q' ∧ key = key' := by
  rw [child_split inside] at found found'
  split at found <;> split at found'
  next here here' =>
    split at found <;> split at found'
    next first first' => exact ⟨here.trans here'.symm, first.trans first'.symm⟩
    next => cases found'
    next => cases found
    next => cases found
  next here other' =>
    split at found
    next =>
      obtain rfl := Option.some.inj found
      split at found' <;> exact absurd (shape.link found').inside (lt_irrefl _)
    next => cases found
  next other here' =>
    split at found'
    next =>
      obtain rfl := Option.some.inj found'
      split at found <;> exact absurd (shape.link found).inside (lt_irrefl _)
    next => cases found'
  next other other' =>
    split at found <;> split at found'
    next new new' => exact ⟨new.trans new'.symm, (shape.unique found found').2⟩
    next => exact absurd (shape.unique found found').1.symm other'
    next => exact absurd (shape.unique found found').1 other
    next => exact shape.unique found found'

theorem Shape.split_parent (shape : Shape index path) (inside : c < index.nodes.length) {d : ℕ} (root : 0 < d)
    (bound : d < (index.split c cut now).nodes.length) : ∃ q key, (index.split c cut now).child q key = some d := by
  rw [split_length] at bound
  by_cases new : d = index.nodes.length
  · exact ⟨c, ((index.node c).edge.drop cut).headD 0, by rw [child_split inside, if_pos rfl, if_pos rfl, new]⟩
  · obtain ⟨q, key, found⟩ := shape.parent root (by omega)
    by_cases here : q = c
    · refine ⟨index.nodes.length, key, ?_⟩
      rw [child_split inside, if_neg inside.ne', if_pos rfl, ← here]
      exact found
    · refine ⟨q, key, ?_⟩
      rw [child_split inside, if_neg here, if_neg (inside_of_child found).ne]
      exact found

/-- The node in the middle covers no more than the one below it. -/
theorem SplitPath.covers_iff (paths : SplitPath index path path' p c cut) (link : Link index path p k c)
    (w : WorkerId) (string : List TokenId) :
    (index.split c cut now).Covers path' w string ↔ index.Covers path w string := by
  have inside := link.inside
  have shorter : path' c <+: path c := by
    rw [paths.whole link]
    exact List.prefix_append _ _
  constructor
  · rintro ⟨j, bound, member, agrees⟩
    rw [split_length] at bound
    rw [workers_split inside] at member
    split at member
    next new =>
      rw [new, paths.tail] at agrees
      exact ⟨c, inside, member, agrees⟩
    next old =>
      by_cases here : j = c
      · subst here
        exact ⟨j, inside, member, agrees.trans shorter⟩
      · rw [paths.rest (by omega) here] at agrees
        exact ⟨j, by omega, member, agrees⟩
  · rintro ⟨j, bound, member, agrees⟩
    by_cases here : j = c
    · subst here
      refine ⟨index.nodes.length, by rw [split_length]; omega, ?_, ?_⟩
      · rw [workers_split inside, if_pos rfl]
        exact member
      · rw [paths.tail]
        exact agrees
    · refine ⟨j, by rw [split_length]; omega, ?_, ?_⟩
      · rw [workers_split inside, if_neg bound.ne]
        exact member
      · rw [paths.rest bound here]
        exact agrees

end Split

/-- Splitting an edge strictly inside adds a node on the way and covers the same strings. -/
theorem Shape.split (shape : Shape index path) {p k : ℕ} (now : Millis) (entry : index.child p k = some c)
    (positive : 0 < cut) (inner : cut < (index.node c).edge.length) :
    ∃ path', Shape (index.split c cut now) path' ∧ path' c = path p ++ (index.node c).edge.take cut ∧
      path' p = path p ∧ ∀ w string, (index.split c cut now).Covers path' w string ↔ index.Covers path w string := by
  have link := shape.link entry
  have notRoot : (0 : ℕ) ≠ c := link.not_root.ne
  obtain ⟨path', paths⟩ := @exists_splitPath index c cut path p link.inside
  have rootPath : path' 0 = [] := (paths.rest shape.root_inside notRoot).trans shape.root_path
  refine ⟨path', ⟨by rw [split_length]; omega, rootPath, ?_, ?_, ?_⟩, paths.middle,
    paths.rest (inside_of_child entry) link.ne.symm, paths.covers_iff link⟩
  · exact fun found => shape.split_link entry paths positive inner found
  · exact fun found found' => shape.split_unique link.inside found found'
  · exact fun root bound => shape.split_parent link.inside root bound

/-- After the optional split, the child under the next token ends exactly where the string leaves
its edge. -/
theorem Shape.part (shape : Shape index path) {cur first : ℕ} (tokens : List TokenId)
    (entry : index.child cur first = some c) (now : Millis) :
    let common := commonPrefixLen (index.node c).edge (first :: tokens)
    let parted := if common < (index.node c).edge.length then index.split c common now else index
    ∃ path', Shape parted path' ∧ path' c ++ (first :: tokens).drop common = path cur ++ first :: tokens ∧
      parted.child cur first = some c ∧ (parted.node cur).workers = (index.node cur).workers ∧
      ∀ w string, parted.Covers path' w string ↔ index.Covers path w string := by
  intro common parted
  have link := shape.link entry
  have joined := take_append_drop_common (index.node c).edge (first :: tokens)
  have positive : 0 < common := link.common_pos tokens
  have above := inside_of_child entry
  by_cases inner : common < (index.node c).edge.length
  · have cutHere : parted = index.split c common now := if_pos inner
    obtain ⟨path', shape', atCut, _, covers⟩ := shape.split now entry positive inner
    rw [cutHere]
    refine ⟨path', shape', ?_, ?_, ?_, covers⟩
    · rw [atCut, List.append_assoc, joined]
    · rw [child_split link.inside, if_neg link.ne.symm, if_neg above.ne]
      exact entry
    · rw [workers_split link.inside, if_neg above.ne]
  · have whole : parted = index := if_neg inner
    rw [whole]
    refine ⟨path, shape, ?_, entry, rfl, fun _ _ => Iff.rfl⟩
    rw [List.take_of_length_le (not_lt.mp inner)] at joined
    rw [link.path_eq, List.append_assoc, joined]

end Split

theorem covers_iff_of_carried {cur : ℕ} {worker : WorkerId} (inside : cur < index.nodes.length)
    (carried : worker ∈ (index.node cur).workers) (w : WorkerId) (string : List TokenId) :
    index.Covers path w string ↔
      index.Covers path w string ∨ w = worker ∧ string <+: path cur ++ [] := by
  refine ⟨.inl, ?_⟩
  rintro (covered | ⟨rfl, agrees⟩)
  · exact covered
  · exact ⟨cur, inside, carried, by simpa using agrees⟩

/-- The insertion loop covers the rest of the string for its worker, and nothing else. -/
theorem Shape.insertLoop (worker : WorkerId) (now : Millis) (rounds : ℕ) {index : RadixIndex}
    {path : ℕ → List TokenId} (shape : Shape index path) {cur : ℕ} {tokens : List TokenId}
    (inside : cur < index.nodes.length) (carried : worker ∈ (index.node cur).workers)
    (enough : tokens.length ≤ rounds) :
    ∃ path', Shape (RadixIndex.insertLoop worker now rounds cur tokens index) path' ∧
      ∀ w string, (RadixIndex.insertLoop worker now rounds cur tokens index).Covers path' w string ↔
        index.Covers path w string ∨ w = worker ∧ string <+: path cur ++ tokens := by
  induction rounds generalizing index path cur tokens with
  | zero =>
    obtain rfl := List.length_eq_zero_iff.mp (Nat.le_zero.mp enough)
    exact ⟨path, shape, covers_iff_of_carried inside carried⟩
  | succ rounds ih =>
    cases tokens with
    | nil => exact ⟨path, shape, covers_iff_of_carried inside carried⟩
    | cons first tokens =>
      rw [RadixIndex.insertLoop]
      cases found : (index.node cur).children.lookup first with
      | none => exact shape.addLeaf inside found carried
      | some c =>
        have entry : index.child cur first = some c := found
        have positive := (shape.link entry).common_pos tokens
        obtain ⟨path₁, shape₁, rest, entry₁, kept, same⟩ := shape.part tokens entry now
        simp only
        generalize (if commonPrefixLen (index.node c).edge (first :: tokens) < (index.node c).edge.length then
          index.split c (commonPrefixLen (index.node c).edge (first :: tokens)) now else index) = parted
          at shape₁ entry₁ kept same ⊢
        have below := (shape₁.link entry₁).inside
        have above : ∀ {p k}, parted.child p k = some c → worker ∈ (parted.node p).workers := by
          intro p k up
          obtain ⟨rfl, _⟩ := shape₁.unique up entry₁
          rw [kept]
          exact carried
        obtain ⟨shape₂, touched⟩ := shape₁.touch worker now below above
        have here : worker ∈ ((parted.modify c (·.touch worker now)).node c).workers := by
          rw [node_modify _ _ _ below, if_pos rfl, mem_touch]
          exact .inr rfl
        have shorter : ((first :: tokens).drop
            (commonPrefixLen (index.node c).edge (first :: tokens))).length ≤ rounds := by
          rw [List.length_drop]
          omega
        obtain ⟨path', shape', covers⟩ := ih shape₂ (by simpa using below) here shorter
        refine ⟨path', shape', fun w string => ?_⟩
        rw [covers, touched, same, rest, or_assoc]
        refine or_congr_right ⟨?_, .inr⟩
        rintro (⟨mine, agrees⟩ | full)
        · refine ⟨mine, agrees.trans ?_⟩
          rw [← rest]
          exact List.prefix_append _ _
        · exact full

/-- An accepted string is covered for its worker, and nothing else changes. -/
theorem Shape.insert (shape : Shape index path) (worker : WorkerId) (tokens : List TokenId) (now : Millis)
    (accepted : ¬ index.rejects tokens) :
    ∃ path', Shape (index.insert worker tokens now) path' ∧
      ∀ w string, (index.insert worker tokens now).Covers path' w string ↔
        index.Covers path w string ∨ w = worker ∧ string <+: tokens := by
  rw [RadixIndex.insert, if_neg accepted]
  have noParent : ∀ {p k}, index.child p k = some 0 → worker ∈ (index.node p).workers := fun entry =>
    absurd (shape.link entry).not_root (lt_irrefl 0)
  obtain ⟨shape₁, touched⟩ := shape.touch worker now shape.root_inside noParent
  have here : worker ∈ ((index.modify 0 (·.touch worker now)).node 0).workers := by
    rw [node_modify _ _ _ shape.root_inside, if_pos rfl, mem_touch]
    exact .inr rfl
  obtain ⟨path', shape', covers⟩ := shape₁.insertLoop worker now tokens.length
    (by simpa using shape.root_inside) here (le_refl tokens.length)
  refine ⟨path', shape', fun w string => ?_⟩
  rw [covers, touched, shape.root_path, List.nil_append, or_assoc]
  refine or_congr_right ⟨?_, .inr⟩
  rintro (⟨mine, agrees⟩ | full)
  · exact ⟨mine, agrees.trans List.nil_prefix⟩
  · exact full

/-! ### Forgetting a worker and clearing -/

theorem node_forgetWorker (worker : WorkerId) (j : ℕ) :
    (index.forgetWorker worker).node j =
      { index.node j with workers := (index.node j).workers.filter (· ≠ worker) } := by
  unfold node forgetWorker
  rw [List.getD_eq_getElem?_getD, List.getD_eq_getElem?_getD, List.getElem?_map]
  cases index.nodes[j]? with
  | none => simp [Node.new]
  | some node => rfl

theorem Shape.forgetWorker (shape : Shape index path) (worker : WorkerId) :
    Shape (index.forgetWorker worker) path ∧
      ∀ w tokens, (index.forgetWorker worker).Covers path w tokens ↔
        w ≠ worker ∧ index.Covers path w tokens := by
  have size : (index.forgetWorker worker).nodes.length = index.nodes.length := List.length_map _
  have same : ∀ p k, (index.forgetWorker worker).child p k = index.child p k := by
    intro p k
    rw [child, child, node_forgetWorker]
  refine ⟨⟨size ▸ shape.root_inside, shape.root_path, ?_, ?_, ?_⟩, ?_⟩
  · intro p k c entry
    rw [same] at entry
    have link := shape.link entry
    refine ⟨link.not_root, size ▸ link.inside, ?_, ?_, ?_⟩
    · rw [node_forgetWorker]
      exact link.key_first
    · rw [node_forgetWorker]
      exact link.path_eq
    · rw [node_forgetWorker, node_forgetWorker]
      intro w member
      obtain ⟨known, kept⟩ := List.mem_filter.mp member
      exact List.mem_filter.mpr ⟨link.workers known, kept⟩
  · intro p k p' k' c entry entry'
    rw [same] at entry entry'
    exact shape.unique entry entry'
  · intro c positive bound
    simpa [same] using shape.parent positive (size ▸ bound)
  · intro w tokens
    constructor
    · rintro ⟨j, bound, member, agrees⟩
      rw [node_forgetWorker, List.mem_filter] at member
      exact ⟨by simpa using member.2, j, size ▸ bound, member.1, agrees⟩
    · rintro ⟨other, j, bound, member, agrees⟩
      refine ⟨j, size ▸ bound, ?_, agrees⟩
      rw [node_forgetWorker, List.mem_filter]
      exact ⟨member, by simpa using other⟩

/-- The index of a single blank root. -/
theorem shape_of_root {index : RadixIndex} (root : index.nodes = [Node.new [] 0]) :
    Shape index (fun _ => []) ∧ ∀ w tokens, ¬ index.Covers (fun _ => []) w tokens := by
  have blank : ∀ j, index.node j = Node.new [] 0 := by
    intro j
    unfold node
    rw [root]
    cases j <;> rfl
  have none : ∀ p k, index.child p k = none := by
    intro p k
    rw [child, blank]
    rfl
  refine ⟨⟨by simp [root], rfl, ?_, ?_, ?_⟩, ?_⟩
  · intro p k c entry
    simp [none] at entry
  · intro p k p' k' c entry
    simp [none] at entry
  · intro c positive bound
    simp only [root, List.length_singleton] at bound
    omega
  · rintro w tokens ⟨j, _, member, _⟩
    simp [blank, Node.new] at member

end RadixIndex

end TrtLlm.KvCache
