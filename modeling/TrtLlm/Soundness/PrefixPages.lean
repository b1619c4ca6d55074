import TrtLlm.Model.KvCache.PrefixCache
import TrtLlm.Soundness.PoolOwnership
import TrtLlm.ToMathlib.AListLookup
import TrtLlm.ToMathlib.ListIndex

/-! # A prefix-cache hit and the page behind it

One pool, one enabled index and any number of sequences. A sequence has its own token string,
takes pages from the free list, fills them in order, publishes filled pages and drops its pages
from the back; eviction is followed at once by `forget`. The ghost map `writer` says which
sequence's string a page was last filled from, and at which block position.

`RightPages` is what a hit promises. The index cannot tell a page from the same page number
allocated again, so the promise fails once `alloc` hands out a page the index still maps; it holds
in every run in which that never happens.
-/

namespace TrtLlm.KvCache

/-- One sequence: its tokens, its pages in block order, and how many of them hold its content. -/
structure Sequence where
  tokens : List TokenId
  pages : List BlockId
  written : ℕ
deriving DecidableEq

/-- A worker's pool and index, the sequences using them, and what each page was last filled with. -/
structure PagedCache where
  shared : SharedPool ℕ
  cache : PrefixCache
  seqs : ℕ → Option Sequence
  writer : BlockId → Option (List TokenId × ℕ)

inductive CacheOp where
  | start (seq : ℕ) (tokens : List TokenId)
  | lookup (seq : ℕ) (tokens : List TokenId)
  | alloc (seq count : ℕ)
  | fill (seq : ℕ)
  | publish (seq tokens count : ℕ)
  | drop (seq keep : ℕ) (target : Reclaim)
  | evict (count : ℕ)

/-- Tokens in the first `count` blocks. -/
def firstBlocks (blockSize count : ℕ) (tokens : List TokenId) : List TokenId :=
  tokens.take (count * max blockSize 1)

namespace PagedCache

def new (n blockSize : ℕ) (watermark : ℚ) : PagedCache where
  shared := ⟨.new n blockSize watermark, 0⟩
  cache := .new blockSize true
  seqs _ := none
  writer _ := none

/-- Pages are allocated only from the free list, a sequence publishes only pages it has filled or
was handed by a lookup, and no page reaches `2 ^ 32` references. -/
def Allowed (used : Set (List TokenId)) (s : PagedCache) : CacheOp → Prop
  | .start seq tokens => s.seqs seq = none ∧ tokens ∈ used
  | .lookup seq tokens =>
    s.seqs seq = none ∧ tokens ∈ used ∧ ∀ block, s.shared.held.count block + 1 < 2 ^ 32
  | .alloc seq count => (s.seqs seq).isSome ∧ count ≤ s.shared.pool.freeBlocks
  | .fill seq => ∃ q, s.seqs seq = some q ∧ q.written < q.pages.length
  | .publish seq _ count => ∃ q, s.seqs seq = some q ∧ count ≤ q.written
  | .drop seq _ _ => (s.seqs seq).isSome
  | .evict _ => True

def setSeq (s : PagedCache) (seq : ℕ) (q : Sequence) : PagedCache :=
  { s with seqs := Function.update s.seqs seq (some q) }

/-- Let go of some pages. -/
def releaseTo (target : Reclaim) (seq : ℕ) (blocks : List BlockId) : PoolOp ℕ :=
  match target with
  | .free => .release seq blocks
  | .cache => .releaseToCache seq blocks

def step (s : PagedCache) : CacheOp → PagedCache
  | .start seq tokens => s.setSeq seq ⟨tokens, [], 0⟩
  | .lookup seq tokens =>
    let (found, cache, pool) := s.cache.lookup tokens s.shared.pool
    { s with shared := ⟨pool, SharedPool.claims seq found.blocks + s.shared.refs⟩, cache }.setSeq
      seq ⟨tokens, found.blocks, found.blocks.length⟩
  | .alloc seq count =>
    match s.seqs seq, s.shared.pool.alloc count with
    | some q, (.ok out, _) =>
      { s with shared := s.shared.step (.alloc seq count) }.setSeq seq { q with pages := q.pages ++ out }
    | _, _ => s
  | .fill seq =>
    match s.seqs seq with
    | some q =>
      match q.pages[q.written]? with
      | some block =>
        { s with writer := Function.update s.writer block (some (q.tokens, q.written)) }.setSeq
          seq { q with written := q.written + 1 }
      | none => s
    | none => s
  | .publish seq tokens count =>
    match s.seqs seq with
    | some q => { s with cache := s.cache.insert (q.tokens.take tokens) (q.pages.take count) }
    | none => s
  | .drop seq keep target =>
    match s.seqs seq with
    | some q =>
      { s with shared := s.shared.step (releaseTo target seq (q.pages.drop keep)) }.setSeq
        seq { q with pages := q.pages.take keep, written := min q.written keep }
    | none => s
  | .evict count =>
    { s with
      shared := s.shared.step (.evictCached count)
      cache := s.cache.forget (s.shared.pool.evictCached count).1 }

/-- Every interleaving of sequences over one pool and one enabled index. -/
def system (n blockSize : ℕ) (watermark : ℚ) (used : Set (List TokenId)) :
    Machine.System PagedCache CacheOp :=
  .ofFun (fun s => s = new n blockSize watermark) (Allowed used) step

/-- Page `block` was last filled as block `i` of a string that starts with the same `i + 1`
blocks as `tokens`. -/
def Filled (s : PagedCache) (tokens : List TokenId) (i : ℕ) (block : BlockId) : Prop :=
  ∃ source, s.writer block = some (source, i) ∧
    firstBlocks s.cache.blockSize (i + 1) source = firstBlocks s.cache.blockSize (i + 1) tokens

/-- What a hit promises: every page returned holds the content asked for. -/
def RightPages (s : PagedCache) (tokens : List TokenId) : Prop :=
  ∀ i block, (s.cache.lookup tokens s.shared.pool).1.blocks[i]? = some block → s.Filled tokens i block

/-- No page about to be allocated is still mapped by the index. -/
def Unmapped (s : PagedCache) : CacheOp → Prop
  | .alloc _ count => ∀ block ∈ s.shared.pool.free.take count, ∀ h, s.cache.byHash.lookup h ≠ some block
  | _ => True

/-- Two strings in use whose chains agree anywhere agree on all the blocks up to there. -/
def NoCollision (blockSize : ℕ) (used : Set (List TokenId)) : Prop :=
  ∀ a ∈ used, ∀ b ∈ used, ∀ i j h, (blockHashes a blockSize)[i]? = some h →
    (blockHashes b blockSize)[j]? = some h → firstBlocks blockSize (i + 1) a = firstBlocks blockSize (j + 1) b

end PagedCache

/-! ## The hash chain hashes whole leading blocks -/

theorem hashChain_getElem? (size count : ℕ) (h : BitVec 64) (tokens : List TokenId) (i : ℕ) :
    (hashChain size count h tokens)[i]? =
      if i < count then some (hashTokens h (tokens.take ((i + 1) * size))) else none := by
  induction count generalizing h tokens i with
  | zero => simp [hashChain]
  | succ count ih =>
    cases i with
    | zero => simp [hashChain]
    | succ i =>
      have joined : hashTokens (hashTokens h (tokens.take size)) ((tokens.drop size).take ((i + 1) * size)) =
          hashTokens h (tokens.take ((i + 1 + 1) * size)) := by
        rw [hashTokens, hashTokens, hashTokens, ← List.foldl_append, ← List.take_add]
        congr 2
        ring
      simp only [hashChain, List.getElem?_cons_succ, ih, joined, Nat.add_lt_add_iff_right]

/-- Block `i` of the chain exists exactly when that block is complete, and depends on the first
`i + 1` blocks only. -/
theorem blockHashes_getElem? {tokens : List TokenId} {blockSize i : ℕ} {h : BlockHash} :
    (blockHashes tokens blockSize)[i]? = some h ↔
      (i + 1) * max blockSize 1 ≤ tokens.length ∧
        h = hashTokens fnvOffset (firstBlocks blockSize (i + 1) tokens) := by
  have positive : 0 < max blockSize 1 := by omega
  rw [blockHashes, hashChain_getElem?]
  have complete : i < tokens.length / max blockSize 1 ↔ (i + 1) * max blockSize 1 ≤ tokens.length :=
    (Nat.lt_iff_add_one_le).trans (Nat.le_div_iff_mul_le positive)
  by_cases inside : i < tokens.length / max blockSize 1
  · simp only [if_pos inside, Option.some.injEq, complete.mp inside, true_and, firstBlocks]
    exact eq_comm
  · simp only [if_neg inside, reduceCtorEq, false_iff, not_and]
    exact fun bound => (inside (complete.mpr bound)).elim

theorem firstBlocks_length {blockSize count : ℕ} {tokens : List TokenId}
    (complete : count * max blockSize 1 ≤ tokens.length) :
    (firstBlocks blockSize count tokens).length = count * max blockSize 1 := by
  simp [firstBlocks, complete]

/-- Sharing complete leading blocks makes both strings long enough to have them. -/
theorem complete_of_firstBlocks {blockSize count : ℕ} {tokens other : List TokenId}
    (complete : count * max blockSize 1 ≤ tokens.length)
    (same : firstBlocks blockSize count other = firstBlocks blockSize count tokens) :
    count * max blockSize 1 ≤ other.length := by
  have length := congrArg List.length same
  rw [firstBlocks_length complete] at length
  simp only [firstBlocks, List.length_take] at length
  omega

/-- A string that shares the first `i + 1` blocks has the same chain up to there. -/
theorem blockHashes_congr {blockSize i : ℕ} {tokens other : List TokenId} {h : BlockHash}
    (found : (blockHashes tokens blockSize)[i]? = some h)
    (same : firstBlocks blockSize (i + 1) other = firstBlocks blockSize (i + 1) tokens) :
    (blockHashes other blockSize)[i]? = some h := by
  obtain ⟨complete, rfl⟩ := blockHashes_getElem?.mp found
  exact blockHashes_getElem?.mpr ⟨complete_of_firstBlocks complete same, by rw [same]⟩

/-- Chains whose leading blocks agree up to two blocks have these at the same position. -/
theorem position_eq {blockSize i j : ℕ} {tokens other : List TokenId} {h h' : BlockHash}
    (found : (blockHashes tokens blockSize)[i]? = some h) (found' : (blockHashes other blockSize)[j]? = some h')
    (same : firstBlocks blockSize (j + 1) other = firstBlocks blockSize (i + 1) tokens) : j = i := by
  have lengths := congrArg List.length same
  rw [firstBlocks_length (blockHashes_getElem?.mp found').1, firstBlocks_length (blockHashes_getElem?.mp found).1]
    at lengths
  have blocks := Nat.eq_of_mul_eq_mul_right (by omega) lengths
  omega

/-- A page that cannot be taken back leaves the pool as it was. -/
theorem BlockPool.eq_of_reacquire_false {pool after : BlockPool} {block : BlockId}
    (missed : pool.reacquire block = (false, after)) : after = pool := by
  unfold BlockPool.reacquire at missed
  split at missed
  · cases missed
  · split at missed
    · cases missed
    · exact (Prod.mk.inj missed).2.symm

/-! ## The index only gains what is published -/

namespace PrefixCache

theorem insertAll_frame (entries : List (BlockHash × BlockId)) (cache : PrefixCache) :
    (entries.foldl insertOne cache).blockSize = cache.blockSize ∧
      (entries.foldl insertOne cache).enabled = cache.enabled := by
  induction entries generalizing cache with
  | nil => exact ⟨rfl, rfl⟩
  | cons entry rest ih => exact ih (cache.insertOne entry)

/-- An entry of the index after publishing was there before or is one of the published pairs. -/
theorem insertAll_lookup {entries : List (BlockHash × BlockId)} {cache : PrefixCache}
    {h : BlockHash} {block : BlockId}
    (found : (entries.foldl insertOne cache).byHash.lookup h = some block) :
    cache.byHash.lookup h = some block ∨ (h, block) ∈ entries := by
  induction entries generalizing cache with
  | nil => exact .inl found
  | cons entry rest ih =>
    rcases ih found with before | member
    · by_cases same : h = entry.1
      · subst same
        have published : some entry.2 = some block := by
          simpa only [insertOne, AList.lookup_insert] using before
        exact .inr (List.mem_cons.mpr (.inl (Prod.ext rfl (Option.some.inj published).symm)))
      · exact .inl (by simpa only [insertOne, AList.lookup_insert_ne same] using before)
    · exact .inr (List.mem_cons_of_mem _ member)

theorem forgetOne_lookup {cache : PrefixCache} {forgotten : BlockId} {h : BlockHash} {block : BlockId}
    (found : (cache.forgetOne forgotten).byHash.lookup h = some block) :
    cache.byHash.lookup h = some block := by
  unfold forgetOne at found
  split at found
  · next stale _ =>
    by_cases same : h = stale
    · subst same
      simp at found
    · rwa [AList.lookup_erase_ne same] at found
  · exact found

theorem forget_frame (blocks : List BlockId) (cache : PrefixCache) :
    (cache.forget blocks).blockSize = cache.blockSize ∧ (cache.forget blocks).enabled = cache.enabled ∧
      ∀ h block, (cache.forget blocks).byHash.lookup h = some block → cache.byHash.lookup h = some block := by
  induction blocks generalizing cache with
  | nil => exact ⟨rfl, rfl, fun _ _ found => found⟩
  | cons first rest ih =>
    obtain ⟨size, enabled, kept⟩ := ih (cache.forgetOne first)
    refine ⟨size.trans ?_, enabled.trans ?_, fun h block found => forgetOne_lookup (kept h block found)⟩
    all_goals unfold forgetOne; split <;> rfl

theorem lookupLoop_frame (hashes : List BlockHash) (cache : PrefixCache) (pool : BlockPool) (found : PrefixMatch) :
    (lookupLoop hashes cache pool found).2.1.blockSize = cache.blockSize ∧
      (lookupLoop hashes cache pool found).2.1.enabled = cache.enabled := by
  induction hashes generalizing cache pool found with
  | nil => exact ⟨rfl, rfl⟩
  | cons h rest ih =>
    simp only [lookupLoop]
    split
    · exact ⟨rfl, rfl⟩
    · split
      · exact ih { cache with hits := cache.hits + 1 } _ _
      · exact ⟨rfl, rfl⟩

end PrefixCache

/-! ## The invariant tying index entries, page states and page contents -/

namespace PagedCache

/-- The pages a sequence holds. -/
def pagesOf (s : PagedCache) (seq : ℕ) : List BlockId := (s.seqs seq).elim [] Sequence.pages

/-- `seq` holds the only reference to `block`. -/
def Private (s : PagedCache) (seq : ℕ) (block : BlockId) : Prop :=
  s.shared.refs.filter (fun ref => ref.2 = block) = {(seq, block)}

/-- Every sequence's references are its pages; filled pages hold the sequence's own leading
blocks; pages not yet filled are private and unmapped; and each index entry maps a hash to a page
last filled with a string of that hash. -/
structure Intact (used : Set (List TokenId)) (n : ℕ) (s : PagedCache) : Prop where
  enabled : s.cache.enabled = true
  owned : s.shared.pool.Owned n s.shared.held
  mine : ∀ seq block, s.shared.refs.count (seq, block) = (s.pagesOf seq).count block
  strings : ∀ seq q, s.seqs seq = some q → q.tokens ∈ used ∧ q.written ≤ q.pages.length
  filled : ∀ seq q i block, s.seqs seq = some q → i < q.written → q.pages[i]? = some block →
    ∃ source ∈ used, s.writer block = some (source, i) ∧
      firstBlocks s.cache.blockSize (i + 1) source = firstBlocks s.cache.blockSize (i + 1) q.tokens
  unfilled : ∀ seq q i block, s.seqs seq = some q → q.written ≤ i → q.pages[i]? = some block →
    s.Private seq block ∧ ∀ h, s.cache.byHash.lookup h ≠ some block
  index : ∀ h block, s.cache.byHash.lookup h = some block → block < n ∧
    ∃ source ∈ used, ∃ i, s.writer block = some (source, i) ∧ (blockHashes source s.cache.blockSize)[i]? = some h

variable {used : Set (List TokenId)} {n : ℕ} {s : PagedCache}

theorem intact_new (n blockSize : ℕ) (watermark : ℚ) : Intact used n (new n blockSize watermark) where
  enabled := rfl
  owned := BlockPool.owned_new n blockSize watermark
  mine := by simp [new, pagesOf]
  strings := by simp [new]
  filled := by simp [new]
  unfilled := by simp [new]
  index := by simp [new, PrefixCache.new]

namespace Intact

theorem count_claims (seq other : ℕ) (blocks : List BlockId) (block : BlockId) :
    (SharedPool.claims seq blocks).count (other, block) = if other = seq then blocks.count block else 0 := by
  split
  · next same =>
    subst other
    exact (Multiset.count_map_eq_count' _ (blocks : Multiset BlockId) (Prod.mk_right_injective seq) block).trans
      (Multiset.coe_count block blocks)
  · next different =>
    refine Multiset.count_eq_zero.mpr ?_
    simp [SharedPool.claims, Ne.symm different]

/-- A sequence can let go of any of its pages. -/
theorem claims_le (intact : Intact used n s) {seq : ℕ} {q : Sequence} (present : s.seqs seq = some q)
    {blocks : List BlockId} (part : blocks.Sublist q.pages) : SharedPool.claims seq blocks ≤ s.shared.refs := by
  rw [Multiset.le_iff_count]
  rintro ⟨other, block⟩
  rw [count_claims]
  split
  · next same =>
    rw [same, intact.mine, pagesOf, present]
    exact part.count_le block
  · exact Nat.zero_le _

/-- Nobody else has a private page, and its owner has it once. -/
theorem private_unique (intact : Intact used n s) {seq other : ℕ} {q : Sequence} {block : BlockId}
    (alone : s.Private seq block) (present : s.seqs other = some q) (member : block ∈ q.pages) :
    other = seq ∧ q.pages.count block = 1 := by
  have held : (other, block) ∈ s.shared.refs := by
    rw [← Multiset.count_pos, intact.mine, pagesOf, present]
    exact List.count_pos_iff.mpr member
  have filtered : (other, block) ∈ s.shared.refs.filter (fun ref => ref.2 = block) :=
    Multiset.mem_filter.mpr ⟨held, rfl⟩
  rw [alone, Multiset.mem_singleton] at filtered
  have same : other = seq := congrArg Prod.fst filtered
  refine ⟨same, ?_⟩
  have once := Multiset.count_filter_of_pos (p := fun ref : ℕ × BlockId => ref.2 = block)
    (s := s.shared.refs) (a := (other, block)) rfl
  rw [alone, same, Multiset.count_singleton_self, intact.mine, pagesOf, ← same, present] at once
  exact once.symm

theorem filter_claims (seq : ℕ) (blocks : List BlockId) (block : BlockId) :
    (SharedPool.claims seq blocks).filter (fun ref => ref.2 = block) =
      Multiset.replicate (blocks.count block) (seq, block) := by
  change ((blocks : Multiset BlockId).map (Prod.mk seq)).filter _ = _
  rw [Multiset.filter_map, ← Multiset.map_replicate, ← Multiset.coe_count, ← Multiset.filter_eq']
  rfl

theorem private_add_claims {refs : Multiset (ℕ × BlockId)} {seq other : ℕ} {blocks : List BlockId}
    {block : BlockId} (alone : refs.filter (fun ref => ref.2 = block) = {(seq, block)})
    (absent : block ∉ blocks) :
    (SharedPool.claims other blocks + refs).filter (fun ref => ref.2 = block) = {(seq, block)} := by
  rw [Multiset.filter_add, filter_claims, List.count_eq_zero.mpr absent, alone]
  rfl

/-- A private page is referenced. -/
theorem private_held {s : PagedCache} {seq : ℕ} {block : BlockId} (alone : s.Private seq block) :
    block ∈ s.shared.held := by
  have filtered : (seq, block) ∈ s.shared.refs.filter (fun ref => ref.2 = block) := by
    rw [alone]
    exact Multiset.mem_singleton_self _
  exact SharedPool.mem_held.mpr ⟨seq, (Multiset.mem_filter.mp filtered).1⟩

end Intact

theorem pagesOf_setSeq (s : PagedCache) (seq other : ℕ) (q : Sequence) :
    (s.setSeq seq q).pagesOf other = if other = seq then q.pages else s.pagesOf other := by
  by_cases same : other = seq
  · subst other
    simp [pagesOf, setSeq]
  · simp [pagesOf, setSeq, same]

theorem seqs_setSeq {s : PagedCache} {seq other : ℕ} {q present : Sequence}
    (found : (s.setSeq seq q).seqs other = some present) :
    (other = seq ∧ present = q) ∨ (other ≠ seq ∧ s.seqs other = some present) := by
  by_cases same : other = seq
  · subst other
    refine .inl ⟨rfl, ?_⟩
    simpa [setSeq, eq_comm] using found
  · exact .inr ⟨same, by simpa [setSeq, Function.update_of_ne same] using found⟩

namespace Intact

/-- A sequence with no pages yet. -/
theorem step_start (intact : Intact used n s) {seq : ℕ} {tokens : List TokenId}
    (allowed : Allowed used s (.start seq tokens)) : Intact used n (s.step (.start seq tokens)) where
  enabled := intact.enabled
  owned := intact.owned
  mine other block := by
    refine (intact.mine other block).trans ?_
    simp only [step, pagesOf_setSeq]
    split
    · next same => rw [same, pagesOf, allowed.1]; rfl
    · rfl
  strings other q found := by
    rcases seqs_setSeq found with ⟨_, rfl⟩ | ⟨_, before⟩
    · exact ⟨allowed.2, le_rfl⟩
    · exact intact.strings other q before
  filled other q i block found written page := by
    rcases seqs_setSeq found with ⟨_, rfl⟩ | ⟨_, before⟩
    · exact (Nat.not_lt_zero _ written).elim
    · exact intact.filled other q i block before written page
  unfilled other q i block found unwritten page := by
    rcases seqs_setSeq found with ⟨_, rfl⟩ | ⟨_, before⟩
    · simp at page
    · exact intact.unfilled other q i block before unwritten page
  index := intact.index

/-- Filling the next page changes the content of a page nobody else has and the index does not map. -/
theorem step_fill (intact : Intact used n s) {seq : ℕ} (allowed : Allowed used s (.fill seq)) :
    Intact used n (s.step (.fill seq)) := by
  obtain ⟨q, present, room⟩ := allowed
  have page : q.pages[q.written]? = some q.pages[q.written] := List.getElem?_eq_getElem room
  generalize q.pages[q.written] = target at page
  obtain ⟨alone, unmapped⟩ := intact.unfilled seq q q.written target present le_rfl page
  have stepped : s.step (.fill seq) =
      { s with writer := Function.update s.writer target (some (q.tokens, q.written)) }.setSeq
        seq { q with written := q.written + 1 } := by
    simp only [step, present, page]
  rw [stepped]
  have kept : ∀ block, block ≠ target →
      Function.update s.writer target (some (q.tokens, q.written)) block = s.writer block :=
    fun block different => Function.update_of_ne different _ _
  refine ⟨intact.enabled, intact.owned, ?_, ?_, ?_, ?_, ?_⟩
  · intro other block
    refine (intact.mine other block).trans ?_
    rw [pagesOf_setSeq]
    split
    · next same => rw [same, pagesOf, present]; rfl
    · rfl
  · intro other q' found
    rcases seqs_setSeq found with ⟨_, rfl⟩ | ⟨_, before⟩
    · exact ⟨(intact.strings seq q present).1, room⟩
    · exact intact.strings other q' before
  · intro other q' i block found written atPage
    rcases seqs_setSeq found with ⟨_, rfl⟩ | ⟨different, before⟩
    · rcases Nat.lt_succ_iff_lt_or_eq.mp written with earlier | rfl
      · have fresh : block ≠ target := by
          rintro rfl
          have once := (intact.private_unique alone present (List.mem_of_getElem? page)).2
          exact earlier.ne (List.index_unique_of_count_eq_one once atPage page)
        obtain ⟨source, member, content, same⟩ := intact.filled seq q i block present earlier atPage
        exact ⟨source, member, (kept block fresh).trans content, same⟩
      · obtain rfl : target = block := Option.some.inj (page.symm.trans atPage)
        exact ⟨q.tokens, (intact.strings seq q present).1, Function.update_self _ _ _, rfl⟩
    · have fresh : block ≠ target := by
        rintro rfl
        exact different (intact.private_unique alone before (List.mem_of_getElem? atPage)).1
      obtain ⟨source, member, content, same⟩ := intact.filled other q' i block before written atPage
      exact ⟨source, member, (kept block fresh).trans content, same⟩
  · intro other q' i block found unwritten atPage
    rcases seqs_setSeq found with ⟨rfl, rfl⟩ | ⟨_, before⟩
    · exact intact.unfilled other q i block present (by simp only at unwritten; omega) atPage
    · exact intact.unfilled other q' i block before unwritten atPage
  · intro h block mapped
    obtain ⟨inside, source, member, i, content, hash⟩ := intact.index h block mapped
    have fresh : block ≠ target := by
      rintro rfl
      exact unmapped h mapped
    exact ⟨inside, source, member, i, (kept block fresh).trans content, hash⟩

/-- Fresh pages are private to their sequence; the guard says the index does not map them. -/
theorem step_alloc (intact : Intact used n s) {seq count : ℕ}
    (allowed : Allowed used s (.alloc seq count)) (unmapped : s.Unmapped (.alloc seq count)) :
    Intact used n (s.step (.alloc seq count)) := by
  obtain ⟨some_seq, room⟩ := allowed
  obtain ⟨q, present⟩ := Option.isSome_iff_exists.mp some_seq
  have enough : count ≤ s.shared.pool.available := room.trans (Nat.le_add_right _ _)
  obtain ⟨owned, _, nodup, fresh⟩ := intact.owned.allocLoop enough
  have taken : (BlockPool.allocLoop count s.shared.pool).1 = s.shared.pool.free.take count :=
    BlockPool.Owned.allocLoop_eq_take room
  have stepped : s.step (.alloc seq count) =
      { s with shared := ⟨(BlockPool.allocLoop count s.shared.pool).2,
          SharedPool.claims seq (BlockPool.allocLoop count s.shared.pool).1 + s.shared.refs⟩ }.setSeq
        seq { q with pages := q.pages ++ (BlockPool.allocLoop count s.shared.pool).1 } := by
    simp only [step, SharedPool.step, present, BlockPool.alloc, if_neg (not_lt.mpr enough)]
  rw [stepped]
  generalize BlockPool.allocLoop count s.shared.pool = result at owned nodup fresh taken ⊢
  obtain ⟨out, pool⟩ := result
  have newRefs : SharedPool.held ⟨pool, SharedPool.claims seq out + s.shared.refs⟩ = out + s.shared.held :=
    SharedPool.held_claims_add s.shared.pool pool seq out s.shared.refs
  refine ⟨intact.enabled, ?_, ?_, ?_, ?_, ?_, intact.index⟩
  · exact newRefs ▸ owned
  · intro other block
    change (SharedPool.claims seq out + s.shared.refs).count (other, block) = _
    rw [Multiset.count_add, count_claims, intact.mine, pagesOf_setSeq]
    split
    · next same =>
      rw [same, pagesOf, present, List.count_append, add_comm]
      rfl
    · exact Nat.zero_add _
  · intro other q' found
    rcases seqs_setSeq found with ⟨_, rfl⟩ | ⟨_, before⟩
    · have known := intact.strings seq q present
      exact ⟨known.1, known.2.trans (by simp)⟩
    · exact intact.strings other q' before
  · intro other q' i block found written atPage
    rcases seqs_setSeq found with ⟨_, rfl⟩ | ⟨_, before⟩
    · have inside : i < q.pages.length := lt_of_lt_of_le written (intact.strings seq q present).2
      rw [List.getElem?_append_left inside] at atPage
      exact intact.filled seq q i block present written atPage
    · exact intact.filled other q' i block before written atPage
  · intro other q' i block found unwritten atPage
    -- An older unfilled page is referenced, so it is none of the pages just handed out.
    have older : ∀ holder, s.Private holder block →
        (SharedPool.claims seq out + s.shared.refs).filter (fun ref => ref.2 = block) = {(holder, block)} :=
      fun holder alone => private_add_claims alone (fun again => (fresh block again).2 (private_held alone))
    rcases seqs_setSeq found with ⟨rfl, rfl⟩ | ⟨_, before⟩
    · rcases lt_or_ge i q.pages.length with inside | beyond
      · rw [List.getElem?_append_left inside] at atPage
        obtain ⟨alone, absent⟩ := intact.unfilled other q i block present unwritten atPage
        exact ⟨older other alone, absent⟩
      · rw [List.getElem?_append_right beyond] at atPage
        have member := List.mem_of_getElem? atPage
        refine ⟨?_, unmapped block (taken ▸ member)⟩
        have untouched : s.shared.refs.filter (fun ref => ref.2 = block) = 0 := by
          refine Multiset.filter_eq_nil.mpr ?_
          rintro ⟨holder, _⟩ held rfl
          exact (fresh _ member).2 (SharedPool.mem_held.mpr ⟨holder, held⟩)
        change (SharedPool.claims other out + s.shared.refs).filter _ = _
        rw [Multiset.filter_add, filter_claims, List.count_eq_one_of_mem nodup member, untouched, add_zero]
        rfl
    · obtain ⟨alone, absent⟩ := intact.unfilled other q' i block before unwritten atPage
      exact ⟨older other alone, absent⟩

/-- Publishing maps the hash of each leading block to a page filled with it. -/
theorem step_publish (intact : Intact used n s) {seq tokens count : ℕ}
    (allowed : Allowed used s (.publish seq tokens count)) :
    Intact used n (s.step (.publish seq tokens count)) := by
  obtain ⟨q, present, bound⟩ := allowed
  have entries := PrefixCache.insertAll_frame
    ((blockHashes (q.tokens.take tokens) s.cache.blockSize).zip (q.pages.take count)) s.cache
  have stepped : s.step (.publish seq tokens count) = { s with
      cache := ((blockHashes (q.tokens.take tokens) s.cache.blockSize).zip (q.pages.take count)).foldl
        PrefixCache.insertOne s.cache } := by
    simp only [step, present, PrefixCache.insert, if_pos intact.enabled]
  -- A published pair is the chain hash of block `i` of the sequence and its filled page `i`.
  have published : ∀ h block,
      (h, block) ∈ (blockHashes (q.tokens.take tokens) s.cache.blockSize).zip (q.pages.take count) →
      ∃ i < q.written, q.pages[i]? = some block ∧ (blockHashes q.tokens s.cache.blockSize)[i]? = some h := by
    intro h block member
    obtain ⟨i, found⟩ := List.mem_iff_getElem?.mp member
    obtain ⟨hash, page⟩ := List.getElem?_zip_eq_some.mp found
    rw [List.getElem?_take] at page
    split_ifs at page with inside
    refine ⟨i, lt_of_lt_of_le inside bound, page, ?_⟩
    refine blockHashes_congr hash ?_
    have complete := (blockHashes_getElem?.mp hash).1
    rw [List.length_take] at complete
    rw [firstBlocks, firstBlocks, List.take_take, min_eq_left (complete.trans (min_le_left _ _))]
  rw [stepped]
  refine ⟨entries.2.trans intact.enabled, intact.owned, intact.mine, intact.strings, ?_, ?_, ?_⟩
  · intro other q' i block found written atPage
    simpa only [entries.1] using intact.filled other q' i block found written atPage
  · intro other q' i block found unwritten atPage
    obtain ⟨alone, absent⟩ := intact.unfilled other q' i block found unwritten atPage
    refine ⟨alone, fun h mapped => ?_⟩
    rcases PrefixCache.insertAll_lookup mapped with before | member
    · exact absent h before
    · -- A private unfilled page is not one of the filled pages being published.
      obtain ⟨j, earlier, page, _⟩ := published h block member
      obtain ⟨rfl, once⟩ := intact.private_unique alone present (List.mem_of_getElem? page)
      obtain rfl : q = q' := Option.some.inj (present.symm.trans found)
      have := List.index_unique_of_count_eq_one once page atPage
      omega
  · intro h block mapped
    simp only [entries.1]
    rcases PrefixCache.insertAll_lookup mapped with before | member
    · exact intact.index h block before
    · obtain ⟨i, earlier, page, hash⟩ := published h block member
      obtain ⟨source, sourceUsed, content, same⟩ := intact.filled seq q i block present earlier page
      refine ⟨?_, source, sourceUsed, i, content, blockHashes_congr hash same⟩
      apply intact.owned.range
      refine SharedPool.mem_held.mpr ⟨seq, ?_⟩
      rw [← Multiset.count_pos, intact.mine, pagesOf, present]
      exact List.count_pos_iff.mpr (List.mem_of_getElem? page)

/-- Dropping pages from the back, to the free list or to the cache. -/
theorem step_drop (intact : Intact used n s) {seq keep : ℕ} {target : Reclaim}
    (allowed : Allowed used s (.drop seq keep target)) : Intact used n (s.step (.drop seq keep target)) := by
  obtain ⟨q, present⟩ := Option.isSome_iff_exists.mp allowed
  have mine := intact.claims_le present (List.drop_sublist keep q.pages)
  have dropped : s.shared.step (releaseTo target seq (q.pages.drop keep)) =
      ⟨(q.pages.drop keep).foldl (BlockPool.dropRef target) s.shared.pool,
        s.shared.refs - SharedPool.claims seq (q.pages.drop keep)⟩ := by
    cases target <;> rfl
  have stepped : s.step (.drop seq keep target) =
      { s with shared := s.shared.step (releaseTo target seq (q.pages.drop keep)) }.setSeq
        seq { q with pages := q.pages.take keep, written := min q.written keep } := by
    simp only [step, present]
  rw [stepped, dropped]
  obtain ⟨remaining, part⟩ := SharedPool.held_sub_claims s.shared.pool
    ((q.pages.drop keep).foldl (BlockPool.dropRef target) s.shared.pool) mine
  refine ⟨intact.enabled, ?_, ?_, ?_, ?_, ?_, intact.index⟩
  · exact remaining ▸ intact.owned.dropRefs target part
  · intro other block
    change (s.shared.refs - SharedPool.claims seq (q.pages.drop keep)).count (other, block) = _
    rw [Multiset.count_sub, count_claims, intact.mine, pagesOf_setSeq]
    split
    · next same =>
      have split := congrArg (List.count block) (List.take_append_drop keep q.pages)
      rw [List.count_append] at split
      rw [same, pagesOf, present]
      change q.pages.count block - (q.pages.drop keep).count block = (q.pages.take keep).count block
      omega
    · rfl
  · intro other q' found
    rcases seqs_setSeq found with ⟨_, rfl⟩ | ⟨_, before⟩
    · have known := intact.strings seq q present
      refine ⟨known.1, ?_⟩
      simp only [List.length_take]
      omega
    · exact intact.strings other q' before
  · intro other q' i block found written atPage
    rcases seqs_setSeq found with ⟨_, rfl⟩ | ⟨_, before⟩
    · simp only [List.getElem?_take] at atPage
      split_ifs at atPage
      exact intact.filled seq q i block present (lt_of_lt_of_le written (min_le_left _ _)) atPage
    · exact intact.filled other q' i block before written atPage
  · intro other q' i block found unwritten atPage
    -- A kept private page is not among the dropped ones, so its only reference stays.
    have kept : ∀ holder, s.Private holder block → block ∉ q.pages.drop keep →
        (s.shared.refs - SharedPool.claims seq (q.pages.drop keep)).filter (fun ref => ref.2 = block) =
          {(holder, block)} := by
      intro holder alone absent
      rw [Multiset.filter_sub, filter_claims, List.count_eq_zero.mpr absent, alone]
      exact tsub_zero _
    rcases seqs_setSeq found with ⟨rfl, rfl⟩ | ⟨different, before⟩
    · simp only [List.getElem?_take] at atPage
      split_ifs at atPage with inside
      simp only [inf_le_iff] at unwritten
      obtain ⟨alone, absent⟩ := intact.unfilled other q i block present (by omega) atPage
      refine ⟨kept other alone fun again => ?_, absent⟩
      obtain ⟨j, later⟩ := List.mem_iff_getElem?.mp again
      rw [List.getElem?_drop] at later
      have once := (intact.private_unique alone present (List.mem_of_getElem? atPage)).2
      have := List.index_unique_of_count_eq_one once atPage later
      omega
    · obtain ⟨alone, absent⟩ := intact.unfilled other q' i block before unwritten atPage
      refine ⟨kept other alone fun again => ?_, absent⟩
      exact different (intact.private_unique alone present (List.mem_of_mem_drop again)).1.symm

/-- Eviction followed by `forget` only removes index entries. -/
theorem step_evict (intact : Intact used n s) (count : ℕ) : Intact used n (s.step (.evict count)) := by
  obtain ⟨size, enabled, kept⟩ := PrefixCache.forget_frame (s.shared.pool.evictCached count).1 s.cache
  refine ⟨enabled.trans intact.enabled, intact.owned.evictCached count, intact.mine, intact.strings, ?_, ?_, ?_⟩
  · intro other q i block found written atPage
    simpa only [step, size] using intact.filled other q i block found written atPage
  · intro other q i block found unwritten atPage
    obtain ⟨alone, absent⟩ := intact.unfilled other q i block found unwritten atPage
    exact ⟨alone, fun h mapped => absent h (kept h block mapped)⟩
  · intro h block mapped
    simpa only [step, size] using intact.index h block (kept h block mapped)

end Intact

/-- One walk along the hash chain, from block `i` on: the blocks it adds are mapped by the index
and were filled with the blocks asked for, the index only loses entries, and the pool counts one
more reference for each block added. -/
theorem lookupLoop_spec {tokens : List TokenId} {writer : BlockId → Option (List TokenId × ℕ)} {blockSize : ℕ}
    (collision : NoCollision blockSize used) (asked : tokens ∈ used) (hashes : List BlockHash) (i : ℕ)
    (cache : PrefixCache) (pool : BlockPool) (found : PrefixMatch)
    (chain : ∀ k, hashes[k]? = (blockHashes tokens blockSize)[i + k]?)
    (index : ∀ h block, cache.byHash.lookup h = some block → block < n ∧ ∃ source ∈ used, ∃ j,
      writer block = some (source, j) ∧ (blockHashes source blockSize)[j]? = some h) :
    ∃ extra, (PrefixCache.lookupLoop hashes cache pool found).1.blocks = found.blocks ++ extra ∧
      (∀ h block, (PrefixCache.lookupLoop hashes cache pool found).2.1.byHash.lookup h = some block →
        cache.byHash.lookup h = some block) ∧
      (∀ k block, extra[k]? = some block → (∃ h, cache.byHash.lookup h = some block) ∧ ∃ source ∈ used,
        writer block = some (source, i + k) ∧
          firstBlocks blockSize (i + k + 1) source = firstBlocks blockSize (i + k + 1) tokens) ∧
      (∀ held, pool.Owned n held →
        (∀ block source j, writer block = some (source, j) → i ≤ j → held.count block + 1 < 2 ^ 32) →
        (PrefixCache.lookupLoop hashes cache pool found).2.2.Owned n (extra + held)) := by
  induction hashes generalizing i cache pool found with
  | nil =>
    exact ⟨[], (List.append_nil _).symm, fun _ _ kept => kept, by simp,
      fun held owned _ => by simpa [PrefixCache.lookupLoop] using owned⟩
  | cons h rest ih =>
    have here : (blockHashes tokens blockSize)[i]? = some h := by simpa using (chain 0).symm
    cases mapped : cache.byHash.lookup h with
    | none =>
      have missed : PrefixCache.lookupLoop (h :: rest) cache pool found =
          (found, { cache with misses := cache.misses + 1 }, pool) := by
        simp only [PrefixCache.lookupLoop, mapped]
      rw [missed]
      exact ⟨[], (List.append_nil _).symm, fun _ _ kept => kept, by simp,
        fun held owned _ => by simpa using owned⟩
    | some block =>
      obtain ⟨inside, source, sourceUsed, j, content, hash⟩ := index h block mapped
      have same := collision source sourceUsed tokens asked j i h hash here
      obtain rfl : j = i := position_eq here hash same
      cases hit : pool.reacquire block with
      | mk success after =>
        cases success with
        | false =>
          have unchanged := BlockPool.eq_of_reacquire_false hit
          refine ⟨[], by simp [PrefixCache.lookupLoop, mapped, hit], ?_, by simp, ?_⟩
          · intro other page kept
            simp only [PrefixCache.lookupLoop, mapped, hit] at kept
            exact AList.lookup_of_erase kept
          · intro held owned _
            simpa [PrefixCache.lookupLoop, mapped, hit, unchanged] using owned
        | true =>
          obtain ⟨extra, blocks, kept, right, owns⟩ := ih (j + 1)
            { cache with hits := cache.hits + 1 } after
            ⟨found.numTokens + cache.blockSize, found.blocks ++ [block]⟩
            (fun k => by simpa [Nat.add_assoc, Nat.add_comm 1 k] using chain (k + 1)) index
          have unfolded : PrefixCache.lookupLoop (h :: rest) cache pool found =
              PrefixCache.lookupLoop rest { cache with hits := cache.hits + 1 } after
                ⟨found.numTokens + cache.blockSize, found.blocks ++ [block]⟩ := by
            simp only [PrefixCache.lookupLoop, mapped, hit]
          rw [unfolded]
          refine ⟨block :: extra, by simp [blocks], kept, ?_, ?_⟩
          · intro k page atPage
            cases k with
            | zero =>
              obtain rfl : block = page := by simpa using atPage
              exact ⟨⟨h, mapped⟩, source, sourceUsed, content, same⟩
            | succ k =>
              have later := right k page (by simpa using atPage)
              rwa [Nat.add_right_comm, Nat.add_assoc j k 1] at later
          · intro held owned room
            obtain ⟨_, taken⟩ := owned.reacquire inside (room block source j content le_rfl)
            rw [hit] at taken
            have result := owns (block ::ₘ held) taken ?_
            · rwa [← Multiset.cons_coe, Multiset.cons_add, ← Multiset.add_cons]
            · intro other origin k written later
              have different : other ≠ block := by
                rintro rfl
                have := (Prod.mk.inj (Option.some.inj (written.symm.trans content))).2
                omega
              rw [Multiset.count_cons_of_ne different]
              exact room other origin k written (by omega)

namespace Intact

/-- Every lookup from an intact state returns the right pages. -/
theorem rightPages (intact : Intact used n s) (collision : NoCollision s.cache.blockSize used)
    {tokens : List TokenId} (asked : tokens ∈ used) : s.RightPages tokens := by
  intro i block found
  obtain ⟨extra, blocks, _, right, _⟩ := lookupLoop_spec collision asked
    (blockHashes tokens s.cache.blockSize) 0 s.cache s.shared.pool {} (by simp) intact.index
  rw [PrefixCache.lookup, if_pos intact.enabled, blocks] at found
  obtain ⟨_, source, _, content, same⟩ := right i block found
  rw [Nat.zero_add] at content same
  exact ⟨source, content, same⟩

/-- A hit hands the new sequence pages filled with its own leading blocks. -/
theorem step_lookup (intact : Intact used n s) (collision : NoCollision s.cache.blockSize used)
    {seq : ℕ} {tokens : List TokenId} (allowed : Allowed used s (.lookup seq tokens)) :
    Intact used n (s.step (.lookup seq tokens)) := by
  obtain ⟨absent, asked, room⟩ := allowed
  obtain ⟨extra, blocks, kept, right, owns⟩ := lookupLoop_spec collision asked
    (blockHashes tokens s.cache.blockSize) 0 s.cache s.shared.pool {} (by simp) intact.index
  obtain ⟨size, enabled⟩ := PrefixCache.lookupLoop_frame
    (blockHashes tokens s.cache.blockSize) s.cache s.shared.pool {}
  simp only [step, PrefixCache.lookup, if_pos intact.enabled]
  generalize PrefixCache.lookupLoop (blockHashes tokens s.cache.blockSize) s.cache s.shared.pool {} = result
    at blocks size enabled kept owns ⊢
  obtain ⟨found, cache, pool⟩ := result
  obtain rfl : found.blocks = extra := by simpa using blocks
  replace size : cache.blockSize = s.cache.blockSize := size
  have newRefs : SharedPool.held ⟨pool, SharedPool.claims seq found.blocks + s.shared.refs⟩ =
      found.blocks + s.shared.held :=
    SharedPool.held_claims_add s.shared.pool pool seq found.blocks s.shared.refs
  have owned := owns s.shared.held intact.owned (fun block _ _ _ _ => room block)
  refine ⟨enabled.trans intact.enabled, newRefs ▸ owned, ?_, ?_, ?_, ?_, ?_⟩
  · intro other block
    change (SharedPool.claims seq found.blocks + s.shared.refs).count (other, block) = _
    rw [Multiset.count_add, count_claims, intact.mine, pagesOf_setSeq]
    split
    · next same =>
      rw [same, pagesOf, absent]
      exact Nat.add_zero _
    · exact Nat.zero_add _
  · intro other q present
    rcases seqs_setSeq present with ⟨_, rfl⟩ | ⟨_, before⟩
    · exact ⟨asked, le_rfl⟩
    · exact intact.strings other q before
  · intro other q i block present written atPage
    simp only [setSeq, size]
    rcases seqs_setSeq present with ⟨_, rfl⟩ | ⟨_, before⟩
    · obtain ⟨_, source, sourceUsed, content, same⟩ := right i block atPage
      rw [Nat.zero_add] at content same
      exact ⟨source, sourceUsed, content, same⟩
    · exact intact.filled other q i block before written atPage
  · intro other q i block present unwritten atPage
    rcases seqs_setSeq present with ⟨_, rfl⟩ | ⟨_, before⟩
    · have inside := (List.getElem?_eq_some_iff.mp atPage).1
      exact (Nat.not_lt.mpr unwritten inside).elim
    · obtain ⟨alone, unmapped⟩ := intact.unfilled other q i block before unwritten atPage
      refine ⟨private_add_claims alone fun again => ?_, fun h mapped => unmapped h (kept h block mapped)⟩
      obtain ⟨k, hit⟩ := List.mem_iff_getElem?.mp again
      obtain ⟨⟨h, mapped⟩, _⟩ := right k block hit
      exact unmapped h mapped
  · intro h block mapped
    simpa only [setSeq, size] using intact.index h block (kept h block mapped)

end Intact

/-- Every step that allocates no mapped page keeps the invariant. -/
theorem intact_step (collision : NoCollision s.cache.blockSize used) (intact : Intact used n s) {op : CacheOp}
    (allowed : Allowed used s op) (unmapped : s.Unmapped op) : Intact used n (s.step op) := by
  cases op with
  | start seq tokens => exact intact.step_start allowed
  | lookup seq tokens => exact intact.step_lookup collision allowed
  | alloc seq count => exact intact.step_alloc allowed unmapped
  | fill seq => exact intact.step_fill allowed
  | publish seq tokens count => exact intact.step_publish allowed
  | drop seq keep target => exact intact.step_drop allowed
  | evict count => exact intact.step_evict count

/-- No step changes the block size of the index. -/
theorem step_blockSize (s : PagedCache) (op : CacheOp) : (s.step op).cache.blockSize = s.cache.blockSize := by
  cases op with
  | start seq tokens => rfl
  | lookup seq tokens =>
    simp only [step, PrefixCache.lookup]
    split
    · exact (PrefixCache.lookupLoop_frame _ _ _ _).1
    · rfl
  | alloc seq count => simp only [step]; split <;> rfl
  | fill seq =>
    simp only [step]
    split
    · split <;> rfl
    · rfl
  | publish seq tokens count =>
    simp only [step]
    split
    · simp only [PrefixCache.insert]
      split
      · exact (PrefixCache.insertAll_frame _ _).1
      · rfl
    · rfl
  | drop seq keep target => simp only [step]; split <;> rfl
  | evict count => exact (PrefixCache.forget_frame _ _).1

/-- In every run that never allocates a page the index still maps, each hit is the right page. -/
theorem hits_are_right_pages (n blockSize : ℕ) (watermark : ℚ) (used : Set (List TokenId))
    (collision : NoCollision blockSize used) (ops : List CacheOp) (s : PagedCache)
    (run : Machine.Run ((system n blockSize watermark used).restrict Unmapped) ops s)
    (tokens : List TokenId) (asked : tokens ∈ used) : s.RightPages tokens := by
  have invariant : Intact used n s ∧ s.cache.blockSize = blockSize := by
    refine run.invariant (P := fun s => Intact used n s ∧ s.cache.blockSize = blockSize) ?_ ?_
    · rintro s rfl
      exact ⟨intact_new n blockSize watermark, rfl⟩
    · rintro s op t ⟨intact, size⟩ ⟨unmapped, allowed, rfl⟩
      exact ⟨intact_step (size ▸ collision) intact allowed unmapped, (s.step_blockSize op).trans size⟩
  exact invariant.1.rightPages (invariant.2 ▸ collision) asked

private theorem noCollision_pair : NoCollision 1 {[1], [2]} := by
  have one : blockHashes [1] 1 = [9929646806074584996#64] := by decide +kernel
  have two : blockHashes [2] 1 = [16626593026977353223#64] := by decide +kernel
  have position : ∀ {x h : BlockHash} {i : ℕ}, [x][i]? = some h → i = 0 ∧ x = h := by
    intro x h i found
    cases i with
    | zero => exact ⟨rfl, by simpa using found⟩
    | succ i => simp at found
  rintro a (rfl | rfl) b (rfl | rfl) i j h first second
  all_goals
    simp only [one, two] at first second
    obtain ⟨rfl, left⟩ := position first
    obtain ⟨rfl, right⟩ := position second
  · rfl
  · exact absurd (left.trans right.symm) (by decide)
  · exact absurd (left.trans right.symm) (by decide)
  · rfl

/-- A published page is dropped to the cache and hit by a second sequence. -/
theorem hits_are_right_pages_cached :
    (([.start 0 [1], .alloc 0 1, .fill 0, .publish 0 1 1, .drop 0 0 .cache] :
      List CacheOp).foldl step (new 1 1 0)).RightPages [1] := by
  have start : Machine.Run ((system 1 1 0 {[1], [2]}).restrict Unmapped) [] (new 1 1 0) := .start rfl
  have started := start.applyGuarded (.start 0 [1]) trivial ⟨rfl, .inl rfl⟩
  have allocated := started.applyGuarded (.alloc 0 1) (by intro _ _ _ mapped; exact nomatch mapped)
    ⟨rfl, by decide⟩
  have filled := allocated.applyGuarded (.fill 0) trivial ⟨_, rfl, by decide⟩
  have published := filled.applyGuarded (.publish 0 1 1) trivial ⟨_, rfl, by decide⟩
  have cached := published.applyGuarded (.drop 0 0 .cache) trivial rfl
  exact hits_are_right_pages 1 1 0 {[1], [2]} noCollision_pair _ _ cached [1] (.inl rfl)

/-- The page a sequence published and released is allocated and filled again, and the index still
answers with it. -/
theorem reallocated_page_is_a_wrong_hit :
    ∃ ops s, Machine.Run (system 1 1 0 {[1], [2]}) ops s ∧ NoCollision 1 {[1], [2]} ∧ ¬ s.RightPages [1] := by
  have start : Machine.Run (system 1 1 0 {[1], [2]}) [] (new 1 1 0) := .start rfl
  have first := start.apply (.start 0 [1]) ⟨rfl, .inl rfl⟩
  have allocated := first.apply (.alloc 0 1) ⟨rfl, by decide⟩
  have filled := allocated.apply (.fill 0) ⟨_, rfl, by decide⟩
  have published := filled.apply (.publish 0 1 1) ⟨_, rfl, by decide⟩
  have released := published.apply (.drop 0 0 .free) rfl
  have second := released.apply (.start 1 [2]) ⟨rfl, .inr rfl⟩
  have again := second.apply (.alloc 1 1) ⟨rfl, by decide⟩
  have overwritten := again.apply (.fill 1) ⟨_, rfl, by decide⟩
  refine ⟨_, _, overwritten, noCollision_pair, fun right => ?_⟩
  obtain ⟨source, content, same⟩ := right 0 0 (by decide +kernel)
  obtain rfl : [2] = source := (Prod.mk.inj (Option.some.inj content)).1
  exact absurd same (by decide)

end PagedCache

end TrtLlm.KvCache
