import TrtLlm.Machine.Path
import TrtLlm.Soundness.PrefixPages
import TrtLlm.ToMathlib.AListInverse

/-! # The two indexes of the prefix cache

`by_hash` and `by_block` undo each other as long as no page is published while it stands under another hash. Then
forgetting a page is complete: no lookup returns it before it is published again. Publishing a page under a second
hash leaves the entry of the first one behind, and forgetting the page does not find it.
-/

namespace TrtLlm.KvCache

open Machine

namespace PrefixCache

variable {cache : PrefixCache}

/-- The indexes undo each other. -/
def Inverse (cache : PrefixCache) : Prop := AList.Inverse cache.byHash cache.byBlock

/-- Publishing this entry moves a page from one hash to another. -/
def Republishes (cache : PrefixCache) (entry : BlockHash × BlockId) : Prop :=
  ∃ h, cache.byBlock.lookup entry.2 = some h ∧ h ≠ entry.1

/-- The entries a call of `insert` publishes. -/
def published (blockSize : ℕ) (tokens : List TokenId) (blocks : List BlockId) : List (BlockHash × BlockId) :=
  (blockHashes tokens blockSize).zip blocks

theorem insertOne_byBlock (entry : BlockHash × BlockId) :
    (cache.insertOne entry).byBlock =
      (AList.dropPrevious cache.byHash cache.byBlock entry.1 entry.2).insert entry.2 entry.1 := by
  unfold PrefixCache.insertOne AList.dropPrevious
  cases cache.byHash.lookup entry.1 <;> rfl

/-- Publishing one entry keeps the indexes inverse exactly when it moves no page. -/
theorem Inverse.insertOne_iff (inverse : cache.Inverse) (entry : BlockHash × BlockId) :
    (cache.insertOne entry).Inverse ↔ ¬cache.Republishes entry := by
  have step := AList.Inverse.insert_iff inverse (a := entry.1) (b := entry.2)
  rw [Inverse, insertOne_byBlock]
  refine step.trans ?_
  simp only [Republishes, not_exists, not_and, not_not]

theorem Inverse.insertAll {entries : List (BlockHash × BlockId)} (inverse : cache.Inverse)
    (settled : ∀ before entry after, entries = before ++ entry :: after →
      ¬(before.foldl insertOne cache).Republishes entry) :
    (entries.foldl insertOne cache).Inverse := by
  induction entries generalizing cache with
  | nil => exact inverse
  | cons entry entries ih =>
    have first := (inverse.insertOne_iff entry).mpr (settled [] entry entries rfl)
    exact ih first fun before other after split => settled (entry :: before) other after (congrArg _ split)

theorem Inverse.forgetOne (inverse : cache.Inverse) (block : BlockId) :
    (cache.forgetOne block).Inverse ∧ ∀ h, (cache.forgetOne block).byHash.lookup h ≠ some block := by
  unfold PrefixCache.forgetOne
  cases found : cache.byBlock.lookup block with
  | none =>
    refine ⟨inverse, fun h bound => ?_⟩
    rw [(inverse _ _).mp bound] at found
    cases found
  | some h =>
    have bound := (inverse h block).mpr found
    have after : AList.Inverse (cache.byHash.erase h) (cache.byBlock.erase block) := inverse.erase bound
    refine ⟨after, fun other still => ?_⟩
    have gone := (after other block).mp still
    rw [AList.lookup_erase] at gone
    cases gone

/-! ### Pages without an entry -/

/-- No hash leads to the page. -/
def Unlisted (cache : PrefixCache) (block : BlockId) : Prop := ∀ h, cache.byHash.lookup h ≠ some block

theorem Inverse.forget (inverse : cache.Inverse) (blocks : List BlockId) :
    (cache.forget blocks).Inverse ∧ ∀ block ∈ blocks, (cache.forget blocks).Unlisted block := by
  induction blocks generalizing cache with
  | nil => exact ⟨inverse, fun _ member => nomatch member⟩
  | cons first blocks ih =>
    obtain ⟨next, unlisted⟩ := inverse.forgetOne first
    obtain ⟨final, rest⟩ := ih next
    refine ⟨final, fun block member => ?_⟩
    rcases List.mem_cons.mp member with rfl | later
    · exact fun h bound => unlisted h ((forget_frame blocks _).2.2 h block bound)
    · exact rest block later

/-- The loop of `lookup` only drops an entry, on both sides, and returns pages that a hash leads to. -/
theorem lookupLoop_index (hashes : List BlockHash) (cache : PrefixCache) (pool : BlockPool) (found : PrefixMatch) :
    (cache.Inverse → (lookupLoop hashes cache pool found).2.1.Inverse) ∧
      ∀ block, cache.Unlisted block → (lookupLoop hashes cache pool found).2.1.Unlisted block ∧
        (block ∈ (lookupLoop hashes cache pool found).1.blocks → block ∈ found.blocks) := by
  induction hashes generalizing cache pool found with
  | nil => exact ⟨id, fun _ unlisted => ⟨unlisted, id⟩⟩
  | cons h rest ih =>
    rw [lookupLoop]
    cases listed : cache.byHash.lookup h with
    | none => exact ⟨id, fun _ unlisted => ⟨unlisted, id⟩⟩
    | some page =>
      simp only
      split
      next pool' _ =>
        obtain ⟨inverse, pages⟩ := ih { cache with hits := cache.hits + 1 } pool'
          ⟨found.numTokens + cache.blockSize, found.blocks ++ [page]⟩
        refine ⟨inverse, fun block unlisted => ?_⟩
        obtain ⟨still, returned⟩ := pages block unlisted
        refine ⟨still, fun member => ?_⟩
        rcases List.mem_append.mp (returned member) with before | last
        · exact before
        · rw [List.mem_singleton.mp last] at unlisted
          exact absurd listed (unlisted h)
      next =>
        refine ⟨fun inverse => AList.Inverse.erase inverse listed, fun block unlisted => ⟨fun other bound => ?_, id⟩⟩
        exact unlisted other (AList.lookup_of_erase bound)

theorem lookup_index (cache : PrefixCache) (tokens : List TokenId) (pool : BlockPool) :
    (cache.Inverse → (cache.lookup tokens pool).2.1.Inverse) ∧
      ∀ block, cache.Unlisted block → (cache.lookup tokens pool).2.1.Unlisted block ∧
        block ∉ (cache.lookup tokens pool).1.blocks := by
  unfold lookup
  split
  · obtain ⟨inverse, pages⟩ := lookupLoop_index (blockHashes tokens cache.blockSize) cache pool {}
    refine ⟨inverse, fun block unlisted => ?_⟩
    obtain ⟨still, returned⟩ := pages block unlisted
    exact ⟨still, fun member => nomatch returned member⟩
  · exact ⟨id, fun _ unlisted => ⟨unlisted, fun member => nomatch member⟩⟩

/-! ### Runs -/

/-- The calls made on the cache; a lookup finds the pool in whatever state it is. -/
inductive IndexOp where
  | insert (tokens : List TokenId) (blocks : List BlockId)
  | lookup (tokens : List TokenId) (pool : BlockPool)
  | forget (blocks : List BlockId)

def apply (cache : PrefixCache) : IndexOp → PrefixCache
  | .insert tokens blocks => cache.insert tokens blocks
  | .lookup tokens pool => (cache.lookup tokens pool).2.1
  | .forget blocks => cache.forget blocks

/-- An enabled cache under any calls. -/
def indexSystem (blockSize : ℕ) : System PrefixCache IndexOp :=
  .ofFun (· = new blockSize true) (fun _ _ => True) apply

/-- The call publishes no page that stands under another hash at that moment. -/
def Settled (cache : PrefixCache) : IndexOp → Prop
  | .insert tokens blocks => ∀ before entry after, published cache.blockSize tokens blocks = before ++ entry :: after →
      ¬(before.foldl insertOne cache).Republishes entry
  | .lookup _ _ => True
  | .forget _ => True

/-- The call publishes the page. -/
def Publishes (blockSize : ℕ) (block : BlockId) : IndexOp → Prop
  | .insert tokens blocks => ∃ h, (h, block) ∈ published blockSize tokens blocks
  | .lookup _ _ => False
  | .forget _ => False

theorem Inverse.apply (inverse : cache.Inverse) {op : IndexOp} (settled : cache.Settled op) :
    (cache.apply op).Inverse := by
  cases op with
  | insert tokens blocks =>
    rw [PrefixCache.apply, insert]
    split
    · exact inverse.insertAll settled
    · exact inverse
  | lookup tokens pool => exact (cache.lookup_index tokens pool).1 inverse
  | forget blocks => exact (inverse.forget blocks).1

theorem apply_blockSize (cache : PrefixCache) (op : IndexOp) : (cache.apply op).blockSize = cache.blockSize := by
  cases op with
  | insert tokens blocks =>
    rw [PrefixCache.apply, insert]
    split
    · exact (insertAll_frame _ cache).1
    · rfl
  | lookup tokens pool =>
    rw [PrefixCache.apply, lookup]
    split
    · exact (lookupLoop_frame _ cache pool {}).1
    · rfl
  | forget blocks => exact (forget_frame blocks cache).1

theorem Unlisted.apply {block : BlockId} (unlisted : cache.Unlisted block) {op : IndexOp}
    (other : ¬Publishes cache.blockSize block op) : (cache.apply op).Unlisted block := by
  cases op with
  | insert tokens blocks =>
    rw [PrefixCache.apply, insert]
    split
    · intro h bound
      rcases insertAll_lookup bound with before | entry
      · exact unlisted h before
      · exact other ⟨h, entry⟩
    · exact unlisted
  | lookup tokens pool => exact ((cache.lookup_index tokens pool).2 block unlisted).1
  | forget blocks => exact fun h bound => unlisted h ((forget_frame blocks cache).2.2 h block bound)

/-- The cache after a list of calls. -/
def after (cache : PrefixCache) (ops : List IndexOp) : PrefixCache := ops.foldl apply cache

theorem Unlisted.after {block : BlockId} {ops : List IndexOp} (unlisted : cache.Unlisted block)
    (others : ∀ op ∈ ops, ¬Publishes cache.blockSize block op) : (cache.after ops).Unlisted block := by
  induction ops generalizing cache with
  | nil => exact unlisted
  | cons op ops ih =>
    refine ih (unlisted.apply (others op (.head _))) fun later member => ?_
    rw [apply_blockSize]
    exact others later (.tail _ member)

/-- In every run whose calls never move a page to another hash, the two indexes undo each other, and a page that is
forgotten is returned by no lookup until a later call publishes it. -/
theorem forgetting_is_complete (blockSize : ℕ) {ops : List IndexOp} {cache : PrefixCache}
    (run : Run ((indexSystem blockSize).restrict Settled) ops cache) :
    (∀ h block, cache.byHash.lookup h = some block ↔ cache.byBlock.lookup block = some h) ∧
      ∀ (blocks : List BlockId), ∀ block ∈ blocks, ∀ later : List IndexOp,
        (∀ op ∈ later, ¬Publishes blockSize block op) → ∀ tokens pool,
          block ∉ (((cache.forget blocks).after later).lookup tokens pool).1.blocks := by
  have sound : cache.Inverse ∧ cache.blockSize = blockSize := run.invariant
    (P := fun cache => cache.Inverse ∧ cache.blockSize = blockSize)
    (fun s first => by
      rw [show s = new blockSize true from first]
      exact ⟨AList.inverse_empty, rfl⟩)
    (fun s op t before taken => by
      rw [taken.2.2]
      exact ⟨before.1.apply taken.1, (s.apply_blockSize op).trans before.2⟩)
  refine ⟨sound.1, fun blocks block member later others tokens pool => ?_⟩
  have unlisted := (sound.1.forget blocks).2 block member
  have size : (cache.forget blocks).blockSize = blockSize := (cache.apply_blockSize (.forget blocks)).trans sound.2
  have still : ((cache.forget blocks).after later).Unlisted block :=
    unlisted.after fun op within => size ▸ others op within
  exact ((((cache.forget blocks).after later).lookup_index tokens pool).2 block still).2

/-- A page that was published and then forgotten. -/
theorem forgotten_page_is_not_returned :
    2 ∉ ((((new 1 true).insert [7] [2]).forget [2]).lookup [7] (BlockPool.new 4 1 0)).1.blocks := by
  have start : Run ((indexSystem 1).restrict Settled) [] (new 1 true) := .start rfl
  have settled : (new 1 true).Settled (.insert [7] [2]) := by
    rintro before entry after split ⟨h, listed, -⟩
    cases before with
    | nil => cases listed
    | cons first before =>
      have size := congrArg List.length split
      simp [published, blockHashes, hashChain, new] at size
  have first := start.applyGuarded (.insert [7] [2]) settled trivial
  exact (forgetting_is_complete 1 first).2 [2] 2 (.head _) [] (fun _ member => absurd member List.not_mem_nil) [7] _

/-- A pool of four pages, all handed out. -/
def heldPool : BlockPool := ((BlockPool.new 4 1 0).alloc 4).2

/-- Page 1 is published for one prompt and then for another; forgetting it leaves the first entry, and a lookup of
the first prompt returns it. -/
theorem republished_page_is_served :
    ¬∀ (blockSize : ℕ) (ops : List IndexOp) (cache : PrefixCache), Run (indexSystem blockSize) ops cache →
      (∀ h block, cache.byHash.lookup h = some block ↔ cache.byBlock.lookup block = some h) ∧
        ∀ (blocks : List BlockId), ∀ block ∈ blocks, ∀ tokens pool,
          block ∉ ((cache.forget blocks).lookup tokens pool).1.blocks := by
  intro always
  have start : Run (indexSystem 1) [] (new 1 true) := .start rfl
  have run := (start.apply (.insert [7] [1]) trivial).apply (.insert [8] [1]) trivial
  exact (always 1 _ _ run).2 [1] 1 (.head _) [7] heldPool (by decide +kernel)

end PrefixCache

end TrtLlm.KvCache
