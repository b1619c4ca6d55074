import Mathlib.Algebra.Order.Group.Multiset
import Mathlib.Data.Multiset.MapFold
import TrtLlm.Machine.Path
import TrtLlm.Model.KvCache.Pool

/-! # Page ownership in the block pool

The abstract pool is a multiset of references. `Owned` ties the concrete pool to it: the counters
are the multiplicities, and the free stack and the cached queue together list every page nobody
references, once. Each operation is shown to act on the multiset as its name says; the holders'
discipline (release what you hold, share what is held, stay below `2 ^ 32` references) is exactly
what the proofs need. The run theorem lifts this to any number of holders and any interleaving.
-/

namespace TrtLlm.KvCache

/-- The pool counts exactly the references in `held`, and lists every other page once. -/
structure BlockPool.Owned (n : ℕ) (pool : BlockPool) (held : Multiset BlockId) : Prop where
  size : pool.refcount.length = n
  counts : ∀ block < n, pool.refs block = held.count block
  range : ∀ block ∈ held, block < n
  nodup : (pool.free ++ pool.cached).Nodup
  idle : ∀ block, block ∈ pool.free ++ pool.cached ↔ block < n ∧ block ∉ held

namespace BlockPool

variable {n : ℕ} {pool : BlockPool} {held : Multiset BlockId}

theorem refs_setRefs (pool : BlockPool) {block : BlockId} (inside : block < pool.refcount.length)
    (count : ℕ) (other : BlockId) :
    (pool.setRefs block count).refs other = if other = block then count else pool.refs other := by
  by_cases same : other = block
  · subst other
    simp [refs, setRefs, List.getD_eq_getElem?_getD, inside]
  · simp [refs, setRefs, List.getD_eq_getElem?_getD, same, Ne.symm same]

@[simp] theorem setRefs_cached (pool : BlockPool) (block count : ℕ) :
    (pool.setRefs block count).cached = pool.cached := rfl

@[simp] theorem setRefs_free (pool : BlockPool) (block count : ℕ) :
    (pool.setRefs block count).free = pool.free := rfl

theorem owned_new (n blockSize : ℕ) (watermark : ℚ) : Owned n (new n blockSize watermark) 0 where
  size := by simp [new]
  counts block inside := by simp [new, refs, List.getD_eq_getElem?_getD, inside]
  range := by simp
  nodup := by simpa [new] using List.nodup_range
  idle := by simp [new]

namespace Owned

/-- A page is referenced exactly when its counter is positive. -/
theorem refs_pos (owned : Owned n pool held) {block : BlockId} (inside : block < n) :
    0 < pool.refs block ↔ block ∈ held := by
  rw [owned.counts block inside, Multiset.count_pos]

theorem notMem_of_idle (owned : Owned n pool held) {block : BlockId}
    (idle : block ∈ pool.free ++ pool.cached) : block ∉ held := ((owned.idle block).mp idle).2

/-- Rewriting one counter and moving pages between the two lists changes the owned multiset as
long as the listed pages stay exactly the unreferenced ones. -/
theorem update (owned : Owned n pool held) {block : BlockId} (inside : block < n) {count : ℕ}
    {free cached : List BlockId} {after : Multiset BlockId}
    (counted : after.count block = count) (others : ∀ other, other ≠ block → after.count other = held.count other)
    (nodup : (free ++ cached).Nodup)
    (idle : ∀ other, other ∈ free ++ cached ↔ other < n ∧ other ∉ after) :
    Owned n ({ pool with free, cached }.setRefs block count) after where
  size := by simp [setRefs, owned.size]
  counts other bound := by
    rw [refs_setRefs _ (by simpa [owned.size] using inside)]
    split
    · next same => rw [same, counted]
    · next different => exact (owned.counts other bound).trans (others other different).symm
  range other member := by
    by_cases same : other = block
    · exact same ▸ inside
    · apply owned.range
      rw [← Multiset.count_pos, ← others other same]
      exact Multiset.count_pos.mpr member
  nodup := nodup
  idle := idle

/-- Handing out an idle page moves it from the lists to its new holder. -/
theorem take (owned : Owned n pool held) {block : BlockId} {free cached : List BlockId}
    (split : (pool.free ++ pool.cached).Perm (block :: (free ++ cached))) :
    Owned n ({ pool with free, cached }.setRefs block 1) (block ::ₘ held) := by
  have listed : block ∈ pool.free ++ pool.cached := split.mem_iff.mpr List.mem_cons_self
  have unheld := owned.notMem_of_idle listed
  have distinct := List.nodup_cons.mp (split.nodup_iff.mp owned.nodup)
  refine owned.update ((owned.idle block).mp listed).1 ?_ ?_ distinct.2 ?_
  · rw [Multiset.count_cons_self, Multiset.count_eq_zero.mpr unheld]
  · intro other different
    exact Multiset.count_cons_of_ne different held
  · intro other
    have before := owned.idle other
    rw [split.mem_iff, List.mem_cons] at before
    rw [Multiset.mem_cons]
    constructor
    · intro member
      obtain ⟨bound, absent⟩ := before.mp (.inr member)
      refine ⟨bound, ?_⟩
      rintro (rfl | again)
      · exact distinct.1 member
      · exact absent again
    · rintro ⟨bound, absent⟩
      rcases before.mpr ⟨bound, fun again => absent (.inr again)⟩ with same | member
      · exact (absent (.inl same)).elim
      · exact member

/-- `alloc`'s loop returns as many pages as asked, distinct and unreferenced before. -/
theorem allocLoop (owned : Owned n pool held) {k : ℕ} (enough : k ≤ pool.available) :
    Owned n (allocLoop k pool).2 ((allocLoop k pool).1 + held) ∧
      (allocLoop k pool).1.length = k ∧ (allocLoop k pool).1.Nodup ∧
      ∀ block ∈ (allocLoop k pool).1, block < n ∧ block ∉ held := by
  induction k generalizing pool held with
  | zero => exact ⟨by simpa [BlockPool.allocLoop] using owned, rfl, List.nodup_nil, by simp [BlockPool.allocLoop]⟩
  | succ k ih =>
    -- Both branches hand out one idle page and recurse on the rest of the two lists.
    have step : ∀ (block : BlockId) (free cached : List BlockId),
        (pool.free ++ pool.cached).Perm (block :: (free ++ cached)) →
        BlockPool.allocLoop (k + 1) pool =
          (block :: (BlockPool.allocLoop k ({ pool with free, cached }.setRefs block 1)).1,
            (BlockPool.allocLoop k ({ pool with free, cached }.setRefs block 1)).2) →
        Owned n (BlockPool.allocLoop (k + 1) pool).2 ((BlockPool.allocLoop (k + 1) pool).1 + held) ∧
          (BlockPool.allocLoop (k + 1) pool).1.length = k + 1 ∧ (BlockPool.allocLoop (k + 1) pool).1.Nodup ∧
          ∀ block ∈ (BlockPool.allocLoop (k + 1) pool).1, block < n ∧ block ∉ held := by
      intro block free cached split unfolded
      have room : k ≤ ({ pool with free, cached }.setRefs block 1).available := by
        have lengths := split.length_eq
        simp only [available, setRefs_free, setRefs_cached, List.length_append, List.length_cons] at enough lengths ⊢
        omega
      obtain ⟨next, length, nodup, fresh⟩ := ih (owned.take split) room
      have listed : block ∈ pool.free ++ pool.cached := split.mem_iff.mpr List.mem_cons_self
      rw [unfolded]
      refine ⟨?_, by simp [length], ?_, ?_⟩
      · simpa only [← Multiset.cons_coe, Multiset.cons_add, Multiset.add_cons] using next
      · refine List.nodup_cons.mpr ⟨fun again => ?_, nodup⟩
        exact (fresh block again).2 (Multiset.mem_cons_self block held)
      · intro other member
        rcases List.mem_cons.mp member with rfl | member
        · exact (owned.idle other).mp listed
        · exact ⟨(fresh other member).1, fun again => (fresh other member).2 (Multiset.mem_cons_of_mem again)⟩
    rcases pool with ⟨blockSize, refcount, free, cached, watermark⟩
    cases free with
    | cons block free => exact step block free cached (.refl _) rfl
    | nil =>
      cases cached with
      | cons block cached => exact step block [] cached (.refl _) rfl
      | nil => simp [available] at enough

/-- While the free stack lasts, `alloc` takes its top. -/
theorem allocLoop_eq_take {k : ℕ} {pool : BlockPool} (enough : k ≤ pool.free.length) :
    (BlockPool.allocLoop k pool).1 = pool.free.take k := by
  induction k generalizing pool with
  | zero => rfl
  | succ k ih =>
    rcases pool with ⟨blockSize, refcount, free, cached, watermark⟩
    cases free with
    | nil => simp at enough
    | cons block free =>
      have rest : (BlockPool.allocLoop k
          (({ blockSize, refcount, free, cached, watermark } : BlockPool).setRefs block 1)).1 = free.take k :=
        ih (by simpa using enough)
      simpa only [BlockPool.allocLoop, List.take_succ_cons] using congrArg (block :: ·) rest

/-- Adding a reference to a page somebody holds. -/
theorem addRef (owned : Owned n pool held) {block : BlockId} (shared : block ∈ held)
    (room : held.count block + 1 < 2 ^ 32) : Owned n (pool.addRef block) (block ::ₘ held) := by
  have inside := owned.range block shared
  refine owned.update inside ?_ (fun other different => Multiset.count_cons_of_ne different held) owned.nodup ?_
  · rw [owned.counts block inside, Nat.mod_eq_of_lt room, Multiset.count_cons_self]
  · intro other
    rw [owned.idle other, Multiset.mem_cons]
    exact and_congr_right fun _ => not_congr ⟨.inr, fun either => either.elim (· ▸ shared) id⟩

/-- Dropping a held reference; the page goes back to a list exactly when it was the last one. -/
theorem dropRef (owned : Owned n pool held) (target : Reclaim) {block : BlockId} (mine : block ∈ held) :
    Owned n (dropRef target pool block) (held.erase block) := by
  have inside := owned.range block mine
  have counted : (held.erase block).count block = pool.refs block - 1 := by
    rw [Multiset.count_erase_self, owned.counts block inside]
  have others : ∀ other, other ≠ block → (held.erase block).count other = held.count other :=
    fun other different => Multiset.count_erase_of_ne different held
  unfold BlockPool.dropRef
  by_cases last : pool.refs block - 1 = 0
  · have gone : block ∉ held.erase block := by
      rw [← Multiset.count_eq_zero, counted, last]
    have unlisted : block ∉ pool.free ++ pool.cached := fun listed => owned.notMem_of_idle listed mine
    have idle : ∀ other, other = block ∨ other ∈ pool.free ++ pool.cached ↔
        other < n ∧ other ∉ held.erase block := by
      intro other
      by_cases same : other = block
      · subst other
        simp [inside, gone]
      · rw [Multiset.mem_erase_of_ne same, ← owned.idle other]
        simp [same]
    rw [if_pos last]
    cases target with
    | free =>
      change Owned n ({ pool with free := block :: pool.free }.setRefs block _) _
      refine owned.update inside counted others ?_ ?_
      · exact List.nodup_cons.mpr ⟨unlisted, owned.nodup⟩
      · intro other
        rw [← idle other, List.cons_append, List.mem_cons]
    | cache =>
      change Owned n ({ pool with cached := pool.cached ++ [block] }.setRefs block _) _
      refine owned.update inside counted others ?_ ?_
      · rw [← List.append_assoc]
        exact List.nodup_append.mpr ⟨owned.nodup, List.nodup_singleton _, by
          intro other listed last member
          rw [List.mem_singleton.mp member]
          rintro rfl
          exact unlisted listed⟩
      · intro other
        rw [← idle other, ← List.append_assoc, List.mem_append, List.mem_singleton, or_comm]
  · rw [if_neg last]
    refine owned.update inside counted others owned.nodup ?_
    intro other
    rw [owned.idle other]
    refine and_congr_right fun _ => not_congr ?_
    by_cases same : other = block
    · subst other
      refine iff_of_true mine ?_
      rw [← Multiset.count_pos, counted]
      omega
    · rw [Multiset.mem_erase_of_ne same]

/-- Dropping a list of held references, to either place. -/
theorem dropRefs (owned : Owned n pool held) (target : Reclaim) {blocks : List BlockId}
    (mine : (blocks : Multiset BlockId) ≤ held) :
    Owned n (blocks.foldl (BlockPool.dropRef target) pool) (held - blocks) := by
  induction blocks generalizing pool held with
  | nil => simpa using owned
  | cons block rest ih =>
    have first : block ∈ held := Multiset.mem_of_le mine (by simp)
    have remaining : (rest : Multiset BlockId) ≤ held.erase block := by
      rw [← Multiset.cons_coe] at mine
      rw [← Multiset.erase_cons_head block (rest : Multiset BlockId)]
      exact Multiset.erase_le_erase block mine
    rw [List.foldl_cons, ← Multiset.cons_coe, Multiset.sub_cons]
    exact ih (owned.dropRef target first) remaining

/-- Sharing a list of held pages. -/
theorem incref (owned : Owned n pool held) {blocks : List BlockId} (shared : ∀ block ∈ blocks, block ∈ held)
    (room : ∀ block ∈ blocks, held.count block + blocks.count block < 2 ^ 32) :
    Owned n (pool.incref blocks) (blocks + held) := by
  induction blocks generalizing pool held with
  | nil => simpa [BlockPool.incref] using owned
  | cons block rest ih =>
    have next := owned.addRef (shared block List.mem_cons_self) (by
      have bound := room block List.mem_cons_self
      rw [List.count_cons_self] at bound
      omega)
    have result := ih next
      (fun other member => Multiset.mem_cons_of_mem (shared other (List.mem_cons_of_mem _ member)))
      (fun other member => by
        have bound := room other (List.mem_cons_of_mem _ member)
        by_cases same : other = block
        · subst other
          rw [List.count_cons_self] at bound
          rw [Multiset.count_cons_self]
          omega
        · rw [List.count_cons_of_ne (Ne.symm same)] at bound
          rwa [Multiset.count_cons_of_ne same])
    rw [← Multiset.cons_coe, Multiset.cons_add, ← Multiset.add_cons]
    exact result

/-- `reacquire` succeeds exactly on pages that are cached or referenced, and takes one reference. -/
theorem reacquire (owned : Owned n pool held) {block : BlockId} (inside : block < n)
    (room : held.count block + 1 < 2 ^ 32) :
    ((pool.reacquire block).1 = true ↔ block ∈ pool.cached ∨ block ∈ held) ∧
      Owned n (pool.reacquire block).2
        (if (pool.reacquire block).1 then block ::ₘ held else held) := by
  unfold BlockPool.reacquire
  by_cases cached : block ∈ pool.cached
  · have unheld := owned.notMem_of_idle (List.mem_append_right _ cached)
    have split : (pool.free ++ pool.cached).Perm (block :: (pool.free ++ pool.cached.erase block)) :=
      ((List.perm_cons_erase cached).append_left _).trans List.perm_middle
    have count : (pool.refs block + 1) % 2 ^ 32 = 1 := by
      rw [owned.counts block inside, Multiset.count_eq_zero.mpr unheld]
      rfl
    have taken := owned.take split
    rw [← count] at taken
    simp only [if_pos cached, ↓reduceIte, true_iff]
    exact ⟨.inl cached, taken⟩
  · by_cases shared : 0 < pool.refs block
    · have member := (owned.refs_pos inside).mp shared
      simp only [if_neg cached, if_pos shared, ↓reduceIte, true_iff]
      exact ⟨.inr member, owned.addRef member room⟩
    · have absent := mt (owned.refs_pos inside).mpr shared
      simp only [if_neg cached, if_neg shared, Bool.false_eq_true, ↓reduceIte, false_iff, not_or]
      exact ⟨⟨cached, absent⟩, owned⟩

/-- Eviction moves pages from the cached queue to the free stack and touches no reference. -/
theorem evictCached (owned : Owned n pool held) (k : ℕ) : Owned n (evictCached k pool).2 held := by
  induction k generalizing pool with
  | zero => exact owned
  | succ k ih =>
    rcases pool with ⟨blockSize, refcount, free, cached, watermark⟩
    cases cached with
    | nil => exact owned
    | cons block cached =>
      have moved : (block :: free ++ cached).Perm (free ++ block :: cached) := List.perm_middle.symm
      refine ih ⟨owned.size, owned.counts, owned.range, ?_, ?_⟩
      · exact moved.nodup_iff.mpr owned.nodup
      · intro other
        rw [moved.mem_iff]
        exact owned.idle other

end Owned

end BlockPool

/-! ## Any number of holders -/

/-- One pool and the references its holders have taken. -/
structure SharedPool (Holder : Type*) where
  pool : BlockPool
  refs : Multiset (Holder × BlockId)

/-- What a holder can ask of the pool. -/
inductive PoolOp (Holder : Type*) where
  | alloc (holder : Holder) (count : ℕ)
  | incref (holder : Holder) (blocks : List BlockId)
  | release (holder : Holder) (blocks : List BlockId)
  | releaseToCache (holder : Holder) (blocks : List BlockId)
  | reacquire (holder : Holder) (block : BlockId)
  | evictCached (count : ℕ)

namespace SharedPool

variable {Holder : Type*}

/-- The references `holder` takes when it is handed `blocks`. -/
def claims (holder : Holder) (blocks : List BlockId) : Multiset (Holder × BlockId) :=
  (blocks.map (Prod.mk holder) : List (Holder × BlockId))

/-- The pages referenced, by whomever. -/
def held (s : SharedPool Holder) : Multiset BlockId := s.refs.map Prod.snd

/-- The discipline: release only what you hold, share only what is held, stay below `2 ^ 32`
references on a page, and name only pages of this pool. -/
def Allowed (s : SharedPool Holder) : PoolOp Holder → Prop
  | .alloc _ _ => True
  | .incref _ blocks => ∀ block ∈ blocks, block ∈ s.held ∧ s.held.count block + blocks.count block < 2 ^ 32
  | .release holder blocks => claims holder blocks ≤ s.refs
  | .releaseToCache holder blocks => claims holder blocks ≤ s.refs
  | .reacquire _ block => block < s.pool.total ∧ s.held.count block + 1 < 2 ^ 32
  | .evictCached _ => True

variable [DecidableEq Holder]

instance (s : SharedPool Holder) : (op : PoolOp Holder) → Decidable (s.Allowed op)
  | .alloc _ _ => inferInstanceAs (Decidable True)
  | .incref _ blocks => inferInstanceAs (Decidable (∀ block ∈ blocks, _ ∧ _))
  | .release _ _ => inferInstanceAs (Decidable (_ ≤ _))
  | .releaseToCache _ _ => inferInstanceAs (Decidable (_ ≤ _))
  | .reacquire _ _ => inferInstanceAs (Decidable (_ ∧ _))
  | .evictCached _ => inferInstanceAs (Decidable True)

def step (s : SharedPool Holder) : PoolOp Holder → SharedPool Holder
  | .alloc holder count =>
    match s.pool.alloc count with
    | (.ok out, pool) => ⟨pool, claims holder out + s.refs⟩
    | (.error _, pool) => ⟨pool, s.refs⟩
  | .incref holder blocks => ⟨s.pool.incref blocks, claims holder blocks + s.refs⟩
  | .release holder blocks => ⟨s.pool.release blocks, s.refs - claims holder blocks⟩
  | .releaseToCache holder blocks => ⟨s.pool.releaseToCache blocks, s.refs - claims holder blocks⟩
  | .reacquire holder block =>
    match s.pool.reacquire block with
    | (true, pool) => ⟨pool, (holder, block) ::ₘ s.refs⟩
    | (false, pool) => ⟨pool, s.refs⟩
  | .evictCached count => ⟨(s.pool.evictCached count).2, s.refs⟩

/-- The pool from its construction on, under the discipline. -/
def system (n blockSize : ℕ) (watermark : ℚ) : Machine.System (SharedPool Holder) (PoolOp Holder) :=
  .ofFun (fun s => s = ⟨.new n blockSize watermark, 0⟩) Allowed step

omit [DecidableEq Holder] in
theorem held_claims_add (pool after : BlockPool) (holder : Holder) (blocks : List BlockId)
    (refs : Multiset (Holder × BlockId)) :
    held ⟨after, claims holder blocks + refs⟩ = blocks + held ⟨pool, refs⟩ := by
  simp [held, claims, Function.comp_def]

/-- Releasing what a holder holds removes those references and no others. -/
theorem held_sub_claims (pool after : BlockPool) {holder : Holder} {blocks : List BlockId}
    {refs : Multiset (Holder × BlockId)} (mine : claims holder blocks ≤ refs) :
    held ⟨after, refs - claims holder blocks⟩ = held ⟨pool, refs⟩ - blocks ∧
      (blocks : Multiset BlockId) ≤ held ⟨pool, refs⟩ := by
  obtain ⟨rest, rfl⟩ := Multiset.le_iff_exists_add.mp mine
  simp [held, claims, Function.comp_def, add_tsub_cancel_left, Multiset.zero_le]

/-- Every disciplined operation keeps the counters and lists in step with the references held. -/
theorem step_owned {n : ℕ} {s : SharedPool Holder} {op : PoolOp Holder}
    (owned : s.pool.Owned n s.held) (allowed : s.Allowed op) :
    (s.step op).pool.Owned n (s.step op).held := by
  cases op with
  | alloc holder count =>
    simp only [step, BlockPool.alloc]
    by_cases short : s.pool.available < count
    · simpa only [if_pos short] using owned
    · simpa only [if_neg short, held_claims_add s.pool] using (owned.allocLoop (not_lt.mp short)).1
  | incref holder blocks =>
    simpa only [step, held_claims_add s.pool] using owned.incref
      (fun block member => (allowed block member).1) (fun block member => (allowed block member).2)
  | release holder blocks =>
    obtain ⟨same, mine⟩ := held_sub_claims s.pool (s.pool.release blocks) allowed
    simp only [step, same]
    exact owned.dropRefs .free mine
  | releaseToCache holder blocks =>
    obtain ⟨same, mine⟩ := held_sub_claims s.pool (s.pool.releaseToCache blocks) allowed
    simp only [step, same]
    exact owned.dropRefs .cache mine
  | reacquire holder block =>
    have inside : block < n := owned.size ▸ allowed.1
    have taken := (owned.reacquire inside allowed.2).2
    simp only [step]
    generalize s.pool.reacquire block = result at taken ⊢
    obtain ⟨hit, pool⟩ := result
    cases hit
    · exact taken
    · simpa [held] using taken
  | evictCached count => exact owned.evictCached count

theorem run_owned {n blockSize : ℕ} {watermark : ℚ} {ops : List (PoolOp Holder)} {s : SharedPool Holder}
    (run : Machine.Run (system n blockSize watermark) ops s) : s.pool.Owned n s.held := by
  refine run.invariant (P := fun s => s.pool.Owned n s.held) ?_ ?_
  · rintro s rfl
    exact BlockPool.owned_new n blockSize watermark
  · rintro s op t owned ⟨allowed, rfl⟩
    exact step_owned owned allowed

/-- What the pool owes its holders in one state. -/
structure Sound (n : ℕ) (s : SharedPool Holder) : Prop where
  /-- Every counter is the number of references held on its block. -/
  counted : ∀ block < n, s.pool.refs block = s.held.count block
  free_nodup : s.pool.free.Nodup
  cached_nodup : s.pool.cached.Nodup
  free_cached : s.pool.free.Disjoint s.pool.cached
  free_held : ∀ block ∈ s.pool.free, ¬ 0 < s.pool.refs block
  cached_held : ∀ block ∈ s.pool.cached, ¬ 0 < s.pool.refs block
  /-- The three kinds of block are together the `n` blocks of the pool. -/
  blocks : ∀ block, block < n ↔ block ∈ s.pool.free ∨ block ∈ s.pool.cached ∨ 0 < s.pool.refs block
  alloc_iff : ∀ k, (∃ out, (s.pool.alloc k).1 = .ok out) ↔ k ≤ s.pool.free.length + s.pool.cached.length
  alloc_ok : ∀ k out, (s.pool.alloc k).1 = .ok out →
    out.length = k ∧ out.Nodup ∧ ∀ block ∈ out, block < n ∧ ∀ holder, (holder, block) ∉ s.refs
  alloc_error : ∀ k error, (s.pool.alloc k).1 = .error error → (s.pool.alloc k).2 = s.pool
  reacquire_iff : ∀ block < n,
    (s.pool.reacquire block).1 = true ↔ block ∈ s.pool.cached ∨ ∃ holder, (holder, block) ∈ s.refs

omit [DecidableEq Holder] in
theorem mem_held {s : SharedPool Holder} {block : BlockId} :
    block ∈ s.held ↔ ∃ holder, (holder, block) ∈ s.refs := by
  simp [held]

omit [DecidableEq Holder] in
theorem sound_of_owned {n : ℕ} {s : SharedPool Holder} (owned : s.pool.Owned n s.held) : Sound n s where
  counted := owned.counts
  free_nodup := (List.nodup_append.mp owned.nodup).1
  cached_nodup := (List.nodup_append.mp owned.nodup).2.1
  free_cached := List.disjoint_of_nodup_append owned.nodup
  free_held block listed := by
    have idle := (owned.idle block).mp (List.mem_append_left _ listed)
    exact mt (owned.refs_pos idle.1).mp idle.2
  cached_held block listed := by
    have idle := (owned.idle block).mp (List.mem_append_right _ listed)
    exact mt (owned.refs_pos idle.1).mp idle.2
  blocks block := by
    rw [← or_assoc, ← List.mem_append, owned.idle block]
    constructor
    · intro inside
      by_cases member : block ∈ s.held
      · exact .inr ((owned.refs_pos inside).mpr member)
      · exact .inl ⟨inside, member⟩
    · rintro (⟨inside, _⟩ | positive)
      · exact inside
      · by_contra outside
        have beyond : s.pool.refcount.length ≤ block := owned.size ▸ not_lt.mp outside
        simp [BlockPool.refs, List.getD_eq_getElem?_getD, beyond] at positive
  alloc_iff k := by
    change _ ↔ k ≤ s.pool.available
    simp only [BlockPool.alloc]
    by_cases short : s.pool.available < k
    · simp only [if_pos short, reduceCtorEq, exists_false, false_iff]
      exact not_le.mpr short
    · simp only [if_neg short, Except.ok.injEq, exists_eq', true_iff]
      exact not_lt.mp short
  alloc_ok k out success := by
    simp only [BlockPool.alloc] at success
    split at success
    · contradiction
    · next enough =>
      obtain ⟨_, length, nodup, fresh⟩ := owned.allocLoop (not_lt.mp enough)
      cases success
      exact ⟨length, nodup, fun block member =>
        ⟨(fresh block member).1, fun holder mine => (fresh block member).2 (mem_held.mpr ⟨holder, mine⟩)⟩⟩
  alloc_error k error failure := by
    simp only [BlockPool.alloc] at failure ⊢
    split at failure
    · next short => rw [if_pos short]
    · contradiction
  reacquire_iff block inside := by
    rw [← mem_held, ← owned.refs_pos inside]
    unfold BlockPool.reacquire
    split_ifs <;> simp_all

/-- No interleaving of holders makes the pool hand out a page twice or lose one. -/
theorem run_accounts_every_page (n blockSize : ℕ) (watermark : ℚ) (ops : List (PoolOp Holder))
    (s : SharedPool Holder) (run : Machine.Run (system n blockSize watermark) ops s) : Sound n s :=
  sound_of_owned (run_owned run)

/-- Two holders share a page, the first lets go, and the page is cached and hit again. -/
theorem run_accounts_every_page_shared :
    Sound 2 (([.alloc 0 1, .incref 1 [0], .release 0 [0], .releaseToCache 1 [0], .reacquire 0 0] :
      List (PoolOp ℕ)).foldl step ⟨.new 2 128 0, 0⟩) := by
  have start : Machine.Run (system 2 128 0) [] (⟨.new 2 128 0, 0⟩ : SharedPool ℕ) := .start rfl
  have allocated := start.apply (.alloc 0 1) (by decide)
  have shared := allocated.apply (.incref 1 [0]) (by decide)
  have released := shared.apply (.release 0 [0]) (by decide)
  have cached := released.apply (.releaseToCache 1 [0]) (by decide)
  have hit := cached.apply (.reacquire 0 0) (by decide)
  exact run_accounts_every_page 2 128 0 _ _ hit

end SharedPool

end TrtLlm.KvCache
