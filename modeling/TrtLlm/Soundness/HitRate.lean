import Mathlib.Tactic.FieldSimp
import TrtLlm.Soundness.PrefixIndex

/-! # What the hit rate counts

A lookup that stops early counts one miss for all the blocks it did not return. So the counters add up to the complete
blocks exactly as long as no lookup leaves more than one behind.
-/

namespace TrtLlm.KvCache

namespace PrefixCache

/-- The pages of these blocks are in the index, and the pool gives them out one after another. -/
def stocked (byHash : HashMap BlockHash BlockId) : List BlockHash → BlockPool → Bool
  | [], _ => true
  | h :: rest, pool =>
    match byHash.lookup h with
    | none => false
    | some block => (pool.reacquire block).1 && stocked byHash rest (pool.reacquire block).2

theorem stocked_cons {byHash : HashMap BlockHash BlockId} {h : BlockHash} {rest : List BlockHash} {pool : BlockPool} :
    stocked byHash (h :: rest) pool = true ↔ ∃ block, byHash.lookup h = some block ∧ (pool.reacquire block).1 = true ∧
      stocked byHash rest (pool.reacquire block).2 = true := by
  rw [stocked]
  cases byHash.lookup h <;> simp

/-- Where the first block is not returned, it has to be the last. -/
theorem stopped_iff {byHash : HashMap BlockHash BlockId} {h : BlockHash} {pool : BlockPool}
    (missing : ∀ block, byHash.lookup h = some block → (pool.reacquire block).1 = false) (rest : List BlockHash) :
    (h :: rest).length ≤ 0 + 1 ↔ stocked byHash (h :: rest).dropLast pool = true := by
  cases rest with
  | nil => exact iff_of_true le_rfl rfl
  | cons next rest =>
    refine iff_of_false (by simp) fun all => ?_
    rw [List.dropLast_cons_cons] at all
    obtain ⟨block, listed, taken, -⟩ := stocked_cons.mp all
    rw [missing block listed] at taken
    cases taken

/-- What a lookup over some blocks counts, and when it leaves no more than one of them. -/
theorem lookupLoop_counts (hashes : List BlockHash) (cache : PrefixCache) (pool : BlockPool) (found : PrefixMatch) :
    ∃ count ≤ hashes.length,
      (lookupLoop hashes cache pool found).1.blocks.length = found.blocks.length + count ∧
      (lookupLoop hashes cache pool found).1.numTokens = found.numTokens + count * cache.blockSize ∧
      (lookupLoop hashes cache pool found).2.1.hits = cache.hits + count ∧
      (lookupLoop hashes cache pool found).2.1.misses = cache.misses + min 1 (hashes.length - count) ∧
      (hashes.length ≤ count + 1 ↔ stocked cache.byHash hashes.dropLast pool = true) := by
  induction hashes generalizing cache pool found with
  | nil => exact ⟨0, le_rfl, rfl, by simp [lookupLoop], rfl, rfl, iff_of_true (Nat.zero_le _) rfl⟩
  | cons h rest ih =>
    rw [lookupLoop]
    cases listed : cache.byHash.lookup h with
    | none =>
      refine ⟨0, Nat.zero_le _, rfl, by simp, rfl, by simp, stopped_iff (fun block other => ?_) rest⟩
      rw [listed] at other
      cases other
    | some block =>
      simp only
      cases taken : pool.reacquire block with
      | mk success after =>
        cases success with
        | false =>
          refine ⟨0, Nat.zero_le _, rfl, by simp, rfl, by simp, stopped_iff (fun other same => ?_) rest⟩
          rw [← Option.some.inj (listed.symm.trans same), taken]
        | true =>
          obtain ⟨count, within, blocks, tokens, hits, misses, few⟩ := ih { cache with hits := cache.hits + 1 } after
            ⟨found.numTokens + cache.blockSize, found.blocks ++ [block]⟩
          refine ⟨count + 1, Nat.succ_le_succ within, ?_, ?_, ?_, ?_, ?_⟩
          · rw [blocks, List.length_append, List.length_singleton]
            omega
          · rw [tokens]
            ring
          · rw [hits, Nat.add_comm count 1]
            exact Nat.add_assoc cache.hits 1 count
          · rw [misses, List.length_cons, Nat.add_sub_add_right]
          · rw [List.length_cons, Nat.add_le_add_iff_right, few]
            cases rest with
            | nil => exact iff_of_true rfl rfl
            | cons next rest =>
              rw [List.dropLast_cons_cons, stocked_cons]
              simp [listed, taken]

theorem length_hashChain (size count : ℕ) (h : BitVec 64) (tokens : List TokenId) :
    (hashChain size count h tokens).length = count := by
  induction count generalizing h tokens with
  | zero => rfl
  | succ count ih => rw [hashChain, List.length_cons, ih]

theorem length_blockHashes (tokens : List TokenId) (blockSize : ℕ) :
    (blockHashes tokens blockSize).length = tokens.length / max blockSize 1 := length_hashChain _ _ _ _

end PrefixCache

/-! ### Sequences of lookups -/

/-- One lookup, with the pool and the index as they are when it is made. -/
structure LookupCall where
  tokens : List TokenId
  pool : BlockPool
  byHash : HashMap BlockHash BlockId
  byBlock : HashMap BlockId BlockHash

/-- A cache with what its lookups were asked for and returned. -/
structure Metered where
  cache : PrefixCache
  returned : ℕ := 0
  served : ℕ := 0
  complete : ℕ := 0

namespace Metered

def lookup (s : Metered) (call : LookupCall) : Metered :=
  let out := PrefixCache.lookup { s.cache with byHash := call.byHash, byBlock := call.byBlock } call.tokens call.pool
  { cache := out.2.1
    returned := s.returned + out.1.blocks.length
    served := s.served + out.1.numTokens
    complete := s.complete + call.tokens.length / max s.cache.blockSize 1 }

/-- A new cache after some lookups. -/
def after (blockSize : ℕ) (enabled : Bool) (calls : List LookupCall) : Metered :=
  calls.foldl lookup ⟨.new blockSize enabled, 0, 0, 0⟩

/-- The lookup leaves one complete block at most. -/
def Covered (blockSize : ℕ) (enabled : Bool) (call : LookupCall) : Prop :=
  enabled = true → PrefixCache.stocked call.byHash (blockHashes call.tokens blockSize).dropLast call.pool = true

/-- What holds after any lookups. -/
structure Sound (blockSize : ℕ) (enabled : Bool) (calls : List LookupCall) (s : Metered) : Prop where
  size : s.cache.blockSize = blockSize
  same : s.cache.enabled = enabled
  hits : s.cache.hits = s.returned
  served : s.served = s.returned * blockSize
  below : s.cache.hits + s.cache.misses ≤ s.complete
  exact : s.cache.hits + s.cache.misses = s.complete ↔ ∀ call ∈ calls, Covered blockSize enabled call

variable {blockSize : ℕ} {enabled : Bool} {calls : List LookupCall} {s : Metered}

/-- What one lookup adds to the counters. -/
theorem lookup_counts (s : Metered) (call : LookupCall) :
    ∃ count ≤ call.tokens.length / max s.cache.blockSize 1, ∃ missed,
      (s.lookup call).returned = s.returned + count ∧
      (s.lookup call).served = s.served + count * s.cache.blockSize ∧
      (s.lookup call).cache.hits = s.cache.hits + count ∧
      (s.lookup call).cache.misses = s.cache.misses + missed ∧
      count + missed ≤ call.tokens.length / max s.cache.blockSize 1 ∧
      (count + missed = call.tokens.length / max s.cache.blockSize 1 ↔
        Covered s.cache.blockSize s.cache.enabled call) := by
  simp only [lookup, PrefixCache.lookup, Covered]
  split
  next active =>
    obtain ⟨count, within, blocks, tokens, hits, misses, few⟩ := PrefixCache.lookupLoop_counts
      (blockHashes call.tokens s.cache.blockSize) { s.cache with byHash := call.byHash, byBlock := call.byBlock }
      call.pool {}
    rw [PrefixCache.length_blockHashes] at within misses few
    refine ⟨count, within, _, ?_, ?_, hits, misses, by omega, ?_⟩
    · rw [blocks, List.length_nil, Nat.zero_add]
    · rw [tokens, Nat.zero_add]
    · rw [← few]
      simp only [active, true_imp_iff]
      omega
  next idle =>
    refine ⟨0, Nat.zero_le _, _, by simp, by simp, rfl, rfl, by omega, ?_⟩
    exact iff_of_true (Nat.zero_add _) fun active => absurd active idle

theorem lookup_frame (s : Metered) (call : LookupCall) :
    (s.lookup call).cache.blockSize = s.cache.blockSize ∧ (s.lookup call).cache.enabled = s.cache.enabled := by
  simp only [lookup, PrefixCache.lookup]
  split
  · exact PrefixCache.lookupLoop_frame _ _ _ _
  · exact ⟨rfl, rfl⟩

theorem Sound.lookup (sound : s.Sound blockSize enabled calls) (call : LookupCall) :
    (s.lookup call).Sound blockSize enabled (calls ++ [call]) := by
  obtain ⟨count, within, missed, returned, served, hits, misses, below, exact'⟩ := s.lookup_counts call
  obtain ⟨size, same⟩ := s.lookup_frame call
  have complete : (s.lookup call).complete = s.complete + call.tokens.length / max s.cache.blockSize 1 := rfl
  have before := sound.below
  refine ⟨size.trans sound.size, same.trans sound.same, ?_, ?_, ?_, ?_⟩
  · rw [hits, returned, sound.hits]
  · rw [served, returned, sound.served, sound.size, Nat.add_mul]
  · omega
  · have last : (∀ other ∈ calls ++ [call], Covered blockSize enabled other) ↔
        (∀ other ∈ calls, Covered blockSize enabled other) ∧ Covered blockSize enabled call := by
      simp only [List.forall_mem_append, List.forall_mem_singleton]
    rw [last, ← sound.exact, ← sound.size, ← sound.same, ← exact']
    omega

end Metered

end TrtLlm.KvCache
