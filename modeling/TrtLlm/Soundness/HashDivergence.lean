import TrtLlm.Soundness.HitRate
import TrtLlm.Soundness.PrefixPages
import TrtLlm.ToMathlib.InjectiveFold

/-! # Diverged hash chains stay apart

Every byte step of FNV-1a is a bijection of the 64-bit word, since its prime is odd. Hashing the same tokens from two
different states therefore never brings them together, and a later block with equal content keeps a different hash.
-/

namespace TrtLlm.KvCache

/-- The inverse of `fnvPrime` modulo 2^64. -/
def fnvInverse : BitVec 64 := 0xce965057aff6957b#64

theorem fnvPrime_mul_fnvInverse : fnvPrime * fnvInverse = 1 := by decide

theorem fnv1aU64_injective (value : BitVec 64) : Function.Injective (fnv1aU64 · value) :=
  List.foldl_injective (BitVec.xor_mul_injective fnvPrime_mul_fnvInverse) (leBytes value)

theorem hashTokens_injective (tokens : List TokenId) : Function.Injective (hashTokens · tokens) :=
  List.foldl_injective (fun token => fnv1aU64_injective (BitVec.ofNat 64 token)) tokens

theorem hashTokens_append (h : BitVec 64) (tokens more : List TokenId) :
    hashTokens h (tokens ++ more) = hashTokens (hashTokens h tokens) more :=
  List.foldl_append

section
variable {blockSize n : ℕ} {a b : List TokenId}

/-- Behind whole blocks the blocks of a continuation are counted from its start. -/
theorem firstBlocks_append (whole : a.length = n * max blockSize 1) (count : ℕ) (c : List TokenId) :
    firstBlocks blockSize (n + count) (a ++ c) = a ++ firstBlocks blockSize count c := by
  rw [firstBlocks, firstBlocks, Nat.add_mul, ← whole, List.take_length_add_append]

theorem blockHashes_append (whole : a.length = n * max blockSize 1) {c : List TokenId} {i : ℕ}
    (inside : i < c.length / max blockSize 1) : (blockHashes (a ++ c) blockSize)[n + i]? =
      some (hashTokens (hashTokens fnvOffset a) (firstBlocks blockSize (i + 1) c)) := by
  have positive : 0 < max blockSize 1 := by omega
  have complete := (Nat.le_div_iff_mul_le positive).mp inside
  apply blockHashes_getElem?.mpr
  constructor
  · rw [List.length_append, whole, Nat.add_assoc, Nat.add_mul]
    exact Nat.add_le_add_left complete _
  · rw [Nat.add_assoc, firstBlocks_append whole, hashTokens_append]

/-- The last hash of whole blocks is that of all the tokens. -/
theorem getLast?_blockHashes (whole : a.length = n * max blockSize 1) :
    (blockHashes a blockSize).getLast? = if n = 0 then none else some (hashTokens fnvOffset a) := by
  have positive : 0 < max blockSize 1 := by omega
  have count : (blockHashes a blockSize).length = n := by
    rw [PrefixCache.length_blockHashes, whole, Nat.mul_div_cancel _ positive]
  rw [List.getLast?_eq_getElem?, count]
  cases n with
  | zero => exact List.getElem?_eq_none (by omega)
  | succ last =>
    have all : firstBlocks blockSize (last + 1) a = a := by
      rw [firstBlocks, ← whole, List.take_length]
    rw [Nat.add_sub_cancel]
    apply blockHashes_getElem?.mpr
    exact ⟨whole.ge, by rw [all]⟩

/-- Different last hashes come from different states. -/
theorem state_ne_of_getLast? (whole : a.length = n * max blockSize 1) (same : a.length = b.length)
    (apart : (blockHashes a blockSize).getLast? ≠ (blockHashes b blockSize).getLast?) :
    hashTokens fnvOffset a ≠ hashTokens fnvOffset b := by
  intro equal
  rw [getLast?_blockHashes whole, getLast?_blockHashes (same ▸ whole), equal] at apart
  exact apart rfl

/-- A continuation leaves the chain so far as it is. -/
theorem blockHashes_isPrefix (blockSize : ℕ) (a c : List TokenId) :
    blockHashes a blockSize <+: blockHashes (a ++ c) blockSize := by
  rw [List.prefix_iff_getElem?]
  intro i inside
  have found := List.getElem?_eq_getElem inside
  apply blockHashes_congr found
  have complete := (blockHashes_getElem?.mp found).1
  rw [firstBlocks, firstBlocks, List.take_append_of_le_length complete]

end

/-- **A diverged chain never meets the other again.** -/
theorem diverged_chains_stay_apart (blockSize : ℕ) :
    (∀ a b c : List TokenId, a.length = b.length → max blockSize 1 ∣ a.length →
      (blockHashes a blockSize).getLast? ≠ (blockHashes b blockSize).getLast? →
      ∀ i < c.length / max blockSize 1, ∃ h h', h ≠ h' ∧
        (blockHashes (a ++ c) blockSize)[a.length / max blockSize 1 + i]? = some h ∧
        (blockHashes (b ++ c) blockSize)[b.length / max blockSize 1 + i]? = some h') ∧
      ∀ a c : List TokenId, blockHashes a blockSize <+: blockHashes (a ++ c) blockSize := by
  refine ⟨?_, blockHashes_isPrefix blockSize⟩
  intro a b c same divides apart i inside
  have whole := (Nat.div_mul_cancel divides).symm
  have whole' := (Nat.div_mul_cancel (same ▸ divides)).symm
  refine ⟨_, _, ?_, blockHashes_append whole inside, blockHashes_append whole' inside⟩
  intro equal
  exact state_ne_of_getLast? whole same apart (hashTokens_injective _ equal)

/-- Equal second blocks after different first ones. -/
theorem diverged_chains_stay_apart_second_block :
    (∃ h h', h ≠ h' ∧ (blockHashes [0, 1, 2, 3, 4, 5, 6, 7] 4)[1]? = some h ∧
      (blockHashes [100, 101, 102, 103, 4, 5, 6, 7] 4)[1]? = some h') ∧
      blockHashes [0, 1, 2, 3] 4 <+: blockHashes [0, 1, 2, 3, 4, 5, 6, 7] 4 := by
  obtain ⟨later, front⟩ := diverged_chains_stay_apart 4
  exact ⟨later [0, 1, 2, 3] [100, 101, 102, 103] [4, 5, 6, 7] rfl (by decide) (by decide +kernel) 0 (by decide),
    front [0, 1, 2, 3] [4, 5, 6, 7]⟩

end TrtLlm.KvCache
