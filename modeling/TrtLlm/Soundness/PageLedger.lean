import TrtLlm.Soundness.PoolOwnership
import TrtLlm.Soundness.PrefillRound
import TrtLlm.ToMathlib.AListSum

/-! # A pool behind a map of page lists

Both workers keep, beside a pool, a map from request ids to the pages each request holds, and take and give
back pages only together with an entry of that map. The ledger says that the map accounts for every page the
pool has handed out, each once.
-/

namespace TrtLlm.KvCache

/-- The pages of all entries. -/
def pages (kv : HashMap RequestId (List BlockId)) : Multiset BlockId :=
  kv.sum fun _ (blocks : List BlockId) => (blocks : Multiset BlockId)

/-- The pages in use are those of the map, no page twice. -/
structure Ledger (n : ℕ) (pool : BlockPool) (kv : HashMap RequestId (List BlockId)) : Prop where
  owned : pool.Owned n (pages kv)
  once : (pages kv).Nodup

theorem pages_of_lookup {kv : HashMap RequestId (List BlockId)} {id : RequestId} {blocks : List BlockId}
    (found : kv.lookup id = some blocks) : pages kv = blocks + pages (kv.erase id) := AList.sum_of_lookup _ found

theorem card_pages (kv : HashMap RequestId (List BlockId)) : (pages kv).card = kv.sum fun _ blocks => blocks.length := by
  have expand : ∀ entries : List (Sigma fun _ : RequestId => List BlockId),
      (entries.map fun entry => (entry.2 : Multiset BlockId)).sum.card = (entries.map fun entry => entry.2.length).sum := by
    intro entries
    induction entries with
    | nil => rfl
    | cons entry entries ih => simp [ih]
  exact expand kv.entries

/-- An idle page and a held page are different, and together they are the pages of the pool. -/
theorem BlockPool.Owned.available_add_card {n : ℕ} {pool : BlockPool} {held : Multiset BlockId}
    (owned : pool.Owned n held) (once : held.Nodup) : pool.available + held.card = n := by
  have apart : ((pool.free ++ pool.cached : List BlockId) + held : Multiset BlockId).Nodup := by
    refine Multiset.nodup_add.mpr ⟨owned.nodup, once, ?_⟩
    rw [Multiset.disjoint_left]
    exact fun idle mine => owned.notMem_of_idle idle mine
  have whole : ((pool.free ++ pool.cached : List BlockId) + held : Multiset BlockId) = Multiset.range n := by
    refine (Multiset.Nodup.ext apart (Multiset.nodup_range n)).mpr fun block => ?_
    rw [Multiset.mem_add, Multiset.mem_coe, owned.idle block, Multiset.mem_range]
    constructor
    · rintro (⟨inside, _⟩ | mine)
      · exact inside
      · exact owned.range block mine
    · intro inside
      by_cases mine : block ∈ held
      · exact .inr mine
      · exact .inl ⟨inside, mine⟩
  have sizes := congrArg Multiset.card whole
  rwa [Multiset.card_add, Multiset.coe_card, List.length_append, Multiset.card_range] at sizes

/-- A pool and its map once the entry of an id, if there is one, is given back. -/
def giveBackEntry (books : BlockPool × HashMap RequestId (List BlockId)) (id : RequestId) :
    BlockPool × HashMap RequestId (List BlockId) :=
  match books.2.lookup id with
  | some blocks => (books.1.release blocks, books.2.erase id)
  | none => books

namespace Ledger

variable {n : ℕ} {pool : BlockPool} {kv : HashMap RequestId (List BlockId)}

theorem new (n blockSize : ℕ) (watermark : ℚ) : Ledger n (.new n blockSize watermark) ∅ where
  owned := BlockPool.owned_new n blockSize watermark
  once := Multiset.nodup_zero

theorem available (ledger : Ledger n pool kv) : pool.available + (pages kv).card = n :=
  ledger.owned.available_add_card ledger.once

/-- Pages the pool hands out may be added to one entry. -/
theorem grant (ledger : Ledger n pool kv) (id : RequestId) {k : ℕ} {blocks : List BlockId} {next : BlockPool}
    (allocated : pool.alloc k = (.ok blocks, next)) :
    blocks.length = k ∧ Ledger n next (kv.insert id ((kv.lookup id).getD [] ++ blocks)) := by
  rw [BlockPool.alloc] at allocated
  split at allocated
  next => cases allocated
  next enough =>
    obtain ⟨owned, length, distinct, fresh⟩ := ledger.owned.allocLoop (not_lt.mp enough)
    cases allocated
    have added : pages (kv.insert id ((kv.lookup id).getD [] ++ (BlockPool.allocLoop k pool).1)) =
        (BlockPool.allocLoop k pool).1 + pages kv := by
      rw [pages, AList.sum_insert, ← Multiset.coe_add, add_comm (((kv.lookup id).getD [] : List BlockId) : Multiset BlockId),
        add_assoc]
      cases found : kv.lookup id with
      | none => rw [AList.erase_of_notMem (AList.lookup_eq_none.mp found), Option.getD_none, Multiset.coe_nil, zero_add]; rfl
      | some blocks => rw [pages_of_lookup found]; rfl
    refine ⟨length, added.symm ▸ owned, ?_⟩
    rw [added]
    refine Multiset.nodup_add.mpr ⟨distinct, ledger.once, ?_⟩
    rw [Multiset.disjoint_left]
    exact fun mine again => (fresh _ mine).2 again

/-- Releasing the pages of an entry and dropping it. -/
theorem giveBack (ledger : Ledger n pool kv) {id : RequestId} {blocks : List BlockId}
    (found : kv.lookup id = some blocks) : Ledger n (pool.release blocks) (kv.erase id) := by
  have split := pages_of_lookup found
  have within : (blocks : Multiset BlockId) ≤ pages kv := by
    rw [split]
    exact Multiset.le_add_right _ _
  have owned := ledger.owned.dropRefs .free within
  rw [split, add_tsub_cancel_left] at owned
  have once := ledger.once
  rw [split] at once
  exact ⟨owned, (Multiset.nodup_add.mp once).2.1⟩

/-- After a loop that gives entries back, the map holds exactly the others, unchanged. -/
theorem giveBackAll (ids : List RequestId) (ledger : Ledger n pool kv) :
    let books := ids.foldl giveBackEntry (pool, kv)
    Ledger n books.1 books.2 ∧
      ∀ id blocks, books.2.lookup id = some blocks ↔ kv.lookup id = some blocks ∧ id ∉ ids := by
  induction ids generalizing pool kv with
  | nil => exact ⟨ledger, fun id blocks => (and_iff_left List.not_mem_nil).symm⟩
  | cons first ids ih =>
    rw [List.foldl_cons, giveBackEntry]
    split
    next held found =>
      obtain ⟨paid, left⟩ := ih (ledger.giveBack found)
      refine ⟨paid, fun id blocks => ?_⟩
      rw [left, AList.lookup_erase_eq_ite, List.mem_cons]
      by_cases here : id = first
      · simp [here]
      · simp [here]
    next absent =>
      obtain ⟨paid, left⟩ := ih ledger
      refine ⟨paid, fun id blocks => ?_⟩
      rw [left, List.mem_cons, not_or]
      refine and_congr_right fun found => (and_iff_right ?_).symm
      rintro rfl
      cases found.symm.trans absent

/-- The pages of one entry are distinct. -/
theorem nodup (ledger : Ledger n pool kv) {id : RequestId} {blocks : List BlockId}
    (found : kv.lookup id = some blocks) : blocks.Nodup := by
  have once := ledger.once
  rw [pages_of_lookup found] at once
  exact (Multiset.nodup_add.mp once).1

end Ledger

end TrtLlm.KvCache
