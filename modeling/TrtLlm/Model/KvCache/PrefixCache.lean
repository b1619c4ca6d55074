import TrtLlm.Model.KvCache.Pool

/-! # The exact prefix reuse index

`PrefixCache` of `crates/kvcache/src/prefix.rs`, with its FNV-1a hash chain on 64-bit words. A
lookup walks the chain and takes a reference in the pool for every block it returns; the pool and
the index meet nowhere else.
-/

namespace TrtLlm.KvCache

/-- `BlockHash(u64)`. -/
abbrev BlockHash := BitVec 64

def fnvOffset : BitVec 64 := 0xcbf29ce484222325#64

def fnvPrime : BitVec 64 := 0x00000100000001b3#64

/-- The eight bytes of `value.to_le_bytes()`, each widened back to 64 bits. -/
def leBytes (value : BitVec 64) : List (BitVec 64) :=
  (List.range 8).map fun i => (value >>> (8 * i)) &&& 0xff#64

def fnv1aU64 (h value : BitVec 64) : BitVec 64 :=
  (leBytes value).foldl (fun h byte => (h ^^^ byte) * fnvPrime) h

/-- Continue a hash over some tokens. -/
def hashTokens (h : BitVec 64) (tokens : List TokenId) : BitVec 64 :=
  tokens.foldl (fun h token => fnv1aU64 h (BitVec.ofNat 64 token)) h

/-- The hashes of the next `count` chunks of `size` tokens, each chained to the one before. -/
def hashChain (size : ℕ) : ℕ → BitVec 64 → List TokenId → List BlockHash
  | 0, _, _ => []
  | count + 1, h, tokens =>
    let next := hashTokens h (tokens.take size)
    next :: hashChain size count next (tokens.drop size)

/-- Hash chain over the complete blocks of `tokens`. -/
def blockHashes (tokens : List TokenId) (blockSize : ℕ) : List BlockHash :=
  let size := max blockSize 1
  hashChain size (tokens.length / size) fnvOffset tokens

/-- What a lookup found. -/
structure PrefixMatch where
  numTokens : ℕ := 0
  blocks : List BlockId := []
deriving DecidableEq, Repr

structure PrefixCache where
  blockSize : ℕ
  byHash : HashMap BlockHash BlockId
  byBlock : HashMap BlockId BlockHash
  hits : ℕ
  misses : ℕ
  enabled : Bool
deriving DecidableEq

namespace PrefixCache

def new (blockSize : ℕ) (enabled : Bool) : PrefixCache where
  blockSize
  byHash := ∅
  byBlock := ∅
  hits := 0
  misses := 0
  enabled

/-- The loop of `lookup` over the hash chain. -/
def lookupLoop : List BlockHash → PrefixCache → BlockPool → PrefixMatch →
    PrefixMatch × PrefixCache × BlockPool
  | [], cache, pool, found => (found, cache, pool)
  | h :: rest, cache, pool, found =>
    match cache.byHash.lookup h with
    | none => (found, { cache with misses := cache.misses + 1 }, pool)
    | some block =>
      match pool.reacquire block with
      | (true, pool) =>
        lookupLoop rest { cache with hits := cache.hits + 1 } pool
          ⟨found.numTokens + cache.blockSize, found.blocks ++ [block]⟩
      -- The pool already gave this page away, so the entry is stale.
      | (false, pool) =>
        (found, { cache with
          byHash := cache.byHash.erase h
          byBlock := cache.byBlock.erase block
          misses := cache.misses + 1 }, pool)

/-- Longest cached run of blocks of `tokens`, with a reference taken on every block returned. -/
def lookup (cache : PrefixCache) (tokens : List TokenId) (pool : BlockPool) :
    PrefixMatch × PrefixCache × BlockPool :=
  if cache.enabled then lookupLoop (blockHashes tokens cache.blockSize) cache pool {}
  else ({}, { cache with misses := cache.misses + tokens.length / max cache.blockSize 1 }, pool)

/-- Publish one page under one hash. -/
def insertOne (cache : PrefixCache) (entry : BlockHash × BlockId) : PrefixCache :=
  let byBlock :=
    match cache.byHash.lookup entry.1 with
    | some previous => if previous ≠ entry.2 then cache.byBlock.erase previous else cache.byBlock
    | none => cache.byBlock
  { cache with
    byHash := cache.byHash.insert entry.1 entry.2
    byBlock := byBlock.insert entry.2 entry.1 }

/-- Publish freshly computed blocks; `tokens` starts at position zero. -/
def insert (cache : PrefixCache) (tokens : List TokenId) (blocks : List BlockId) : PrefixCache :=
  if cache.enabled then ((blockHashes tokens cache.blockSize).zip blocks).foldl insertOne cache
  else cache

def forgetOne (cache : PrefixCache) (block : BlockId) : PrefixCache :=
  match cache.byBlock.lookup block with
  | some h => { cache with byBlock := cache.byBlock.erase block, byHash := cache.byHash.erase h }
  | none => cache

/-- Drop index entries for blocks the pool has taken back. -/
def forget (cache : PrefixCache) (blocks : List BlockId) : PrefixCache := blocks.foldl forgetOne cache

end PrefixCache

end TrtLlm.KvCache
