import Mathlib.Data.Rat.Floor
import TrtLlm.Model.Core.Types

/-! # The paged KV allocator

`BlockPool` of `crates/kvcache/src/pool.rs`. The `free` vector is a stack, so its last element
is the head of the list here; the `cached` deque is kept oldest first. Reference counts are
`u32`: an increment wraps at `2 ^ 32`. Indexing `refcount` outside the pool panics in the source;
here it reads zero and writes nothing, and the ownership invariant shows that no disciplined
caller gets there.
-/

namespace TrtLlm.KvCache

/-- Number of blocks needed to hold `tokens` tokens at `blockSize`. -/
def blocksFor (tokens blockSize : ℕ) : ℕ :=
  (tokens + (max blockSize 1 - 1)) / max blockSize 1

structure PoolStats where
  total : ℕ
  free : ℕ
  inUse : ℕ
  cached : ℕ
deriving DecidableEq, Repr

namespace PoolStats

def utilisation (stats : PoolStats) : ℚ :=
  if stats.total = 0 then 0 else stats.inUse / stats.total

end PoolStats

structure BlockPool where
  blockSize : ℕ
  refcount : List ℕ
  free : List BlockId
  cached : List BlockId
  watermark : ℚ
deriving DecidableEq, Repr

/-- Where a page goes when its last reference is dropped. -/
inductive Reclaim where
  | free
  | cache
deriving DecidableEq, Repr

namespace BlockPool

def new (numBlocks blockSize : ℕ) (watermark : ℚ) : BlockPool where
  blockSize
  refcount := List.replicate numBlocks 0
  free := List.range numBlocks
  cached := []
  watermark := max 0 (min watermark 1)

def total (pool : BlockPool) : ℕ := pool.refcount.length

def freeBlocks (pool : BlockPool) : ℕ := pool.free.length

/-- Blocks that could be handed out right now, counting the reclaimable cached ones. -/
def available (pool : BlockPool) : ℕ := pool.free.length + pool.cached.length

def stats (pool : BlockPool) : PoolStats where
  total := pool.total
  free := pool.free.length
  inUse := (pool.refcount.filter (0 < ·)).length
  cached := pool.cached.length

/-- Pages held back by the watermark. -/
def reserve (pool : BlockPool) : ℕ := ⌈(pool.total : ℚ) * pool.watermark⌉₊

def canAdmit (pool : BlockPool) (blocks : ℕ) : Bool :=
  decide (blocks + pool.reserve ≤ pool.available)

/-- References on one page, as the pool counts them. -/
def refs (pool : BlockPool) (block : BlockId) : ℕ := pool.refcount.getD block 0

def setRefs (pool : BlockPool) (block : BlockId) (count : ℕ) : BlockPool :=
  { pool with refcount := pool.refcount.set block count }

/-- `refcount[b] += 1` on a `u32`. -/
def addRef (pool : BlockPool) (block : BlockId) : BlockPool :=
  pool.setRefs block ((pool.refs block + 1) % 2 ^ 32)

/-- The body of `alloc` after its capacity check: pop a clean page, else the oldest cached one. -/
def allocLoop : ℕ → BlockPool → List BlockId × BlockPool
  | 0, pool => ([], pool)
  | n + 1, pool =>
    match pool.free, pool.cached with
    | id :: free, _ =>
      let (out, next) := allocLoop n ({ pool with free }.setRefs id 1)
      (id :: out, next)
    | [], id :: cached =>
      let (out, next) := allocLoop n ({ pool with cached }.setRefs id 1)
      (id :: out, next)
    -- `expect("available() checked above")`
    | [], [] => ([], pool)

/-- Allocate `n` blocks with a reference already taken. -/
def alloc (pool : BlockPool) (n : ℕ) : Except Error (List BlockId) × BlockPool :=
  if pool.available < n then (.error (.kvExhausted n pool.available), pool)
  else
    let (out, next) := allocLoop n pool
    (.ok out, next)

def incref (pool : BlockPool) (blocks : List BlockId) : BlockPool := blocks.foldl addRef pool

/-- Drop one reference; a page that reaches zero goes where `target` says. The count saturates
at zero and a page already at zero is pushed again, as in the source. -/
def dropRef (target : Reclaim) (pool : BlockPool) (block : BlockId) : BlockPool :=
  let rc := pool.refs block - 1
  let next := pool.setRefs block rc
  if rc = 0 then
    match target with
    | .free => { next with free := block :: next.free }
    | .cache => { next with cached := next.cached ++ [block] }
  else next

def release (pool : BlockPool) (blocks : List BlockId) : BlockPool :=
  blocks.foldl (dropRef .free) pool

def releaseToCache (pool : BlockPool) (blocks : List BlockId) : BlockPool :=
  blocks.foldl (dropRef .cache) pool

/-- Take a cached block back out of the reclaim queue, or share one that is in use. -/
def reacquire (pool : BlockPool) (block : BlockId) : Bool × BlockPool :=
  if block ∈ pool.cached then (true, { pool with cached := pool.cached.erase block }.addRef block)
  else if 0 < pool.refs block then (true, pool.addRef block)
  else (false, pool)

/-- Reclaim up to `n` cached blocks, returning the ones evicted. -/
def evictCached : ℕ → BlockPool → List BlockId × BlockPool
  | 0, pool => ([], pool)
  | n + 1, pool =>
    match pool.cached with
    | [] => ([], pool)
    | block :: cached =>
      let (out, next) := evictCached n { pool with cached, free := block :: pool.free }
      (block :: out, next)

end BlockPool

end TrtLlm.KvCache
