import Mathlib.Data.Rat.Defs
import Mathlib.Algebra.Order.Ring.Rat
import TrtLlm.Model.Core.Types

/-! # The router's prefix index

`RadixIndex` of `crates/kvcache/src/radix.rs`: a radix tree stored in one vector of nodes, node 0 the root.
An index outside the vector panics in the source and reads a blank node here; well-formedness shows
that it never happens. The two loops of the source take a bound on their rounds here: `insert` uses up
at least one token per round and `prune` one node.
-/

namespace TrtLlm.KvCache

structure Node where
  /-- Tokens on the edge from the parent into this node. -/
  edge : List TokenId
  children : HashMap TokenId ℕ
  workers : List WorkerId
  lastAccessMs : Millis
deriving DecidableEq

namespace Node

def new (edge : List TokenId) (now : Millis) : Node := ⟨edge, ∅, [], now⟩

def touch (node : Node) (worker : WorkerId) (now : Millis) : Node :=
  { node with
    lastAccessMs := now
    workers := if worker ∈ node.workers then node.workers else node.workers ++ [worker] }

end Node

/-- How many leading tokens two strings share. -/
def commonPrefixLen : List TokenId → List TokenId → ℕ
  | x :: a, y :: b => if x = y then commonPrefixLen a b + 1 else 0
  | _, _ => 0

structure RadixIndex where
  nodes : List Node
  minPrefixTokens : ℕ
  maxNodes : ℕ
deriving DecidableEq

namespace RadixIndex

def new (minPrefixTokens maxNodes : ℕ) : RadixIndex where
  nodes := [Node.new [] 0]
  minPrefixTokens
  maxNodes := max maxNodes 1

def nodeCount (index : RadixIndex) : ℕ := index.nodes.length

def node (index : RadixIndex) (i : ℕ) : Node := index.nodes.getD i (Node.new [] 0)

def modify (index : RadixIndex) (i : ℕ) (f : Node → Node) : RadixIndex :=
  { index with nodes := index.nodes.modify i f }

def push (index : RadixIndex) (node : Node) : RadixIndex :=
  { index with nodes := index.nodes ++ [node] }

def clear (index : RadixIndex) : RadixIndex := { index with nodes := [Node.new [] 0] }

/-- Split `child`'s edge after `cut` tokens; the tail goes to a new node that inherits the children
and the worker set. -/
def split (index : RadixIndex) (child cut : ℕ) (now : Millis) : RadixIndex :=
  let old := index.node child
  let tail : Node := { Node.new (old.edge.drop cut) now with children := old.children, workers := old.workers }
  let pushed := (index.modify child fun node => { node with children := ∅ }).push tail
  pushed.modify child fun node =>
    { node with
      edge := node.edge.take cut
      children := node.children.insert ((old.edge.drop cut).headD 0) index.nodes.length }

/-- Hang a new leaf with the rest of the string below `cur`. -/
def addLeaf (index : RadixIndex) (worker : WorkerId) (now : Millis) (cur : ℕ) (tokens : List TokenId) :
    RadixIndex :=
  let pushed := index.push ((Node.new tokens now).touch worker now)
  pushed.modify cur fun node =>
    { node with children := node.children.insert (tokens.headD 0) index.nodes.length }

/-- The loop of `insert`; `tokens` is what is left of the string below `cur`. -/
def insertLoop (worker : WorkerId) (now : Millis) : ℕ → ℕ → List TokenId → RadixIndex → RadixIndex
  | 0, _, _, index => index
  | _ + 1, _, [], index => index
  | rounds + 1, cur, first :: tokens, index =>
    match (index.node cur).children.lookup first with
    | none => index.addLeaf worker now cur (first :: tokens)
    | some child =>
      let common := commonPrefixLen (index.node child).edge (first :: tokens)
      let parted := if common < (index.node child).edge.length then index.split child common now else index
      insertLoop worker now rounds child ((first :: tokens).drop common)
        (parted.modify child (·.touch worker now))

/-- Whether `insert` turns the string away without a trace. -/
def rejects (index : RadixIndex) (tokens : List TokenId) : Prop :=
  tokens.length < index.minPrefixTokens ∨ index.maxNodes ≤ index.nodes.length

instance (index : RadixIndex) (tokens : List TokenId) : Decidable (index.rejects tokens) :=
  inferInstanceAs (Decidable (_ ∨ _))

/-- Record that `worker` has computed the KV for `tokens`. -/
def insert (index : RadixIndex) (worker : WorkerId) (tokens : List TokenId) (now : Millis) : RadixIndex :=
  if index.rejects tokens then index
  else insertLoop worker now tokens.length 0 tokens (index.modify 0 (·.touch worker now))

/-- Credit every listed worker with at least `matched` tokens. -/
def record (out : HashMap WorkerId ℕ) (workers : List WorkerId) (matched : ℕ) : HashMap WorkerId ℕ :=
  workers.foldl (fun out worker => out.insert worker (max ((out.lookup worker).getD 0) matched)) out

/-- The loop of `match_workers`; `tokens` is what is left of the query below `cur`. -/
def matchLoop (index : RadixIndex) : ℕ → ℕ → ℕ → List TokenId → HashMap WorkerId ℕ → HashMap WorkerId ℕ
  | 0, cur, matched, _, out => record out (index.node cur).workers matched
  | _ + 1, cur, matched, [], out => record out (index.node cur).workers matched
  | rounds + 1, cur, matched, first :: tokens, out =>
    let out := record out (index.node cur).workers matched
    match (index.node cur).children.lookup first with
    | none => out
    | some child =>
      let common := commonPrefixLen (index.node child).edge (first :: tokens)
      if common < (index.node child).edge.length then
        record out (index.node child).workers (matched + common)
      else matchLoop index rounds child (matched + common) ((first :: tokens).drop common) out

/-- For every worker in the index, the longest prefix of `tokens` it holds. -/
def matchWorkers (index : RadixIndex) (tokens : List TokenId) : HashMap WorkerId ℕ :=
  matchLoop index tokens.length 0 0 tokens ∅

/-- Longest prefix of `tokens` held by `worker`, in tokens. -/
def matchWorker (index : RadixIndex) (worker : WorkerId) (tokens : List TokenId) : ℕ :=
  ((index.matchWorkers tokens).lookup worker).getD 0

/-- Drop a worker's membership everywhere; nodes are kept. -/
def forgetWorker (index : RadixIndex) (worker : WorkerId) : RadixIndex :=
  { index with
    nodes := index.nodes.map fun node => { node with workers := node.workers.filter (· ≠ worker) } }

/-- The first entry that points at `target`. -/
def findParent (index : RadixIndex) (target : ℕ) : Option (ℕ × TokenId) :=
  (List.range index.nodes.length).findSome? fun i =>
    ((index.node i).children.entries.find? fun entry => entry.2 = target).map fun entry => (i, entry.1)

def removeChild (index : RadixIndex) (parent : ℕ) (key : TokenId) : RadixIndex :=
  index.modify parent fun node => { node with children := node.children.erase key }

def setChild (index : RadixIndex) (parent : ℕ) (key : TokenId) (target : ℕ) : RadixIndex :=
  index.modify parent fun node => { node with children := node.children.insert key target }

/-- Unlink a node from its parent. -/
def unlink (index : RadixIndex) (victim : ℕ) : RadixIndex :=
  match index.findParent victim with
  | some (parent, key) => index.removeChild parent key
  | none => index

/-- Point the one entry for the last node at its new position. -/
def relink (index : RadixIndex) (last victim : ℕ) : RadixIndex :=
  match index.findParent last with
  | some (parent, key) => index.setChild parent key victim
  | none => index

/-- Remove a leaf by moving the last node into its slot; `swap` and `pop` are done together. -/
def detach (index : RadixIndex) (victim : ℕ) : RadixIndex :=
  let unlinked := index.unlink victim
  let last := unlinked.nodes.length - 1
  if victim ≠ last then
    let relinked := unlinked.relink last victim
    { relinked with nodes := (relinked.nodes.set victim (relinked.node last)).dropLast }
  else { unlinked with nodes := unlinked.nodes.dropLast }

/-- The first leaf untouched for longer than `ttlMs`. -/
def staleLeaf (index : RadixIndex) (now ttlMs : Millis) : Option ℕ :=
  (List.range index.nodes.length).find? fun i =>
    i ≠ 0 ∧ (index.node i).children.entries = [] ∧ ttlMs < now - (index.node i).lastAccessMs

def pruneLoop (now ttlMs : Millis) : ℕ → RadixIndex → ℕ × RadixIndex
  | 0, index => (0, index)
  | rounds + 1, index =>
    match index.staleLeaf now ttlMs with
    | none => (0, index)
    | some victim =>
      let (removed, pruned) := pruneLoop now ttlMs rounds (index.detach victim)
      (removed + 1, pruned)

/-- Drop leaves untouched for longer than `ttlMs`, and count them. -/
def prune (index : RadixIndex) (now ttlMs : Millis) : ℕ × RadixIndex :=
  pruneLoop now ttlMs index.nodes.length index

end RadixIndex

end TrtLlm.KvCache
