import TrtLlm.Model.Core.Types

/-! # Mapping KV heads between two tensor-parallel layouts

`Reshard` of `crates/transfer/src/reshard.rs`. No product below exceeds a degree that was checked, so the
source's `u32` arithmetic is the arithmetic of natural numbers here.
-/

namespace TrtLlm.Transfer

/-- The parallel layout on each side of a transfer. -/
structure Reshard where
  numKvHeads : ℕ
  srcTp : ℕ
  dstTp : ℕ
deriving DecidableEq, Repr

structure ReshardEdge where
  head : ℕ
  srcRank : ℕ
  dstRank : ℕ
deriving DecidableEq, Repr

structure ReshardPlan where
  reshard : Reshard
  edges : List ReshardEdge
deriving DecidableEq, Repr

namespace Reshard

def identity (numKvHeads tp : ℕ) : Reshard := ⟨numKvHeads, tp, tp⟩

def isIdentity (layout : Reshard) : Bool := layout.srcTp = layout.dstTp

/-- Heads owned by one rank, or 0 when the head is replicated instead. -/
def headsPerRank (layout : Reshard) (tp : ℕ) : ℕ := if tp = 0 then 0 else layout.numKvHeads / tp

/-- How many ranks each head is replicated across on the destination side. -/
def dstReplication (layout : Reshard) : ℕ :=
  max (if layout.numKvHeads = 0 then 1 else layout.dstTp / layout.numKvHeads) 1

/-- The rank a head is read from. -/
def srcRank (layout : Reshard) (head : ℕ) : ℕ :=
  if layout.srcTp ≤ layout.numKvHeads then head / (layout.numKvHeads / layout.srcTp)
  else head * (layout.srcTp / layout.numKvHeads)

/-- The edges one head contributes: one, or one for each rank it is replicated on. -/
def edgesOf (layout : Reshard) (head : ℕ) : List ReshardEdge :=
  if layout.dstTp ≤ layout.numKvHeads then
    [⟨head, layout.srcRank head, head / (layout.numKvHeads / layout.dstTp)⟩]
  else
    let rep := layout.dstTp / layout.numKvHeads
    (List.range rep).map fun r => ⟨head, layout.srcRank head, head * rep + r⟩

/-- Build the full rank-to-rank plan. -/
def plan (layout : Reshard) : Except Error ReshardPlan :=
  if layout.numKvHeads = 0 ∨ layout.srcTp = 0 ∨ layout.dstTp = 0 then
    .error (.transfer "reshard needs non-zero heads and TP degrees")
  else if layout.numKvHeads < layout.srcTp ∧ layout.srcTp % layout.numKvHeads ≠ 0 then
    .error (.transfer
      ("src TP " ++ toString layout.srcTp ++ " does not divide evenly into " ++ toString layout.numKvHeads ++
        " kv heads"))
  else if layout.numKvHeads < layout.dstTp ∧ layout.dstTp % layout.numKvHeads ≠ 0 then
    .error (.transfer
      ("dst TP " ++ toString layout.dstTp ++ " does not divide evenly into " ++ toString layout.numKvHeads ++
        " kv heads"))
  else .ok ⟨layout, (List.range layout.numKvHeads).flatMap layout.edgesOf⟩

end Reshard

/-- Edges relative to a same-TP transfer. -/
def ReshardPlan.amplification (plan : ReshardPlan) : ℚ := plan.edges.length / max plan.reshard.numKvHeads 1

end TrtLlm.Transfer
