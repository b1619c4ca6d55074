import Mathlib.Data.List.Destutter
import Mathlib.Data.List.ProdSigma
import Mathlib.Data.List.Sort
import TrtLlm.Model.Core.Capacity
import TrtLlm.Model.Raw.Capacity

/-! # The search for topologies

`CapacityModel::search` of `crates/core/src/capacity.rs` and the memory check that it filters by. A search that panics,
or goes round for ever, is `none`.
-/

namespace TrtLlm.Raw

open Capacity (Role)

/-! ### Topologies -/

/-- The sizes of both pools and the degrees of their workers. -/
structure Topology where
  prefillGpus : UInt32
  decodeGpus : UInt32
  prefillTp : UInt32
  decodeTp : UInt32
deriving DecidableEq, Repr

namespace PdSplit

def topology (split : PdSplit) : Topology :=
  ⟨split.prefillGpus, split.decodeGpus, split.prefillTp, split.decodeTp⟩

/-- The order of `sort_by`: more goodput comes first, and of equal goodput, more slack. -/
def Before (a b : PdSplit) : Prop :=
  totalKey b.goodputReqS < totalKey a.goodputReqS ∨
    totalKey b.goodputReqS = totalKey a.goodputReqS ∧
      totalKey (b.prefillReqS + b.decodeReqS) ≤ totalKey (a.prefillReqS + a.decodeReqS)

instance : DecidableRel Before := fun _ _ => inferInstanceAs (Decidable (_ ∨ _))

end PdSplit

namespace CapacityModel

/-- `CapacityModel::default`. -/
def default : CapacityModel where
  isl := 4000
  osl := 200
  slo := {}
  prefill := {}
  decode := {}
  goodFrac := 0.93
  itlSafety := 1
  kvBytesPerToken := 2 * 94 * 4 * 128
  kvXferGibS := 2.1
  xferConcurrency := 16
  weightsGib := 220.2
  gpuGib := 131
  kvDtypeBytes := 1
  kvHeads := 4
  maxNumTokens := 16384
  activationGib := 12
  decodeResidentTokens := 128 * 4608

/-! ### Memory of a rank -/

/-- KV bytes one rank holds per token; the heads cap the split. -/
def kvBytesPerTokenPerRank (model : CapacityModel) (tp : UInt32) : Float :=
  let shards := (min (max tp 1) (max model.kvHeads 1)).toFloat
  model.kvBytesPerToken * model.kvDtypeBytes / shards

/-- Memory a rank needs beyond its weight shard, GiB. -/
def neededGibPerRank (model : CapacityModel) (tp : UInt32) (role : Role) : Float :=
  let perToken := model.kvBytesPerTokenPerRank tp
  let tokens : UInt32 := match role with
    | .prefill => model.maxNumTokens
    | .decode => model.decodeResidentTokens
  model.activationGib + perToken * tokens.toFloat / (1024 * 1024 * 1024)

/-- GiB left on a rank after its share of the weights. -/
def freeGibPerRank (model : CapacityModel) (tp : UInt32) : Float := model.gpuGib - model.weightsGib / (max tp 1).toFloat

/-- Whether a rank has room for its role. -/
def fits (model : CapacityModel) (tp : UInt32) (role : Role) : Prop :=
  model.neededGibPerRank tp role ≤ model.freeGibPerRank tp

instance (model : CapacityModel) (tp : UInt32) (role : Role) : Decidable (model.fits tp role) :=
  inferInstanceAs (Decidable (_ ≤ _))

/-! ### The search -/

section Search

variable (profile : Profile) (model : CapacityModel) (totalGpus : UInt32)

/-- What one round of the loop adds. -/
def splitHere (ptp dtp p : UInt32) : Option (List PdSplit) :=
  let d := totalGpus - p
  if d % dtp = 0 ∧ p % ptp = 0 then (model.evaluate profile p d ptp dtp).map fun split => [split] else some []

/-- The loop of one pair of degrees, from `p` prefill GPUs on. The next `p` depends on `p` alone, so a loop that is
still running after as many rounds as there are values never ends. -/
def splitsFrom (ptp dtp : UInt32) : ℕ → UInt32 → Option (List PdSplit)
  | 0, _ => none
  | rounds + 1, p => do
    let used ← profile.add p dtp
    if used ≤ totalGpus then
      let here ← splitHere profile model totalGpus ptp dtp p
      let next ← profile.add p ptp
      let rest ← splitsFrom ptp dtp rounds next
      some (here ++ rest)
    else some []

/-- The splits of one pair of degrees: none for a degree of 0 or one whose ranks lack the memory. -/
def splitsOf (ptp dtp : UInt32) : Option (List PdSplit) :=
  if ptp = 0 ∨ dtp = 0 then some []
  else if ¬model.fits ptp .prefill ∨ ¬model.fits dtp .decode then some []
  else splitsFrom profile model totalGpus ptp dtp (2 ^ 32) ptp

/-- Every topology that fits, best first; repeats of the neighbour are dropped. -/
def search (prefillTps decodeTps : List UInt32) : Option (List PdSplit) := do
  let out ← (prefillTps ×ˢ decodeTps).mapM fun (ptp, dtp) => splitsOf profile model totalGpus ptp dtp
  some ((out.flatten.insertionSort PdSplit.Before).destutter fun a b => a.topology ≠ b.topology)

end Search

end CapacityModel

end TrtLlm.Raw
