import Mathlib.Tactic.Linarith
import Mathlib.Tactic.NormNum
import TrtLlm.Model.Core.Capacity
import TrtLlm.Model.Raw.Number

/-! # The memory check and the busiest decode worker

The check reserves the rounded-down share of the concurrency for a decode worker, in wrapping arithmetic. The busiest
worker has the rounded-up share. The check covers it whatever the memory of a GPU exactly when the two reservations
agree, or tokens take no memory.
-/

namespace TrtLlm.Capacity

/-! ### Shares -/

namespace CapacityModel

end CapacityModel

namespace Config

variable {cfg : Config}

/-- Tokens that the busiest decode worker reserves: its share of the concurrency, rounded up. -/
def busiestTokens (cfg : Config) : ℕ :=
  let workers := cfg.topology.decodeWorkers.toNat
  (cfg.workload.concurrency.toNat + workers - 1) / workers * cfg.workload.maxSeqLen.toNat

/-- A rank of the busiest decode worker has room. -/
def BusiestFits (cfg : Config) : Prop :=
  cfg.capacityModel.activationGib +
      cfg.capacityModel.kvBytesPerTokenPerRank cfg.topology.decodeTp * cfg.busiestTokens / 2 ^ 30 ≤
    cfg.capacityModel.freeGibPerRank cfg.topology.decodeTp

/-- The check covers the busiest decode worker. -/
def Covered (cfg : Config) : Prop := cfg.capacityModel.fits cfg.topology.decodeTp .decode → cfg.BusiestFits

/-- The default configuration with 1239 sequences. -/
def uneven : Config where
  model := ⟨94, 4, 128, 2202 / 10⟩
  workload := ⟨1239, 16384, 4608⟩
  topology := ⟨2, 4, 131, 1, 12⟩

end Config

end TrtLlm.Capacity
