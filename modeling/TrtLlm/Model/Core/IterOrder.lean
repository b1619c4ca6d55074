import Mathlib.Data.List.AList
import TrtLlm.Model.Core.Types

/-! # Iteration order of hash maps

A `HashMap` is iterated in an order that differs from process to process. One iteration is given its order as an
input: a rearrangement of the entries, which is applied to the map before a function iterates it.
-/

namespace TrtLlm

/-- The order in which one iteration visits the entries it is given. -/
structure IterOrder where
  arrange : {α : Type} → List α → List α
  perm : ∀ {α : Type} (entries : List α), (arrange entries).Perm entries

namespace IterOrder

/-- The order in which the entries are stored. -/
def stored : IterOrder := ⟨fun entries => entries, fun entries => .refl entries⟩

end IterOrder

namespace HashMap

variable {κ ν : Type}

/-- The same map, with its entries in the order an iteration finds them. -/
def rehash (order : IterOrder) (map : HashMap κ ν) : HashMap κ ν where
  entries := order.arrange map.entries
  nodupKeys := ((order.perm map.entries).map Sigma.fst).nodup_iff.mpr map.nodupKeys

theorem rehash_perm (order : IterOrder) (map : HashMap κ ν) : (rehash order map).entries.Perm map.entries :=
  order.perm map.entries

end HashMap

end TrtLlm
