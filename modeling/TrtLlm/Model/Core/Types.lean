import Mathlib.Algebra.GroupWithZero.Nat
import Mathlib.Data.List.AList
import Mathlib.Data.Rat.Defs

/-! # Identifiers, time and maps

The newtypes of `crates/core` over machine words are natural numbers here. `Millis` and every
other `f64` is an exact rational; the few places where the source uses `f64::INFINITY` carry it
in their own types. A `HashMap` is an association list with distinct keys. Nothing in the model
may depend on the order of its entries: where the source iterates a map and the order can be
observed, the order is an input.
-/

namespace TrtLlm

/-- `RequestId(u64)`. -/
abbrev RequestId := ℕ

/-- `TokenId = u32`. -/
abbrev TokenId := ℕ

/-- `WorkerId(u32)`. -/
abbrev WorkerId := ℕ

/-- `BlockId(u32)`: the index of one KV page in a worker's pool. -/
abbrev BlockId := ℕ

/-- `Millis = f64`, as an exact rational. -/
abbrev Millis := ℚ

/-- Finite maps with distinct keys. -/
abbrev HashMap (κ ν : Type*) := AList (fun _ : κ => ν)

/-- The errors of `crates/core/src/error.rs` that the modeled functions return. -/
inductive Error where
  | kvExhausted (needed free : ℕ)
  | rejected (id : RequestId) (reason : String)
  | engine (message : String)
  | transfer (message : String)
  | config (message : String)
deriving DecidableEq, Repr

end TrtLlm
