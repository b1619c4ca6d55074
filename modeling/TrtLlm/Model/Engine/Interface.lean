import TrtLlm.Model.Core.Types

/-! # What crosses the engine boundary

The argument and result types of the `Engine` trait in `crates/engine/src/lib.rs`. An engine itself is
not a value here: where a worker calls one, its answer is an input of the worker's step.
-/

namespace TrtLlm.Engine

/-- One sequence's slice of a prefill batch, resolved down to real tokens and pages. -/
structure PrefillChunkSpec where
  id : RequestId
  tokens : List TokenId
  start : ℕ
  promptLen : ℕ
  completes : Bool
  kvBlocks : List BlockId
deriving DecidableEq, Repr

/-- The argument of one `prefill` call. -/
abbrev PrefillWork := List PrefillChunkSpec

namespace PrefillWork

def totalTokens (work : PrefillWork) : ℕ := (work.map (·.tokens.length)).sum

end PrefillWork

/-- `firstTokens` holds the first sampled token of each sequence whose prefill completed. -/
structure PrefillOutcome where
  elapsedMs : Millis
  firstTokens : List (RequestId × TokenId)
deriving DecidableEq, Repr

/-- A sequence being handed to a decode engine, with its KV already in place. -/
structure DecodeSeqSpec where
  id : RequestId
  promptLen : ℕ
  firstToken : TokenId
  maxTokens : ℕ
  kvBlocks : List BlockId
deriving DecidableEq, Repr

structure DecodeStepOutcome where
  elapsedMs : Millis := 0
  tokens : List (RequestId × TokenId) := []
  finished : List RequestId := []
deriving DecidableEq, Repr

end TrtLlm.Engine
