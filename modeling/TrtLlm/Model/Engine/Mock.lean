import TrtLlm.Model.Engine.Interface

/-! # The mock engine

`MockEngine` of `crates/engine/src/mock.rs`. The cost model only decides how long a call takes, so the
elapsed time is an argument here, and the order in which `decode_step` visits its map is one too.
-/

namespace TrtLlm.Engine

structure MockSeq where
  spec : DecodeSeqSpec
  emitted : ℕ
deriving DecidableEq, Repr

structure MockEngine where
  decode : HashMap RequestId MockSeq
deriving DecidableEq

/-- Deterministic stand-in for a sampled token: wrapping arithmetic on `u64`, then its upper half. -/
def fakeToken (id : RequestId) (position : ℕ) : TokenId :=
  (id * 0x9E3779B97F4A7C15 + position) % 2 ^ 64 / 2 ^ 32 % 150000

namespace MockEngine

def new : MockEngine := ⟨∅⟩

/-- `prefill` samples a first token for every chunk that completes its prompt and never fails. -/
def prefill (elapsedMs : Millis) (work : PrefillWork) : PrefillOutcome :=
  ⟨elapsedMs, (work.filter (·.completes)).map fun spec => (spec.id, fakeToken spec.id 0)⟩

def addDecodeSeq (engine : MockEngine) (spec : DecodeSeqSpec) : MockEngine :=
  ⟨engine.decode.insert spec.id ⟨spec, 1⟩⟩

/-- One iteration of `decode_step`'s loop over its map. -/
def visit (state : DecodeStepOutcome × MockEngine) (id : RequestId) : DecodeStepOutcome × MockEngine :=
  match state.2.decode.lookup id with
  | none => state
  | some seq =>
    let next : MockSeq := { seq with emitted := seq.emitted + 1 }
    ({ state.1 with
        tokens := state.1.tokens ++ [(next.spec.id, fakeToken next.spec.id next.emitted)]
        finished := if next.spec.maxTokens ≤ next.emitted then state.1.finished ++ [next.spec.id]
          else state.1.finished },
      ⟨state.2.decode.insert id next⟩)

def removeSeq (engine : MockEngine) (id : RequestId) : MockEngine := ⟨engine.decode.erase id⟩

/-- `decode_step` over the attached sequences, visited in the order `arrange` puts them. -/
def decodeStep (engine : MockEngine) (arrange : List RequestId → List RequestId) (elapsedMs : Millis) :
    DecodeStepOutcome × MockEngine :=
  if engine.decode.entries = [] then ({}, engine)
  else
    let visited := (arrange engine.decode.keys).foldl visit ({ elapsedMs }, engine)
    (visited.1, visited.1.finished.foldl removeSeq visited.2)

end MockEngine

end TrtLlm.Engine
