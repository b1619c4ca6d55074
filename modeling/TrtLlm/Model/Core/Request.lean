import Mathlib.Algebra.Order.Field.Rat
import TrtLlm.Model.Core.Types

/-! # Requests, objectives and outcomes

`Request` and `RequestOutcome` of `crates/core/src/request.rs` and `Slo` of `crates/core/src/slo.rs`, with the
fields the modeled functions read.
-/

namespace TrtLlm

/-- The service-level objective a request is judged against. -/
structure Slo where
  ttftMs : Millis
  itlMs : Millis
  goodFracTarget : ℚ
deriving DecidableEq, Repr

/-- Why a request was or was not counted as good. -/
inductive Verdict where
  | good
  | lateFirstToken
  | slowTokens
  | lateAndSlow
  | incomplete
deriving DecidableEq, Repr

/-- One inference request as the control plane sees it. -/
structure Request where
  id : RequestId
  prompt : List TokenId
  maxTokens : ℕ
  arrivalMs : Millis
deriving DecidableEq, Repr

def Request.promptLen (request : Request) : ℕ := request.prompt.length

/-- Everything needed to score one finished request. -/
structure RequestOutcome where
  id : RequestId
  arrivalMs : Millis
  firstTokenMs : Millis
  lastTokenMs : Millis
  promptTokens : ℕ
  outputTokens : ℕ
  requestedTokens : ℕ
deriving DecidableEq, Repr

namespace RequestOutcome

def ttftMs (outcome : RequestOutcome) : Millis := outcome.firstTokenMs - outcome.arrivalMs

/-- The gap between the first and the last token divided by the number of gaps. -/
def meanItlMs (outcome : RequestOutcome) : Millis :=
  if outcome.outputTokens ≤ 1 then 0
  else (outcome.lastTokenMs - outcome.firstTokenMs) / (outcome.outputTokens - 1 : ℕ)

def verdict (outcome : RequestOutcome) (slo : Slo) : Verdict :=
  if outcome.outputTokens < outcome.requestedTokens then .incomplete
  else
    match decide (slo.ttftMs < outcome.ttftMs), decide (slo.itlMs < outcome.meanItlMs) with
    | false, false => .good
    | true, false => .lateFirstToken
    | false, true => .slowTokens
    | true, true => .lateAndSlow

end RequestOutcome

end TrtLlm
