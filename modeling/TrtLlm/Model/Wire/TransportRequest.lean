import TrtLlm.Model.Core.Request

/-! # The request body

`SamplingParams` of `crates/core/src/request.rs` and `TransportRequest` of `crates/wire/src/transport.rs`, with the JSON
value that `serde` makes of them. An `f32` or `f64` is an exact rational, an infinity or NaN; the rounding of its
decimal spelling is left out. A JSON document is the value it spells.
-/

namespace TrtLlm.Wire

/-- An `f32`, or an `f64`, or a Python `float`. -/
inductive FloatValue where
  | finite (value : ℚ)
  | infinite (negative : Bool)
  | nan
deriving DecidableEq, Repr

/-- A JSON document. The keys of an object are distinct. -/
inductive JsonValue where
  | null
  | bool (value : Bool)
  | int (value : ℤ)
  | float (value : FloatValue)
  | str (value : String)
  | list (items : List JsonValue)
  | object (fields : List (String × JsonValue))

/-- `serde_json::Map<String, Value>`, and the mapping Python reads from an object. -/
abbrev JsonFields := List (String × JsonValue)

namespace JsonFields

/-- `extra.insert(key, value)` under `if let Some(value)`. No key is inserted twice. -/
def insertSome (key : String) (value : Option JsonValue) (fields : JsonFields) : JsonFields :=
  match value with
  | some value => fields ++ [(key, value)]
  | none => fields

end JsonFields

/-- How `serde_json` writes a float: one that is not finite becomes `null`. -/
def FloatValue.toJson : FloatValue → JsonValue
  | .finite value => .float (.finite value)
  | _ => .null

def tokensToJson (tokens : List TokenId) : JsonValue := .list (tokens.map fun token : TokenId => .int token)

/-- Sampling parameters carried end to end. Anything backend specific travels in `extra`. -/
structure SamplingParams where
  maxTokens : ℕ
  temperature : FloatValue
  topP : FloatValue
  topK : ℤ
  ignoreEos : Bool
  seed : Option ℕ
  extra : JsonFields

namespace SamplingParams

open JsonFields

/-- `seed` is skipped when absent and `extra` when empty. -/
def fields (params : SamplingParams) : JsonFields :=
  [("max_tokens", .int params.maxTokens), ("temperature", params.temperature.toJson), ("top_p", params.topP.toJson),
    ("top_k", .int params.topK), ("ignore_eos", .bool params.ignoreEos)]
  |> insertSome "seed" (params.seed.map fun seed : ℕ => .int seed)
  |> insertSome "extra" (if params.extra.isEmpty then none else some (.object params.extra))

def toJson (params : SamplingParams) : JsonValue := .object params.fields

end SamplingParams

/-- A `Request` with all of its parameters; `Request` itself keeps only `max_tokens` of them. -/
structure SampledRequest extends Request where
  params : SamplingParams

/-- The request payload expected by a Python worker. -/
structure TransportRequest where
  requestId : String
  promptTokenIds : List TokenId
  sampling : SamplingParams

/-- `RequestId`'s `Display`. -/
def showRequestId (id : RequestId) : String := "req-" ++ toString id

namespace TransportRequest

def fromRequest (request : SampledRequest) : TransportRequest where
  requestId := showRequestId request.id
  promptTokenIds := request.prompt
  sampling := request.params

def toJson (request : TransportRequest) : JsonValue :=
  .object [("request_id", .str request.requestId), ("prompt_token_ids", tokensToJson request.promptTokenIds),
    ("sampling", request.sampling.toJson)]

end TransportRequest

end TrtLlm.Wire
