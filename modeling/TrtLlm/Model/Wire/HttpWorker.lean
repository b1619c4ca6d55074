import Mathlib.Algebra.Order.Field.Rat
import TrtLlm.Model.Wire.HttpTransport

/-! # The Python worker's stream

`events` of `scripts/trtllm_dynamo_http_worker.py`: what a worker sends for the results of its engine, and how
`json.dumps` prints it. A cancellation from outside only cuts the frames short and is left out. `repr` is a parameter.
-/

namespace TrtLlm.Wire

/-- What an attribute may hold, as far as the code tells values apart. -/
inductive PyValue where
  | none
  | bool (value : Bool)
  | int (value : ℤ)
  | str (value : String)
  | other
deriving DecidableEq, Repr

/-- One of the `outputs` of a result. -/
structure EngineOutput where
  tokenIdsDiff : List PyValue
  textDiff : PyValue
  finishReason : PyValue

/-- One result of the engine, and whether the client had hung up when it arrived. -/
structure EngineResult where
  disconnected : Bool
  error : Option String
  /-- `none` when `outputs` is not a list. -/
  outputs : Option (List EngineOutput)

/-- What a payload holds. -/
inductive FrameValue where
  | int (value : ℤ)
  | str (value : String)
deriving DecidableEq, Repr

/-- A payload, in the order of its keys. -/
abbrev Payload := List (String × FrameValue)

namespace Payload

def token (token : ℤ) (text : String) : Payload := [("token_id", .int token), ("text", .str text)]

def finish (reason : String) : Payload := [("finish_reason", .str reason)]

def error (message : String) : Payload := [("error", .str message)]

end Payload

/-! ### Frames -/

/-- `_FINISH_REASONS`. -/
def finishReasons : List String := ["eos", "stop", "length", "timeout", "cancelled", "content_filter"]

/-- `_require_int`; its error is the text of the exception. -/
def requireInt (name : String) (minimum : Option ℤ) : PyValue → Except String ℤ
  | .int value =>
    if minimum.any (value < ·) then .error (name ++ " must be at least " ++ toString (minimum.getD 0)) else .ok value
  | _ => .error (name ++ " must be an integer")

/-- The one output of a result, with its text. -/
def EngineResult.output (result : EngineResult) : Except String (EngineOutput × String) :=
  match result.error.filter (· ≠ "") with
  | some error => .error ("TensorRT-LLM generation failed: " ++ error)
  | none =>
    match result.outputs with
    | some [output] =>
      match output.textDiff with
      | .str text => .ok (output, text)
      | _ => .error "TensorRT-LLM output text_diff must be a string"
    | _ => .error "TensorRT-LLM response must contain exactly one output"

/-- The frames of the token ids of one delta; the last one carries the text. The loop stops at the first bad id. -/
def tokenFrames (text : String) : List PyValue → List Payload × Option String
  | [] => ([], none)
  | id :: ids =>
    match requireInt "TensorRT-LLM token_id" (some 0) id with
    | .error message => ([], some message)
    | .ok token =>
      let (frames, failed) := tokenFrames text ids
      (.token token (if ids = [] then text else "") :: frames, failed)

def unsupported (repr : PyValue → String) (reason : PyValue) : Payload :=
  .error ("unsupported TensorRT-LLM finish_reason: " ++ repr reason)

/-- The payloads sent for what the engine yields: results, and perhaps the text of an exception. -/
def events (repr : PyValue → String) : List (Except String EngineResult) → List Payload
  | [] => [.error "TensorRT-LLM stream ended without a finish_reason"]
  | .error exception :: _ => [.error exception]
  | .ok result :: results =>
    if result.disconnected then []
    else
      match result.output with
      | .error message => [.error message]
      | .ok (output, text) =>
        let (frames, failed) := tokenFrames text output.tokenIdsDiff
        frames ++
          match failed with
          | some message => [.error message]
          | none =>
            match output.finishReason with
            | .none => events repr results
            | .str reason => if reason ∈ finishReasons then [.finish reason] else [unsupported repr (.str reason)]
            | reason => [unsupported repr reason]

/-! ### Printing -/

/-- How `json.dumps` writes a character of a string with `ensure_ascii=False`. -/
def escapeChar (c : Char) : List Char :=
  if c = '"' then ['\\', '"']
  else if c = '\\' then ['\\', '\\']
  else if c = '\n' then ['\\', 'n']
  else if c = '\r' then ['\\', 'r']
  else if c = '\t' then ['\\', 't']
  else if c.toNat = 12 then ['\\', 'f']
  else if c.toNat = 8 then ['\\', 'b']
  else if c.toNat < 32 then ['\\', 'u', '0', '0', Nat.digitChar (c.toNat / 16), Nat.digitChar (c.toNat % 16)]
  else [c]

def dumpsStr (text : String) : List Char := '"' :: text.toList.flatMap escapeChar ++ ['"']

def FrameValue.dumps : FrameValue → List Char
  | .int value => (toString value).toList
  | .str value => dumpsStr value

/-- `json.dumps(payload, ensure_ascii=False, separators=(',', ':'))`. -/
def dumps (payload : Payload) : List Char :=
  '{' :: [','].intercalate (payload.map fun field => dumpsStr field.1 ++ ':' :: field.2.dumps) ++ ['}']

/-- `_sse`. -/
def sse (payload : Payload) : List Char := "data: ".toList ++ dumps payload ++ ['\n', '\n']

/-- The value the printed payload stands for. -/
def FrameValue.toJson : FrameValue → Json
  | .int value => .number (if 0 ≤ value ∧ value < 2 ^ 64 then some value.toNat else none)
  | .str value => .string value

def toJson (payload : Payload) : Json := .object (payload.map fun field => (field.1, field.2.toJson))

end TrtLlm.Wire
