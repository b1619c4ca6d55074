import Mathlib.Data.List.Sort
import TrtLlm.Model.Wire.HttpTransport
import TrtLlm.Model.Wire.TransportRequest

/-! # The Python worker's request contract

`_parse_request` and `_sampling_params` of `scripts/trtllm_dynamo_http_worker.py` with the checks they are made of, and
`generate` up to the start of its stream. The two classes of the runtime that take the result of parsing are left out:
what is returned is what they are called with.
-/

namespace TrtLlm.Wire

/-- What parsing raises: a `ProtocolError`, or the `OverflowError` of `float` on a large integer. -/
inductive RequestError where
  | protocolError (code message : String)
  | overflowError
deriving DecidableEq, Repr

namespace RequestError

def invalid (message : String) : RequestError := .protocolError "invalid_request" message

end RequestError

/-- `_REQUEST_FIELDS`. -/
def requestFields : List String := ["request_id", "prompt_token_ids", "sampling"]

/-- `_SAMPLING_FIELDS`. -/
def samplingFields : List String := ["max_tokens", "temperature", "top_p", "top_k", "ignore_eos", "seed", "extra"]

/-- `_EXTRA_FIELDS`. -/
def extraFields : List String :=
  ["min_tokens", "stop", "stop_token_ids", "include_stop_str_in_output", "min_p", "thinking_token_budget",
    "repetition_penalty", "presence_penalty", "frequency_penalty", "skip_special_tokens",
    "spaces_between_special_tokens"]

/-- The fields `_sampling_params` requires. -/
def requiredSampling : List String := ["max_tokens", "temperature", "top_p", "top_k", "ignore_eos"]

/-! ### Checks of one value -/

namespace FloatValue

/-- `value < bound`; NaN is below nothing. -/
def below (value : FloatValue) (bound : ℤ) : Bool :=
  match value with
  | .finite value => value < bound
  | .infinite negative => negative
  | .nan => false

/-- `value > bound`. -/
def above (value : FloatValue) (bound : ℤ) : Bool :=
  match value with
  | .finite value => (bound : ℚ) < value
  | .infinite negative => !negative
  | .nan => false

end FloatValue

/-- The least integer that no `float` is nearest to: half way to the power of two after the largest one. -/
def floatLimit : ℕ := 2 ^ 1024 - 2 ^ 970

/-- `float(value)`. -/
def floatOfInt (value : ℤ) : Except RequestError FloatValue :=
  if value.natAbs < floatLimit then .ok (.finite value) else .error .overflowError

/-- The text of a whole `float`. -/
def showWhole (bound : ℤ) : String := toString bound ++ ".0"

namespace JsonValue

/-- `_require_object`. -/
def requireObject (name : String) : JsonValue → Except RequestError JsonFields
  | .object fields => .ok fields
  | _ => .error (.invalid (name ++ " must be an object"))

/-- `_require_int`. -/
def requireInt (name : String) (minimum : Option ℤ) : JsonValue → Except RequestError ℤ
  | .int value =>
    if minimum.any (value < ·) then .error (.invalid (name ++ " must be at least " ++ toString (minimum.getD 0)))
    else .ok value
  | _ => .error (.invalid (name ++ " must be an integer"))

def checkRange (name : String) (minimum maximum : Option ℤ) (value : FloatValue) : Except RequestError FloatValue :=
  if minimum.any value.below then .error (.invalid (name ++ " must be at least " ++ showWhole (minimum.getD 0)))
  else if maximum.any value.above then .error (.invalid (name ++ " must be at most " ++ showWhole (maximum.getD 0)))
  else .ok value

/-- `_require_number`; the bounds its callers pass are whole. -/
def requireNumber (name : String) (minimum maximum : Option ℤ) : JsonValue → Except RequestError FloatValue
  | .int value => floatOfInt value >>= checkRange name minimum maximum
  | .float value => checkRange name minimum maximum value
  | _ => .error (.invalid (name ++ " must be a number"))

def requireBool (name : String) : JsonValue → Except RequestError Bool
  | .bool value => .ok value
  | _ => .error (.invalid (name ++ " must be a boolean"))

def isStr : JsonValue → Bool
  | .str _ => true
  | _ => false

/-- The `stop` control: one string or several. -/
def requireStop : JsonValue → Except RequestError JsonValue
  | .str value => .ok (.str value)
  | .list items =>
    if items.all isStr then .ok (.list items)
    else .error (.invalid "sampling.extra.stop must be a string or list of strings")
  | _ => .error (.invalid "sampling.extra.stop must be a string or list of strings")

/-- A list of token ids, each checked under the name of the list followed by brackets. -/
def requireTokens (name : String) : JsonValue → Except RequestError (List ℤ)
  | .list items => items.mapM (requireInt (name ++ "[]") (some 0))
  | _ => .error (.invalid (name ++ " must be a list"))

end JsonValue

/-! ### Checks of a mapping -/

/-- The keys that are not allowed, sorted. -/
def unknownFields (allowed : List String) (mapping : JsonFields) : List String :=
  ((mapping.map Prod.fst).filter (· ∉ allowed)).insertionSort fun a b => ¬ b < a

/-- `_reject_unknown`. -/
def rejectUnknown (allowed : List String) (name code : String) (mapping : JsonFields) : Except RequestError Unit :=
  if unknownFields allowed mapping = [] then .ok ()
  else .error (.protocolError code ("unsupported " ++ name ++ ": " ++ ", ".intercalate (unknownFields allowed mapping)))

/-- The required keys that are missing, sorted. -/
def missingFields (required : List String) (mapping : JsonFields) : List String :=
  (required.filter fun key => (mapping.lookup key).isNone).insertionSort fun a b => ¬ b < a

def rejectMissing (required : List String) (name : String) (mapping : JsonFields) : Except RequestError Unit :=
  if missingFields required mapping = [] then .ok ()
  else .error (.invalid (name ++ " is missing: " ++ ", ".intercalate (missingFields required mapping)))

/-- `mapping[key]`, which the check for missing keys has made safe. -/
def field (mapping : JsonFields) (key : String) : JsonValue := (mapping.lookup key).getD .null

/-! ### Sampling parameters -/

/-- Keyword arguments, in the order they are set. -/
abbrev Kwargs := List (String × JsonValue)

/-- One optional control: its key and how its value is checked and passed on. -/
abbrev Control := String × (JsonValue → Except RequestError JsonValue)

namespace Control

def int (key name : String) : Control :=
  (key, fun value => .int <$> value.requireInt name (some 0))

def number (key name : String) (minimum maximum : Option ℤ) : Control :=
  (key, fun value => .float <$> value.requireNumber name minimum maximum)

def bool (key name : String) : Control :=
  (key, fun value => .bool <$> value.requireBool name)

/-- `if key in mapping: kwargs[key] = check(mapping[key])`. -/
def copy (mapping : JsonFields) (control : Control) : Except RequestError Kwargs :=
  match mapping.lookup control.1 with
  | none => .ok []
  | some value => (fun checked => [(control.1, checked)]) <$> control.2 value

end Control

/-- The controls of `sampling.extra`, in the order they are checked. -/
def extraControls : List Control :=
  [.int "min_tokens" "sampling.extra.min_tokens",
    ("stop", JsonValue.requireStop),
    ("stop_token_ids", fun value =>
      (fun tokens => .list (tokens.map .int)) <$> value.requireTokens "sampling.extra.stop_token_ids"),
    .number "repetition_penalty" "sampling.extra.repetition_penalty" none none,
    .number "presence_penalty" "sampling.extra.presence_penalty" none none,
    .number "frequency_penalty" "sampling.extra.frequency_penalty" none none,
    .number "min_p" "sampling.extra.min_p" (some 0) (some 1),
    .int "thinking_token_budget" "sampling.extra.thinking_token_budget",
    .bool "include_stop_str_in_output" "sampling.extra.include_stop_str_in_output",
    .bool "skip_special_tokens" "sampling.extra.skip_special_tokens",
    .bool "spaces_between_special_tokens" "sampling.extra.spaces_between_special_tokens"]

/-- The controls every request carries. -/
def baseKwargs (sampling : JsonFields) : Except RequestError Kwargs := do
  let topK ← (field sampling "top_k").requireInt "sampling.top_k" (some (-1))
  let maxTokens ← (field sampling "max_tokens").requireInt "sampling.max_tokens" (some 1)
  let temperature ← (field sampling "temperature").requireNumber "sampling.temperature" (some 0) none
  let topP ← (field sampling "top_p").requireNumber "sampling.top_p" (some 0) (some 1)
  let ignoreEos ← (field sampling "ignore_eos").requireBool "sampling.ignore_eos"
  return [("max_tokens", .int maxTokens), ("temperature", .float temperature), ("top_p", .float topP),
    ("top_k", if topK = -1 then .null else .int topK), ("ignore_eos", .bool ignoreEos)]

/-- `_sampling_params`. -/
def samplingParams (request : JsonFields) : Except RequestError Kwargs := do
  let sampling ← (field request "sampling").requireObject "sampling"
  rejectUnknown samplingFields "sampling field" "unsupported_request_field" sampling
  rejectMissing requiredSampling "sampling" sampling
  let base ← baseKwargs sampling
  let seed ← (Control.int "seed" "sampling.seed").copy sampling
  let extra ← ((sampling.lookup "extra").getD (.object [])).requireObject "sampling.extra"
  rejectUnknown extraFields "sampling.extra field" "unsupported_sampling_extra" extra
  let extras ← extraControls.mapM (Control.copy extra)
  return base ++ seed ++ extras.flatten

/-- A request id that is not a non-empty string. -/
def badRequestId : JsonValue → Bool
  | .str id => id = ""
  | _ => true

/-- `_parse_request`: the prompt and the keyword arguments of the sampling parameters. -/
def parseRequest (payload : JsonValue) : Except RequestError (List ℤ × Kwargs) := do
  let request ← payload.requireObject "request"
  rejectUnknown requestFields "request field" "unsupported_request_field" request
  rejectMissing requestFields "request" request
  if badRequestId (field request "request_id") then .error (.invalid "request_id must be a non-empty string")
  else
    let prompt ← (field request "prompt_token_ids").requireTokens "prompt_token_ids"
    if prompt = [] then .error (.invalid "prompt_token_ids must not be empty")
    else return (prompt, ← samplingParams request)

/-! ### The endpoint -/

/-- The content `_error` answers with. -/
def errorContent (code message : String) : Json :=
  .object [("error", .object [("code", .string code), ("message", .string message)])]

/-- `_error`; `render` prints the content. -/
def errorResponse (render : Json → String) (status code message : String) : HttpResponse :=
  ⟨status, false, .ok (render (errorContent code message)), []⟩

/-- `POST /generate`. The body is the JSON value read from it or the text of the exception, `start` is the call of
`generate_async`, and `chunks` is the stream that follows. -/
def generate (render : Json → String) (start : List ℤ × Kwargs → Except String Unit)
    (chunks : List (Except String Bytes)) (payload : Except String JsonValue) : HttpResponse :=
  match payload with
  | .error text => errorResponse render "400 Bad Request" "invalid_json" text
  | .ok payload =>
    match parseRequest payload with
    | .error (.protocolError code message) => errorResponse render "422 Unprocessable Entity" code message
    | .error .overflowError =>
      errorResponse render "400 Bad Request" "invalid_json" "int too large to convert to float"
    | .ok inputs =>
      match start inputs with
      | .error text => errorResponse render "503 Service Unavailable" "generation_start_failed" text
      | .ok () => ⟨"200 OK", true, .error "", chunks⟩

end TrtLlm.Wire
