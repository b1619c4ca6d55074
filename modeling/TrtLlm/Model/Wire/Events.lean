import TrtLlm.Model.Core.Types

/-! # Events on the wire

The payload contract of `crates/wire/src/transport.rs`. JSON parsing is `serde_json`'s: it is a parameter that
yields a value or the text of its error.
-/

namespace TrtLlm.Wire

/-- A raw server-sent event. -/
structure SseEvent where
  event : Option String
  data : String
deriving DecidableEq, Repr

structure TransportError where
  message : String
deriving DecidableEq, Repr

/-- `serde_json::Value`. A number is kept as its `as_u64` reads it. -/
inductive Json where
  | null
  | bool (value : Bool)
  | number (asU64 : Option ℕ)
  | string (value : String)
  | array (items : List Json)
  | object (fields : List (String × Json))

namespace Json

def get (key : String) : Json → Option Json
  | .object fields => fields.lookup key
  | _ => none

def asStr : Json → Option String
  | .string value => some value
  | _ => none

def asU64 : Json → Option ℕ
  | .number value => value
  | _ => none

end Json

/-- `char::is_whitespace`: the Unicode `White_Space` characters. -/
def isWhitespace (c : Char) : Bool :=
  (0x9 ≤ c.toNat && c.toNat ≤ 0xd) || c.toNat = 0x20 || c.toNat = 0x85 || c.toNat = 0xa0 || c.toNat = 0x1680 ||
    (0x2000 ≤ c.toNat && c.toNat ≤ 0x200a) || c.toNat = 0x2028 || c.toNat = 0x2029 || c.toNat = 0x202f ||
    c.toNat = 0x205f || c.toNat = 0x3000

/-- `str::trim`. -/
def trim (text : String) : String :=
  .ofList ((text.toList.dropWhile isWhitespace).reverse.dropWhile isWhitespace).reverse

inductive DecodedEvent where
  | token (token : TokenId) (text : String)
  | terminal (finishReason : String)
deriving DecidableEq, Repr

/-- The message of an error payload, either a plain string or an object with a message and a code. -/
def remoteErrorMessage (payload : Json) : Option String :=
  match payload.get "error" with
  | none => none
  | some (.string message) => some message
  | some (.object fields) =>
    match ((Json.object fields).get "message").bind Json.asStr with
    | none => none
    | some message =>
      let code := (((Json.object fields).get "code").bind Json.asStr).getD "remote_error"
      some (code ++ ": " ++ message)
  | some _ => none

/-- Read one event as a token, the end of the stream, or an error. -/
def decodeEvent (fromStr : String → Except String Json) (event : SseEvent) : Except TransportError DecodedEvent :=
  if trim event.data = "[DONE]" then .ok (.terminal "stop")
  else
    match fromStr event.data with
    | .error error => .error ⟨"invalid SSE payload: " ++ error⟩
    | .ok payload =>
      if (payload.get "error").isSome then
        .error ⟨(remoteErrorMessage payload).getD "SSE error payload has no message"⟩
      else
        match (payload.get "finish_reason").bind Json.asStr with
        | some reason => .ok (.terminal reason)
        | none =>
          match ((payload.get "token_id").bind Json.asU64).filter (· < 2 ^ 32) with
          | none => .error ⟨"SSE token payload is missing token_id"⟩
          | some token =>
            match (payload.get "text").bind Json.asStr with
            | none => .error ⟨"SSE token payload is missing text"⟩
            | some text => .ok (.token token text)

end TrtLlm.Wire
