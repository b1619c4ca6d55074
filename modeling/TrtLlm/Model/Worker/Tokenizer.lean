import TrtLlm.Model.Core.Types

/-! # The synthetic tokenizer

`SyntheticTokenizer` of `crates/worker/src/tokenizer.rs`: one token per UTF-8 byte. Decoding is
`String::from_utf8_lossy`, which puts one replacement character for every maximal part of a character that is no whole
one.
-/

namespace TrtLlm.Worker.SyntheticTokenizer

/-- `SPECIAL_OFFSET`. -/
def specialOffset : TokenId := 256

/-- `char::REPLACEMENT_CHARACTER`. -/
def replacement : Char := Char.ofNat 0xfffd

/-! ### `from_utf8_lossy` -/

def isContinuation (b : UInt8) : Bool := 0x80 ≤ b && b ≤ 0xbf

/-- Some character starts with these two bytes. -/
def mayFollow (b next : UInt8) : Bool :=
  if b = 0xe0 then 0xa0 ≤ next && next ≤ 0xbf
  else if b = 0xed then 0x80 ≤ next && next ≤ 0x9f
  else if b = 0xf0 then 0x90 ≤ next && next ≤ 0xbf
  else if b = 0xf4 then 0x80 ≤ next && next ≤ 0x8f
  else 0xc2 ≤ b && b ≤ 0xf3 && isContinuation next

/-- The payload of a continuation byte. -/
def payload (b : UInt8) : ℕ := b.toNat % 0x40

/-- The character at the front of the bytes, and how many more bytes it takes. Past the end a byte reads as 0. -/
def nextChar (b : UInt8) (rest : List UInt8) : Char × ℕ :=
  let second := rest.getD 0 0
  let third := rest.getD 1 0
  let fourth := rest.getD 2 0
  if b < 0x80 then (Char.ofNat b.toNat, 0)
  else if !mayFollow b second then (replacement, 0)
  else if b < 0xe0 then (Char.ofNat (b.toNat % 0x20 * 0x40 + payload second), 1)
  else if !isContinuation third then (replacement, 1)
  else if b < 0xf0 then (Char.ofNat ((b.toNat % 0x10 * 0x40 + payload second) * 0x40 + payload third), 2)
  else if !isContinuation fourth then (replacement, 2)
  else (Char.ofNat (((b.toNat % 0x08 * 0x40 + payload second) * 0x40 + payload third) * 0x40 + payload fourth), 3)

/-- The characters of the bytes after the first `skip` of them. -/
def fromUtf8LossyLoop : ℕ → List UInt8 → List Char
  | _, [] => []
  | skip + 1, _ :: rest => fromUtf8LossyLoop skip rest
  | 0, b :: rest =>
    let (c, more) := nextChar b rest
    c :: fromUtf8LossyLoop more rest

def fromUtf8Lossy (bytes : List UInt8) : List Char := fromUtf8LossyLoop 0 bytes

/-! ### Tokens -/

/-- `u8::try_from(t.saturating_sub(SPECIAL_OFFSET)).ok()`. -/
def byteOf (token : TokenId) : Option UInt8 :=
  if token - specialOffset < 256 then some (UInt8.ofNat (token - specialOffset)) else none

def bytesOf (tokens : List TokenId) : List UInt8 := tokens.filterMap byteOf

def encode (text : String) : List TokenId :=
  (text.toList.flatMap String.utf8EncodeChar).map fun b => b.toNat + specialOffset

def decode (tokens : List TokenId) : String := .ofList (fromUtf8Lossy (bytesOf tokens))

example : encode "aé" = [353, 451, 425] := by decide

example : decode [353, 451, 425] = "aé" ∧ decode [451] = "\uFFFD" ∧ decode [3] = "\x00" ∧ decode [512] = "" := by decide

end TrtLlm.Worker.SyntheticTokenizer
