import Mathlib.Data.List.DropRight
import Mathlib.Data.List.Infix
import TrtLlm.Model.Core.Types
import TrtLlm.Model.Raw.Number

/-! # Tables

`Table` of `crates/tuner/src/csv.rs`: a reader of comma-separated records, and columns found by name. A string is the
list of its characters.
-/

namespace TrtLlm.Tuner

abbrev Text := List Char

/-- `char::is_whitespace`. -/
def isWhitespace (c : Char) : Bool :=
  let code := c.toNat
  (9 ≤ code && code ≤ 13) || code = 32 || code = 0x85 || code = 0xa0 || code = 0x1680 ||
    (0x2000 ≤ code && code ≤ 0x200a) || code = 0x2028 || code = 0x2029 || code = 0x202f || code = 0x205f || code = 0x3000

/-- `str::trim`. -/
def trim (text : Text) : Text := (text.dropWhile isWhitespace).rdropWhile isWhitespace

/-- `str::to_ascii_lowercase`. -/
def toAsciiLowercase (text : Text) : Text := text.map Char.toLower

/-- `BTreeMap::insert` on the entries in key order. -/
def insertEntry (key value : Text) : List (Text × Text) → List (Text × Text)
  | [] => [(key, value)]
  | (k, v) :: entries =>
    if key = k then (key, value) :: entries
    else if key < k then (key, value) :: (k, v) :: entries
    else (k, v) :: insertEntry key value entries

/-! ### Records -/

/-- What the reader holds between two characters. -/
structure Reader where
  records : List (List Text) := []
  record : List Text := []
  field : Text := []
  inQuotes : Bool := false
deriving DecidableEq

namespace Reader

def push (reader : Reader) (c : Char) : Reader := { reader with field := reader.field ++ [c] }

def endField (reader : Reader) : Reader := { reader with record := reader.record ++ [reader.field], field := [] }

def endRecord (reader : Reader) : Reader :=
  let ended := reader.endField
  { ended with records := ended.records ++ [ended.record], record := [] }

/-- What is read at the end of the text: a last record may lack its line break. -/
def finish (reader : Reader) : List (List Text) :=
  if reader.field ≠ [] ∨ reader.record ≠ [] then reader.endRecord.records else reader.records

/-- Read the rest of the text. Inside quotes, a doubled quote stands for one. -/
def read (reader : Reader) : Text → List (List Text)
  | [] => reader.finish
  | '"' :: chars =>
    if reader.inQuotes then
      match chars with
      | '"' :: chars => (reader.push '"').read chars
      | chars => { reader with inQuotes := false }.read chars
    else { reader with inQuotes := true }.read chars
  | c :: chars =>
    if reader.inQuotes then (reader.push c).read chars
    else if c = ',' then reader.endField.read chars
    else if c = '\r' then reader.read chars
    else if c = '\n' then reader.endRecord.read chars
    else (reader.push c).read chars

end Reader

def parseRecords (text : Text) : List (List Text) := Reader.read {} text

example : parseRecords [] = [] := by
  rw [parseRecords, Reader.read]
  rfl

/-! ### Tables -/

structure Table where
  header : List Text
  rows : List (List Text)
deriving DecidableEq

namespace Table

def parse (text : Text) : Except Error Table :=
  match parseRecords text with
  | [] => .error (.config "empty CSV")
  | first :: records =>
    .ok { header := first.map trim, rows := records.filter fun record => record.any fun cell => trim cell ≠ [] }

/-- The first column whose lower-cased name contains every needle. -/
def column (table : Table) (needles : List Text) : Option ℕ :=
  table.header.findIdx? fun name =>
    needles.all fun needle => toAsciiLowercase needle <:+: toAsciiLowercase name

def cell (table : Table) (row : List Text) (needles : List Text) : Option Text := do
  let i ← table.column needles
  let value ← row[i]?
  some (trim value)

def number (table : Table) (row : List Text) (needles : List Text) : Option Float := do
  let value ← table.cell row needles
  Raw.parseFloat (value.filter (· ≠ ','))

/-- The cells by their names; of two columns with one name the later wins. -/
def rowMap (table : Table) (row : List Text) : List (Text × Text) :=
  (table.header.zip row).foldl (fun entries entry => insertEntry entry.1 entry.2 entries) []

end Table

end TrtLlm.Tuner
