import TrtLlm.Model.Tuner.Csv

/-! # The reader inverts the encoding

Comma-separated records as RFC 4180 writes them: a field is bare or quoted, and a line may end either way. The reader
looks one character ahead only after a quote inside quotes, so a closing quote is told from a doubled one by what
follows the field, which is never a quote.
-/

namespace TrtLlm.Tuner

/-! ### The encoding -/

/-- A field's text inside quotes. -/
def doubleQuotes (field : Text) : Text := field.flatMap fun c => if c = '"' then ['"', '"'] else [c]

/-- A character that may stand in a bare field. -/
def Plain (c : Char) : Prop := c ≠ ',' ∧ c ≠ '"' ∧ c ≠ '\r' ∧ c ≠ '\n'

/-- The ways to write a field. -/
inductive EncodesField : Text → Text → Prop
  | bare {field : Text} (plain : ∀ c ∈ field, Plain c) : EncodesField field field
  | quoted (field : Text) : EncodesField field ('"' :: doubleQuotes field ++ ['"'])

/-- The ways to write a record, without its line break; a record has at least one field. -/
inductive EncodesRecord : List Text → Text → Prop
  | last {field text : Text} (written : EncodesField field text) : EncodesRecord [field] text
  | field {field text : Text} {fields : List Text} {rest : Text} (written : EncodesField field text)
      (others : EncodesRecord fields rest) : EncodesRecord (field :: fields) (text ++ ',' :: rest)

/-- The ways to end a line. -/
inductive LineBreak : Text → Prop
  | lf : LineBreak ['\n']
  | crlf : LineBreak ['\r', '\n']

/-- The ways to write a list of records. -/
inductive Encodes : List (List Text) → Text → Prop
  | nil : Encodes [] []
  | record {record : List Text} {text ending : Text} {records : List (List Text)} {rest : Text}
      (written : EncodesRecord record text) (ended : LineBreak ending) (others : Encodes records rest) :
      Encodes (record :: records) (text ++ ending ++ rest)

/-! ### Reading it -/

theorem LineBreak.head?_ne {ending : Text} (ended : LineBreak ending) (rest : Text) :
    (ending ++ rest).head? ≠ some '"' := by
  cases ended <;> simp

namespace Reader

variable {reader : Reader} {rest : Text}

/-- In quotes, a character that is not a quote. -/
theorem read_inside {c : Char} (inside : reader.inQuotes = true) (other : c ≠ '"') (chars : Text) :
    reader.read (c :: chars) = (reader.push c).read chars := by
  rw [read, if_pos inside]
  exact other

/-- Outside quotes, a character that is not a quote. -/
theorem read_outside {c : Char} (outside : reader.inQuotes = false) (other : c ≠ '"') (chars : Text) :
    reader.read (c :: chars) =
      if c = ',' then reader.endField.read chars
      else if c = '\r' then reader.read chars
      else if c = '\n' then reader.endRecord.read chars
      else (reader.push c).read chars := by
  rw [read, if_neg (by simp [outside])]
  exact other

theorem read_open (outside : reader.inQuotes = false) (chars : Text) :
    reader.read ('"' :: chars) = { reader with inQuotes := true }.read chars := by
  cases chars with
  | nil => simp [read, outside]
  | cons c chars => by_cases quote : c = '"' <;> simp [read, outside, quote]

theorem read_doubled (inside : reader.inQuotes = true) (chars : Text) :
    reader.read ('"' :: '"' :: chars) = (reader.push '"').read chars := by
  rw [read, if_pos inside]

/-- A quote in quotes that no second one follows closes them. -/
theorem read_close (inside : reader.inQuotes = true) (single : rest.head? ≠ some '"') :
    reader.read ('"' :: rest) = { reader with inQuotes := false }.read rest := by
  cases rest with
  | nil => simp [read, inside]
  | cons c chars =>
    have other : c ≠ '"' := fun quote => single (by rw [quote, List.head?_cons])
    simp [read, inside, other]

/-- The text of a bare field is pushed as it stands. -/
theorem read_bare (outside : reader.inQuotes = false) {field : Text} (plain : ∀ c ∈ field, Plain c) (rest : Text) :
    reader.read (field ++ rest) = { reader with field := reader.field ++ field }.read rest := by
  induction field generalizing reader with
  | nil => rw [List.nil_append, List.append_nil]
  | cons c field ih =>
    obtain ⟨comma, quote, cr, lf⟩ := plain c (.head _)
    have pushed := @ih (reader.push c) outside fun d member => plain d (.tail _ member)
    rw [List.cons_append, read_outside outside quote, if_neg comma, if_neg cr, if_neg lf, pushed]
    simp only [push, List.append_assoc, List.singleton_append]

/-- The text of a quoted field up to its closing quote. -/
theorem read_quoted (inside : reader.inQuotes = true) (field : Text) (single : rest.head? ≠ some '"') :
    reader.read (doubleQuotes field ++ '"' :: rest) =
      { reader with field := reader.field ++ field, inQuotes := false }.read rest := by
  induction field generalizing reader with
  | nil =>
    rw [List.append_nil]
    exact read_close inside single
  | cons c field ih =>
    have pushed := @ih (reader.push c) inside
    have first : reader.read (doubleQuotes (c :: field) ++ '"' :: rest) =
        (reader.push c).read (doubleQuotes field ++ '"' :: rest) := by
      rw [doubleQuotes, List.flatMap_cons, List.append_assoc]
      split
      next quote =>
        subst quote
        exact read_doubled inside _
      next other => exact read_inside inside other _
    rw [first, pushed]
    simp only [push, List.append_assoc, List.singleton_append]

theorem read_field (outside : reader.inQuotes = false) {field text : Text} (written : EncodesField field text)
    (single : rest.head? ≠ some '"') :
    reader.read (text ++ rest) = { reader with field := reader.field ++ field }.read rest := by
  cases written with
  | bare plain => exact read_bare outside plain rest
  | quoted =>
    have closed := @read_quoted { reader with inQuotes := true } rest rfl field single
    rw [List.append_assoc, List.cons_append, List.singleton_append, read_open outside, closed]
    cases reader
    rw [show _ = false from outside]

/-- Either line break ends the record. -/
theorem read_lineBreak (outside : reader.inQuotes = false) {ending : Text} (ended : LineBreak ending) (rest : Text) :
    reader.read (ending ++ rest) = reader.endRecord.read rest := by
  cases ended with
  | lf =>
    rw [List.singleton_append, read_outside outside (by decide), if_neg (by decide), if_neg (by decide), if_pos rfl]
  | crlf =>
    rw [List.cons_append, List.singleton_append, read_outside outside (by decide), if_neg (by decide), if_pos rfl,
      read_outside outside (by decide), if_neg (by decide), if_neg (by decide), if_pos rfl]

/-- A record with its line break joins the records. -/
theorem read_record {record : List Text} {text ending : Text} (written : EncodesRecord record text)
    (ended : LineBreak ending) (rest : Text) (records : List (List Text)) (before : List Text) :
    (⟨records, before, [], false⟩ : Reader).read (text ++ ending ++ rest) =
      (⟨records ++ [before ++ record], [], [], false⟩ : Reader).read rest := by
  induction written generalizing before with
  | last written =>
    rw [List.append_assoc, read_field rfl written (ended.head?_ne rest), read_lineBreak rfl ended]
    rfl
  | @field first _ _ _ written others ih =>
    rw [List.append_assoc, List.append_assoc, read_field rfl written (by simp), List.cons_append,
      read_outside rfl (by decide), if_pos rfl, ← List.append_assoc]
    have joined := ih (before ++ [first])
    rwa [List.append_assoc before, List.singleton_append] at joined

end Reader

/-- Every encoding of a list of records is read back. -/
theorem parseRecords_of_encodes {records : List (List Text)} {text : Text} (encoded : Encodes records text) :
    parseRecords text = records := by
  have joins : ∀ before : List (List Text), (⟨before, [], [], false⟩ : Reader).read text = before ++ records := by
    induction encoded with
    | nil => simp [Reader.read, Reader.finish]
    | record written ended others ih =>
      intro before
      rw [Reader.read_record written ended, ih, List.nil_append, List.append_assoc, List.singleton_append]
  exact joins []

/-- Two lines with different breaks; a field of each kind, and one with all that needs quotes. -/
theorem parseRecords_of_encodes_mixed :
    parseRecords "a,\"x,\"\"y\r\n\",\r\n\"\"\n".toList = [["a".toList, "x,\"y\r\n".toList, []], [[]]] := by
  have first : EncodesRecord ["a".toList, "x,\"y\r\n".toList, []] _ :=
    .field (.bare (by simp [Plain])) (.field (.quoted _) (.last (.bare (by simp))))
  have second : EncodesRecord [[]] _ := .last (.quoted [])
  exact parseRecords_of_encodes (.record first .crlf (.record second .lf .nil))

end TrtLlm.Tuner
