import Mathlib.Data.List.Infix
import TrtLlm.Model.Wire.HttpTransport

/-! # Where the scan finds the end of a frame

The scan works on a buffer that may stop anywhere. The results here follow it over text without line endings,
over a single line ending, and over the two line endings that close a frame, for every front part of the bytes.
A CR that closes the buffer counts as a whole line ending, so after CRLF CR the frame is taken one byte short.
-/

namespace TrtLlm.Wire

/-- The three line endings. -/
inductive LineEnding where
  | lf
  | crlf
  | cr
deriving DecidableEq, Repr

def LineEnding.bytes : LineEnding → Bytes
  | .lf => [Wire.lf]
  | .crlf => [Wire.cr, Wire.lf]
  | .cr => [Wire.cr]

/-- A byte of text: no part of a line ending. -/
def Plain (b : UInt8) : Prop := b ≠ cr ∧ b ≠ lf

/-- The bytes begin with a byte of text, if at all. -/
def StartsPlain (bytes : Bytes) : Prop := ∀ b ∈ bytes.head?, Plain b

/-- A frame found further on. -/
def shift (k : ℕ) (found : ℕ × ℕ) : ℕ × ℕ := (found.1 + k, found.2)

theorem lineEndingLen_cons (b : UInt8) (buffer : Bytes) (pos : ℕ) :
    lineEndingLen (b :: buffer) (pos + 1) = lineEndingLen buffer pos := by
  simp [lineEndingLen]

theorem frameEndAt_cons (b : UInt8) (buffer : Bytes) (start : ℕ) :
    frameEndAt (b :: buffer) (start + 1) = (frameEndAt buffer start).map (shift 1) := by
  unfold frameEndAt
  rw [lineEndingLen_cons]
  cases lineEndingLen buffer start with
  | none => rfl
  | some firstLen =>
    simp only
    rw [Nat.add_right_comm, lineEndingLen_cons]
    cases lineEndingLen buffer (start + firstLen) <;> rfl

/-- The scan looks at the front of the buffer first. -/
theorem sseFrameEnd_cons (b : UInt8) (buffer : Bytes) :
    sseFrameEnd (b :: buffer) = (frameEndAt (b :: buffer) 0).or ((sseFrameEnd buffer).map (shift 1)) := by
  unfold sseFrameEnd
  rw [List.length_cons, List.range_succ_eq_map, List.findSome?_cons, List.findSome?_map]
  have later : (List.range buffer.length).findSome? (frameEndAt (b :: buffer) ∘ Nat.succ) =
      ((List.range buffer.length).findSome? (frameEndAt buffer)).map (shift 1) := by
    rw [List.map_findSome?]
    exact congrArg (fun f => List.findSome? f _) (funext fun start => frameEndAt_cons b buffer start)
  rw [later]
  cases frameEndAt (b :: buffer) 0 <;> rfl

theorem frameEndAt_plain {b : UInt8} (plain : Plain b) (buffer : Bytes) : frameEndAt (b :: buffer) 0 = none := by
  simp [frameEndAt, lineEndingLen, plain.1, plain.2]

theorem shift_zero (found : Option (ℕ × ℕ)) : found.map (shift 0) = found := by
  cases found <;> rfl

theorem shift_shift (j k : ℕ) (found : Option (ℕ × ℕ)) :
    (found.map (shift j)).map (shift k) = found.map (shift (j + k)) := by
  cases found with
  | none => rfl
  | some found => simp [shift, Nat.add_assoc]

/-- Text is passed over. -/
theorem sseFrameEnd_text {text : Bytes} (plain : ∀ b ∈ text, Plain b) (rest : Bytes) :
    sseFrameEnd (text ++ rest) = (sseFrameEnd rest).map (shift text.length) := by
  induction text with
  | nil => exact (shift_zero _).symm
  | cons b text ih =>
    rw [List.cons_append, sseFrameEnd_cons, frameEndAt_plain (plain b (.head _)),
      ih fun other member => plain other (.tail _ member), Option.none_or, shift_shift]
    rfl

theorem sseFrameEnd_plain {text : Bytes} (plain : ∀ b ∈ text, Plain b) : sseFrameEnd text = none := by
  have scan := sseFrameEnd_text plain []
  rw [List.append_nil] at scan
  rw [scan]
  rfl

/-- A line ending before text, or at the end of the buffer, is passed over. -/
theorem sseFrameEnd_apart (ending : LineEnding) {rest : Bytes} (plain : StartsPlain rest) :
    sseFrameEnd (ending.bytes ++ rest) = (sseFrameEnd rest).map (shift ending.bytes.length) := by
  cases rest with
  | nil => cases ending <;> decide
  | cons b rest =>
    have notCr : b ≠ 13 := (plain b rfl).1
    have notLf : b ≠ 10 := (plain b rfl).2
    have alone : ∀ ending : UInt8, (ending = lf ∨ ending = cr) → frameEndAt (ending :: b :: rest) 0 = none := by
      rintro _ (rfl | rfl) <;> simp [frameEndAt, lineEndingLen, notCr, notLf, cr, lf]
    cases ending with
    | lf =>
      change sseFrameEnd (lf :: b :: rest) = _
      rw [sseFrameEnd_cons, alone lf (.inl rfl)]
      rfl
    | cr =>
      change sseFrameEnd (cr :: b :: rest) = _
      rw [sseFrameEnd_cons, alone cr (.inr rfl)]
      rfl
    | crlf =>
      have both : frameEndAt (cr :: lf :: b :: rest) 0 = none := by
        simp [frameEndAt, lineEndingLen, notCr, notLf, cr, lf]
      change sseFrameEnd (cr :: lf :: b :: rest) = _
      rw [sseFrameEnd_cons, both, sseFrameEnd_cons, alone lf (.inl rfl), Option.none_or, Option.none_or, shift_shift]
      rfl

/-- A front part of a concatenation ends in the first list or goes on into the second. -/
theorem prefix_append_cases {α : Type*} {p a b : List α} (front : p <+: a ++ b) :
    p <+: a ∨ ∃ q, p = a ++ q ∧ q <+: b := by
  rcases List.prefix_or_prefix_of_prefix front (List.prefix_append a b) with inside | ⟨q, rfl⟩
  · exact .inl inside
  · exact .inr ⟨q, rfl, (List.prefix_append_right_inj a).mp front⟩

/-- Part of a line ending alone is no frame end. -/
theorem sseFrameEnd_ending (ending : LineEnding) {p : Bytes} (front : p <+: ending.bytes) : sseFrameEnd p = none := by
  have listed := (List.mem_inits p ending.bytes).mpr front
  cases ending <;> (simp only [LineEnding.bytes, List.inits, List.map_cons, List.map_nil, List.mem_cons, List.not_mem_nil,
    or_false] at listed; rcases listed with rfl | rfl | rfl <;> decide)

/-- What the scan finds in a buffer that starts with the first byte of a second line ending: a CR that ends the
buffer is taken for the whole line ending. -/
def secondLen (ending : LineEnding) (p : Bytes) : ℕ := if ending = .crlf ∧ p.length = 1 then 1 else ending.bytes.length

theorem sseFrameEnd_pair (ending : LineEnding) {tail p : Bytes} (plain : StartsPlain tail)
    (front : p <+: ending.bytes ++ tail) (started : p ≠ []) :
    sseFrameEnd (ending.bytes ++ p) = some (0, ending.bytes.length + secondLen ending p) := by
  obtain ⟨rest, whole⟩ := front
  have apart : ∀ q : Bytes, q <+: tail → q[0]? ≠ some lf := by
    intro q within found
    cases q with
    | nil => cases found
    | cons b q =>
      obtain ⟨more, rfl⟩ := within
      exact (plain b rfl).2 (Option.some.inj found)
  cases p with
  | nil => exact absurd rfl started
  | cons b p =>
    cases ending with
    | lf =>
      obtain ⟨rfl, _⟩ := List.cons.inj whole
      change sseFrameEnd (lf :: lf :: p) = _
      rw [sseFrameEnd_cons]
      simp [frameEndAt, lineEndingLen, secondLen, LineEnding.bytes, cr, lf]
    | cr =>
      obtain ⟨rfl, within⟩ := List.cons.inj whole
      have next := apart p ⟨rest, within⟩
      change sseFrameEnd (cr :: cr :: p) = _
      rw [sseFrameEnd_cons]
      simp [frameEndAt, lineEndingLen, secondLen, LineEnding.bytes, cr, lf] at next ⊢
      simp [next]
    | crlf =>
      obtain ⟨rfl, within⟩ := List.cons.inj whole
      cases p with
      | nil => decide
      | cons b p =>
        obtain ⟨rfl, _⟩ := List.cons.inj within
        change sseFrameEnd (cr :: lf :: cr :: lf :: p) = _
        rw [sseFrameEnd_cons]
        simp [frameEndAt, lineEndingLen, secondLen, LineEnding.bytes, cr, lf]

/-- Lines of text, none empty. -/
def TextLines (lines : List Bytes) : Prop := ∀ line ∈ lines, line ≠ [] ∧ ∀ b ∈ line, Plain b

theorem startsPlain_intercalate {ending : LineEnding} {line : Bytes} {lines : List Bytes}
    (text : TextLines (line :: lines)) (rest : Bytes) :
    StartsPlain (ending.bytes.intercalate (line :: lines) ++ rest) := by
  obtain ⟨nonempty, plain⟩ := text line (.head _)
  cases line with
  | nil => exact absurd rfl nonempty
  | cons b line =>
    intro first head
    have same : first = b := by
      cases lines with
      | nil =>
        rw [List.intercalate_singleton] at head
        exact (Option.some.inj head).symm
      | cons next lines =>
        rw [List.intercalate_cons_cons] at head
        exact (Option.some.inj head).symm
    rw [same]
    exact plain b (.head _)

theorem StartsPlain.front {bytes p : Bytes} (plain : StartsPlain bytes) (front : p <+: bytes) : StartsPlain p := by
  obtain ⟨rest, rfl⟩ := front
  cases p with
  | nil => exact fun _ head => nomatch head
  | cons b p => exact fun first head => plain first head

/-- The scan over a buffer that holds lines of text: nothing until the first byte of the line ending that closes
the frame is there, and then the end of the last line. -/
theorem sseFrameEnd_lines (ending : LineEnding) {lines : List Bytes} (some : lines ≠ []) (text : TextLines lines)
    {tail : Bytes} (plain : StartsPlain tail) {p : Bytes}
    (front : p <+: ending.bytes.intercalate lines ++ (ending.bytes ++ (ending.bytes ++ tail))) :
    p <+: ending.bytes.intercalate lines ++ ending.bytes ∧ sseFrameEnd p = none ∨
      ∃ q, p = ending.bytes.intercalate lines ++ (ending.bytes ++ q) ∧ q ≠ [] ∧ q <+: ending.bytes ++ tail ∧
        sseFrameEnd p = .some ((ending.bytes.intercalate lines).length, ending.bytes.length + secondLen ending q) := by
  induction lines generalizing p with
  | nil => exact absurd rfl some
  | cons line lines ih =>
    obtain ⟨_, calm⟩ := text line (.head _)
    have unfinished : ∀ {q}, q <+: line → sseFrameEnd q = none := fun inside =>
      sseFrameEnd_plain fun b member => calm b (inside.subset member)
    have halfway : ∀ {q}, q <+: ending.bytes → sseFrameEnd (line ++ q) = none := by
      intro q inside
      rw [sseFrameEnd_text calm, sseFrameEnd_ending ending inside]
      rfl
    cases lines with
    | nil =>
      rw [List.intercalate_singleton] at front ⊢
      rcases prefix_append_cases front with inside | ⟨q, rfl, reached⟩
      · exact .inl ⟨inside.trans (List.prefix_append _ _), unfinished inside⟩
      · rcases prefix_append_cases reached with inside | ⟨r, rfl, closing⟩
        · exact .inl ⟨(List.prefix_append_right_inj line).mpr inside, halfway inside⟩
        · by_cases empty : r = []
          · subst empty
            rw [List.append_nil]
            exact .inl ⟨List.prefix_refl _, halfway (List.prefix_refl _)⟩
          · refine .inr ⟨r, rfl, empty, closing, ?_⟩
            rw [sseFrameEnd_text calm, sseFrameEnd_pair ending plain closing empty]
            simp [shift]
    | cons next lines =>
      rw [List.intercalate_cons_cons, List.append_assoc, List.append_assoc] at front
      rw [List.intercalate_cons_cons, List.append_assoc, List.append_assoc, List.append_assoc]
      have rest : TextLines (next :: lines) := fun other member => text other (.tail _ member)
      rcases prefix_append_cases front with inside | ⟨q, rfl, reached⟩
      · exact .inl ⟨inside.trans (List.prefix_append _ _), unfinished inside⟩
      · rcases prefix_append_cases reached with inside | ⟨r, rfl, later⟩
        · exact .inl ⟨(List.prefix_append_right_inj line).mpr (inside.trans (List.prefix_append _ _)), halfway inside⟩
        · have skip : sseFrameEnd (line ++ (ending.bytes ++ r)) =
              ((sseFrameEnd r).map (shift ending.bytes.length)).map (shift line.length) := by
            rw [sseFrameEnd_text calm, sseFrameEnd_apart ending ((startsPlain_intercalate rest _).front later)]
          rcases ih (List.cons_ne_nil _ _) rest later with ⟨inside, none⟩ | ⟨t, rfl, nonempty, closing, found⟩
          · refine .inl ⟨?_, by rw [skip, none]; rfl⟩
            exact (List.prefix_append_right_inj line).mpr ((List.prefix_append_right_inj _).mpr inside)
          · refine .inr ⟨t, by simp only [List.append_assoc], nonempty, closing, ?_⟩
            rw [skip, found]
            simp only [Option.map_some, shift, List.length_append]
            congr 2
            omega

end TrtLlm.Wire
