import Mathlib.Algebra.Group.Nat.Even
import Mathlib.Data.List.DropRight
import TrtLlm.Soundness.SseRoundTrip

/-! # Frames and line endings of a buffer

A frame ends before two line endings in a row, each read as CRLF, CR or LF. More bytes do not move the frame; they only
turn a CR that ended the buffer into a CRLF. A byte string that ends in line endings is closed by them two at a time.
-/

namespace TrtLlm.Wire

/-! ### Line endings -/

/-- The line ending at the front of the bytes. -/
def takeEnding : Bytes → Option (LineEnding × Bytes)
  | [] => none
  | b :: rest =>
    if b = cr ∧ rest.head? = some lf then some (.crlf, rest.tail)
    else if b = cr then some (.cr, rest)
    else if b = lf then some (.lf, rest)
    else none

variable {bytes rest : Bytes} {ending first second : LineEnding}

theorem takeEnding_eq_none : takeEnding bytes = none ↔ StartsPlain bytes := by
  cases bytes with
  | nil => exact iff_of_true rfl fun _ head => nomatch head
  | cons b rest =>
    have head : StartsPlain (b :: rest) ↔ b ≠ cr ∧ b ≠ lf :=
      ⟨fun plain => plain b rfl, fun plain c here => Option.some.inj here ▸ plain⟩
    rw [head, takeEnding]
    split_ifs <;> simp_all

theorem takeEnding_append (ending : LineEnding) (whole : ending = .cr → rest.head? ≠ some lf) :
    takeEnding (ending.bytes ++ rest) = some (ending, rest) := by
  cases ending with
  | lf => rfl
  | crlf => rfl
  | cr =>
    change takeEnding (cr :: rest) = _
    rw [takeEnding, if_neg fun both => whole rfl both.2, if_pos rfl]

theorem eq_append_of_takeEnding (taken : takeEnding bytes = some (ending, rest)) :
    bytes = ending.bytes ++ rest ∧ (ending = .cr → rest.head? ≠ some lf) := by
  cases bytes with
  | nil => cases taken
  | cons b tail =>
    rw [takeEnding] at taken
    split_ifs at taken with both single line
    · obtain ⟨rfl, rfl⟩ := Prod.mk.inj (Option.some.inj taken)
      obtain ⟨rfl, next⟩ := both
      obtain ⟨tail, rfl⟩ := List.head?_eq_some_iff.mp next
      exact ⟨rfl, LineEnding.noConfusion⟩
    · obtain ⟨rfl, rfl⟩ := Prod.mk.inj (Option.some.inj taken)
      exact ⟨congrArg (· :: tail) single, fun _ next => both ⟨single, next⟩⟩
    · obtain ⟨rfl, rfl⟩ := Prod.mk.inj (Option.some.inj taken)
      exact ⟨congrArg (· :: tail) line, LineEnding.noConfusion⟩

theorem lineEndingLen_zero (bytes : Bytes) :
    lineEndingLen bytes 0 = (takeEnding bytes).map fun taken => taken.1.bytes.length := by
  cases bytes with
  | nil => rfl
  | cons b rest =>
    rw [lineEndingLen, takeEnding]
    cases rest with
    | nil =>
      simp only [List.getElem?_cons_zero, List.getElem?_cons_succ, List.getElem?_nil, List.head?_nil, reduceCtorEq,
        and_false, if_false, Option.some.injEq]
      split_ifs with either single line
      · rfl
      · rfl
      · rcases either with single | line
        · contradiction
        · contradiction
      · simp_all
      · simp_all
      · rfl
    | cons c rest =>
      simp only [List.getElem?_cons_zero, List.getElem?_cons_succ, List.head?_cons, Option.some.injEq]
      split_ifs <;> first | rfl | simp_all

theorem lineEndingLen_append (ending : LineEnding) (rest : Bytes) (pos : ℕ) :
    lineEndingLen (ending.bytes ++ rest) (ending.bytes.length + pos) = lineEndingLen rest pos := by
  cases ending with
  | lf => exact (congrArg _ (Nat.add_comm 1 pos)).trans (lineEndingLen_cons lf rest pos)
  | cr => exact (congrArg _ (Nat.add_comm 1 pos)).trans (lineEndingLen_cons cr rest pos)
  | crlf =>
    refine (congrArg _ (Nat.add_comm 2 pos)).trans ?_
    exact (lineEndingLen_cons cr (lf :: rest) (pos + 1)).trans (lineEndingLen_cons lf rest pos)

/-- A frame that ends at once. -/
theorem frameEndAt_zero (bytes : Bytes) : frameEndAt bytes 0 = (takeEnding bytes).bind fun taken =>
    (takeEnding taken.2).map fun next => (0, taken.1.bytes.length + next.1.bytes.length) := by
  rw [frameEndAt, lineEndingLen_zero]
  cases taken : takeEnding bytes with
  | none => rfl
  | some first =>
    obtain ⟨rfl, -⟩ := eq_append_of_takeEnding taken
    simp only [Option.map_some, Nat.zero_add]
    have next := lineEndingLen_append first.1 first.2 0
    rw [Nat.add_zero] at next
    rw [next, lineEndingLen_zero, Option.bind_some]
    cases takeEnding first.2 <;> rfl

theorem head?_ending (ending : LineEnding) (rest : Bytes) :
    (ending.bytes ++ rest).head? = some (if ending = .lf then lf else cr) := by
  cases ending <;> rfl

/-! ### Frames -/

/-- The bytes end with a byte of text, if at all. -/
def EndsPlain (bytes : Bytes) : Prop := ∀ b ∈ bytes.getLast?, Plain b

/-- The first frame of a buffer is `front`; two line endings close it, the second perhaps cut short by the end of the
buffer. -/
structure FrameAt (bytes front : Bytes) (first second : LineEnding) (rest : Bytes) : Prop where
  whole : bytes = front ++ (first.bytes ++ (second.bytes ++ rest))
  calm : sseFrameEnd front = none
  plain : EndsPlain front
  apart : first = .cr → second ≠ .lf
  closed : second = .cr → rest.head? ≠ some lf

theorem not_plain_ending (ending : LineEnding) : ∀ b ∈ ending.bytes, ¬Plain b := by
  cases ending <;> simp [LineEnding.bytes, Plain]

theorem EndsPlain.of_append {front : Bytes} (plain : EndsPlain (front ++ rest)) : EndsPlain rest := by
  intro b last
  refine plain b ?_
  rw [List.getLast?_append, Option.mem_def.mp last]
  rfl

theorem not_endsPlain_ending (ending : LineEnding) : ¬EndsPlain ending.bytes := by
  intro plain
  have some : ending.bytes ≠ [] := by cases ending <;> exact List.cons_ne_nil _ _
  exact not_plain_ending ending _ (List.getLast_mem some) (plain _ (List.getLast?_eq_some_getLast some))

/-- What follows does not change the line ending at the front of bytes that end in text. -/
theorem takeEnding_append_right (some : bytes ≠ []) (plain : EndsPlain bytes) (more : Bytes) :
    takeEnding (bytes ++ more) = (takeEnding bytes).map fun taken => (taken.1, taken.2 ++ more) := by
  cases taken : takeEnding bytes with
  | none =>
    have starts := takeEnding_eq_none.mp taken
    refine takeEnding_eq_none.mpr ?_
    rwa [StartsPlain, List.head?_append_of_ne_nil _ some]
  | some first =>
    obtain ⟨ending, rest⟩ := first
    obtain ⟨rfl, whole⟩ := eq_append_of_takeEnding taken
    have left : rest ≠ [] := by
      rintro rfl
      rw [List.append_nil] at plain
      exact not_endsPlain_ending ending plain
    rw [List.append_assoc]
    exact takeEnding_append ending (by rwa [List.head?_append_of_ne_nil _ left])

theorem frameEndAt_append_right (some : bytes ≠ []) (plain : EndsPlain bytes) (more : Bytes) :
    frameEndAt (bytes ++ more) 0 = frameEndAt bytes 0 := by
  rw [frameEndAt_zero, frameEndAt_zero, takeEnding_append_right some plain]
  cases taken : takeEnding bytes with
  | none => rfl
  | some first =>
    obtain ⟨ending, rest⟩ := first
    obtain ⟨rfl, -⟩ := eq_append_of_takeEnding taken
    have left : rest ≠ [] := by
      rintro rfl
      rw [List.append_nil] at plain
      exact not_endsPlain_ending ending plain
    simp only [Option.map_some, Option.bind_some]
    rw [takeEnding_append_right left plain.of_append]
    cases takeEnding rest <;> rfl

/-- A frame without an end of its own, and that ends in text, is passed over. -/
theorem sseFrameEnd_front {front : Bytes} (calm : sseFrameEnd front = none) (plain : EndsPlain front) (tail : Bytes) :
    sseFrameEnd (front ++ tail) = (sseFrameEnd tail).map (shift front.length) := by
  induction front with
  | nil => exact (shift_zero _).symm
  | cons b front ih =>
    have parted : EndsPlain ([b] ++ front) := plain
    rw [sseFrameEnd_cons, Option.or_eq_none_iff, Option.map_eq_none_iff] at calm
    rw [List.cons_append, sseFrameEnd_cons, ← List.cons_append,
      frameEndAt_append_right (List.cons_ne_nil _ _) plain, calm.1, Option.none_or, ih calm.2 parted.of_append,
      shift_shift]
    rfl

theorem takeEnding_pair (apart : first = .cr → second ≠ .lf) (rest : Bytes) :
    takeEnding (first.bytes ++ (second.bytes ++ rest)) = some (first, second.bytes ++ rest) := by
  refine takeEnding_append first fun single => ?_
  rw [head?_ending, if_neg (apart single)]
  decide

theorem frameEndAt_pair (apart : first = .cr → second ≠ .lf) (closed : second = .cr → rest.head? ≠ some lf) :
    frameEndAt (first.bytes ++ (second.bytes ++ rest)) 0 = some (0, first.bytes.length + second.bytes.length) := by
  rw [frameEndAt_zero, takeEnding_pair apart, Option.bind_some, takeEnding_append second closed]
  rfl

theorem sseFrameEnd_of_zero {found : ℕ × ℕ} (here : frameEndAt bytes 0 = some found) :
    sseFrameEnd bytes = some found := by
  cases bytes with
  | nil => cases here
  | cons b bytes => rw [sseFrameEnd_cons, here, Option.some_or]

/-- The scan finds the frame. -/
theorem FrameAt.found {front : Bytes} (frame : FrameAt bytes front first second rest) :
    sseFrameEnd bytes = some (front.length, first.bytes.length + second.bytes.length) := by
  rw [frame.whole, sseFrameEnd_front frame.calm frame.plain,
    sseFrameEnd_of_zero (frameEndAt_pair frame.apart frame.closed), Option.map_some, shift, Nat.zero_add]

/-- A byte before two line endings, where no frame ends, is text. -/
theorem plain_of_calm {b : UInt8} (closed : second = .cr → rest.head? ≠ some lf) (apart : first = .cr → second ≠ .lf)
    (calm : frameEndAt (b :: (first.bytes ++ (second.bytes ++ rest))) 0 = none) : Plain b := by
  have next := takeEnding_pair apart rest
  rw [frameEndAt_zero] at calm
  constructor
  · rintro rfl
    by_cases line : first = .lf
    · -- the CR and the LF are one line ending
      subst line
      have taken : takeEnding (cr :: (LineEnding.lf.bytes ++ (second.bytes ++ rest))) =
          some (.crlf, second.bytes ++ rest) := takeEnding_append .crlf LineEnding.noConfusion
      rw [taken, Option.bind_some, takeEnding_append second closed] at calm
      cases calm
    · have taken : takeEnding (cr :: (first.bytes ++ (second.bytes ++ rest))) =
          some (.cr, first.bytes ++ (second.bytes ++ rest)) := by
        refine takeEnding_append .cr fun _ => ?_
        change (first.bytes ++ (second.bytes ++ rest)).head? ≠ some lf
        rw [head?_ending, if_neg line]
        decide
      rw [taken, Option.bind_some, next] at calm
      cases calm
  · rintro rfl
    have taken : takeEnding (lf :: (first.bytes ++ (second.bytes ++ rest))) =
        some (.lf, first.bytes ++ (second.bytes ++ rest)) := takeEnding_append .lf LineEnding.noConfusion
    rw [taken, Option.bind_some, next] at calm
    cases calm

theorem bytes_length_pos (ending : LineEnding) : 0 < ending.bytes.length := by
  cases ending <;> decide

theorem FrameAt.length_rest_lt {front : Bytes} (frame : FrameAt bytes front first second rest) :
    rest.length < bytes.length := by
  have one := bytes_length_pos first
  rw [frame.whole, List.length_append, List.length_append, List.length_append]
  omega

theorem exists_frameAt {frameEnd delimiterLen : ℕ} (found : sseFrameEnd bytes = some (frameEnd, delimiterLen)) :
    ∃ front first second rest, FrameAt bytes front first second rest := by
  induction bytes generalizing frameEnd delimiterLen with
  | nil => cases found
  | cons b bytes ih =>
    rw [sseFrameEnd_cons, Option.or_eq_some_iff] at found
    rcases found with here | ⟨calm, later⟩
    · rw [frameEndAt_zero] at here
      obtain ⟨⟨first, tail⟩, taken, here⟩ := Option.bind_eq_some_iff.mp here
      obtain ⟨⟨second, rest⟩, next, -⟩ := Option.map_eq_some_iff.mp here
      obtain ⟨whole, apart⟩ := eq_append_of_takeEnding taken
      obtain ⟨rfl, closed⟩ := eq_append_of_takeEnding next
      refine ⟨[], first, second, rest, whole, rfl, (fun _ last => nomatch last), ?_, closed⟩
      rintro single rfl
      exact apart single rfl
    · obtain ⟨⟨frameEnd, _⟩, inner, -⟩ := Option.map_eq_some_iff.mp later
      obtain ⟨front, first, second, rest, frame⟩ := ih inner
      obtain ⟨rfl, quiet, plain, apart, closed⟩ := frame
      have ends : EndsPlain (b :: front) := by
        cases front with
        | nil =>
          intro c last
          rw [← Option.some.inj last]
          exact plain_of_calm closed apart calm
        | cons c front => exact plain
      have whole := frameEndAt_append_right (List.cons_ne_nil _ _) ends (first.bytes ++ (second.bytes ++ rest))
      refine ⟨b :: front, first, second, rest, rfl, ?_, ends, apart, closed⟩
      rw [sseFrameEnd_cons, ← whole, List.cons_append, calm, quiet]
      rfl

/-- Reading frame by frame. -/
@[elab_as_elim]
theorem frames_induction {motive : Bytes → Prop} (calm : ∀ bytes, sseFrameEnd bytes = none → motive bytes)
    (frame : ∀ bytes front first second rest, FrameAt bytes front first second rest → motive rest → motive bytes)
    (bytes : Bytes) : motive bytes := by
  induction len : bytes.length using Nat.strong_induction_on generalizing bytes with
  | _ n ih =>
    cases found : sseFrameEnd bytes with
    | none => exact calm bytes found
    | some position =>
      obtain ⟨front, first, second, rest, here⟩ := exists_frameAt found
      exact frame bytes front first second rest here (ih rest.length (len ▸ here.length_rest_lt) rest rfl)

/-- Reading a body: frame by frame while the buffer has one, else another chunk. -/
@[elab_as_elim]
theorem chunks_induction {motive : List Bytes → Bytes → Prop}
    (last : ∀ bytes, sseFrameEnd bytes = none → motive [] bytes)
    (chunk : ∀ chunk chunks bytes, sseFrameEnd bytes = none → motive chunks (bytes ++ chunk) →
      motive (chunk :: chunks) bytes)
    (frame : ∀ chunks bytes front first second rest, FrameAt bytes front first second rest → motive chunks rest →
      motive chunks bytes) (chunks : List Bytes) (bytes : Bytes) : motive chunks bytes := by
  induction chunks generalizing bytes with
  | nil => exact frames_induction last (frame []) bytes
  | cons head chunks ih =>
    exact frames_induction (fun bytes calm => chunk head chunks bytes calm (ih (bytes ++ head)))
      (frame (head :: chunks)) bytes

/-- More bytes leave the frame where it is. -/
theorem FrameAt.append {front : Bytes} (frame : FrameAt bytes front first second rest) (more : Bytes)
    (closed : second = .cr → (rest ++ more).head? ≠ some lf) :
    FrameAt (bytes ++ more) front first second (rest ++ more) where
  whole := by simp only [frame.whole, List.append_assoc]
  calm := frame.calm
  plain := frame.plain
  apart := frame.apart
  closed := closed

/-- A CR that ended the buffer becomes a CRLF. -/
theorem FrameAt.append_lf {front : Bytes} (frame : FrameAt bytes front first .cr []) (more : Bytes) :
    FrameAt (bytes ++ lf :: more) front first .crlf more where
  whole := by
    rw [frame.whole, List.append_assoc, List.append_assoc]
    rfl
  calm := frame.calm
  plain := frame.plain
  apart _ := LineEnding.noConfusion
  closed := LineEnding.noConfusion

/-! ### The line endings at the end -/

def isBreak (b : UInt8) : Bool := b = cr || b = lf

/-- The line endings among the bytes. -/
def lineEndings : Bytes → List LineEnding
  | [] => []
  | [b] => if b = cr then [.cr] else if b = lf then [.lf] else []
  | b :: c :: rest =>
    if b = cr ∧ c = lf then .crlf :: lineEndings rest
    else if b = cr then .cr :: lineEndings (c :: rest)
    else if b = lf then .lf :: lineEndings (c :: rest)
    else lineEndings (c :: rest)

/-- The line endings that the bytes end with. -/
def closingEndings (bytes : Bytes) : List LineEnding := lineEndings (bytes.rtakeWhile isBreak)

/-- Taken two at a time, the second of some pair is a CRLF. -/
def pairEndsInCrlf : List LineEnding → Bool
  | _ :: second :: rest => second = .crlf || pairEndsInCrlf rest
  | _ => false

def HasText (bytes : Bytes) : Prop := ∃ b ∈ bytes, Plain b

theorem isBreak_iff {b : UInt8} : isBreak b = true ↔ ¬Plain b := by
  simp [isBreak, Plain, imp_iff_not_or]

theorem lineEndings_append (ending : LineEnding) (whole : ending = .cr → rest.head? ≠ some lf) :
    lineEndings (ending.bytes ++ rest) = ending :: lineEndings rest := by
  cases ending with
  | crlf =>
    change lineEndings (cr :: lf :: rest) = _
    rw [lineEndings, if_pos ⟨rfl, rfl⟩]
  | lf =>
    change lineEndings (lf :: rest) = _
    cases rest with
    | nil => rfl
    | cons c rest => rw [lineEndings, if_neg (fun both => nomatch both.1), if_neg (by decide), if_pos rfl]
  | cr =>
    change lineEndings (cr :: rest) = _
    cases rest with
    | nil => rfl
    | cons c rest =>
      rw [lineEndings, if_neg fun both => whole rfl (congrArg some both.2), if_pos rfl]

theorem rtakeWhile_append_of_text {front : Bytes} (text : HasText rest) :
    (front ++ rest).rtakeWhile isBreak = rest.rtakeWhile isBreak := by
  obtain ⟨b, member, plain⟩ := text
  have stops : (rest.reverse.takeWhile isBreak).length ≠ rest.reverse.length := by
    intro all
    have same := List.IsPrefix.eq_of_length (List.takeWhile_prefix _) all
    have breaks := List.takeWhile_eq_self_iff.mp same b (List.mem_reverse.mpr member)
    exact isBreak_iff.mp breaks plain
  rw [List.rtakeWhile, List.reverse_append, List.takeWhile_append, if_neg stops]
  rfl

theorem rtakeWhile_append_of_breaks {front : Bytes} (plain : EndsPlain front) (breaks : ¬HasText rest) :
    (front ++ rest).rtakeWhile isBreak = rest := by
  have all : ∀ b ∈ rest.reverse, isBreak b = true := fun b member =>
    isBreak_iff.mpr fun text => breaks ⟨b, List.mem_reverse.mp member, text⟩
  have none : front.reverse.takeWhile isBreak = [] := by
    cases last : front.reverse with
    | nil => rfl
    | cons b before =>
      have text : Plain b := by
        refine plain b ?_
        rw [← List.head?_reverse, last]
        rfl
      exact List.takeWhile_cons_of_neg fun breaks => isBreak_iff.mp breaks text
  rw [List.rtakeWhile, List.reverse_append, List.takeWhile_append_of_pos all, none, List.append_nil,
    List.reverse_reverse]

theorem closingEndings_append_of_text (front : Bytes) (text : HasText rest) :
    closingEndings (front ++ rest) = closingEndings rest := by
  rw [closingEndings, rtakeWhile_append_of_text text, closingEndings]

theorem closingEndings_append_of_breaks {front : Bytes} (plain : EndsPlain front) (breaks : ¬HasText rest) :
    closingEndings (front ++ rest) = lineEndings rest := by
  rw [closingEndings, rtakeWhile_append_of_breaks plain breaks]

theorem endsPlain_nil : EndsPlain [] := fun _ last => nomatch last

theorem closingEndings_of_breaks (breaks : ¬HasText rest) : closingEndings rest = lineEndings rest :=
  closingEndings_append_of_breaks endsPlain_nil breaks

theorem not_hasText_ending (ending : LineEnding) : ¬HasText ending.bytes := by
  rintro ⟨b, member, text⟩
  exact not_plain_ending ending b member text

theorem hasText_append {front : Bytes} : HasText (front ++ rest) ↔ HasText front ∨ HasText rest := by
  simp only [HasText, List.mem_append, or_and_right, exists_or]

/-- The frame leaves the closing line endings as they are, if text follows. -/
theorem FrameAt.closingEndings_of_text {front : Bytes} (frame : FrameAt bytes front first second rest)
    (text : HasText rest) : closingEndings bytes = closingEndings rest := by
  have inner : HasText (second.bytes ++ rest) := hasText_append.mpr (.inr text)
  rw [frame.whole, closingEndings_append_of_text front (hasText_append.mpr (.inr inner)),
    closingEndings_append_of_text first.bytes inner, closingEndings_append_of_text second.bytes text]

/-- Otherwise it takes two of them. -/
theorem FrameAt.closingEndings_of_breaks {front : Bytes} (frame : FrameAt bytes front first second rest)
    (breaks : ¬HasText rest) : closingEndings bytes = first :: second :: closingEndings rest := by
  have inner : ¬HasText (second.bytes ++ rest) := by
    rw [hasText_append]
    exact not_or.mpr ⟨not_hasText_ending second, breaks⟩
  have outer : ¬HasText (first.bytes ++ (second.bytes ++ rest)) := by
    rw [hasText_append]
    exact not_or.mpr ⟨not_hasText_ending first, inner⟩
  have next : first = .cr → (second.bytes ++ rest).head? ≠ some lf := by
    intro single
    rw [head?_ending, if_neg (frame.apart single)]
    decide
  rw [frame.whole, closingEndings_append_of_breaks frame.plain outer, lineEndings_append first next,
    lineEndings_append second frame.closed, TrtLlm.Wire.closingEndings_of_breaks breaks]

/-- Bytes without text start with a line ending. -/
theorem exists_takeEnding (some : bytes ≠ []) (breaks : ¬HasText bytes) :
    ∃ ending rest, takeEnding bytes = .some (ending, rest) ∧ ¬HasText rest := by
  cases taken : takeEnding bytes with
  | none =>
    obtain ⟨b, bytes, rfl⟩ := List.exists_cons_of_ne_nil some
    exact absurd ⟨b, .head _, takeEnding_eq_none.mp taken b rfl⟩ breaks
  | some first =>
    obtain ⟨rfl, -⟩ := eq_append_of_takeEnding taken
    exact ⟨first.1, first.2, rfl, fun text => breaks (hasText_append.mpr (.inr text))⟩

theorem lineEndings_of_takeEnding (taken : takeEnding bytes = some (ending, rest)) :
    lineEndings bytes = ending :: lineEndings rest := by
  obtain ⟨rfl, whole⟩ := eq_append_of_takeEnding taken
  exact lineEndings_append ending whole

theorem closingEndings_ne_nil (some : bytes ≠ []) (breaks : ¬HasText bytes) : closingEndings bytes ≠ [] := by
  obtain ⟨ending, rest, taken, -⟩ := exists_takeEnding some breaks
  rw [closingEndings_of_breaks breaks, lineEndings_of_takeEnding taken]
  exact List.cons_ne_nil _ _

theorem sseFrameEnd_eq_none_of_append {front : Bytes} (none : sseFrameEnd (front ++ rest) = none) :
    sseFrameEnd rest = .none := by
  induction front with
  | nil => exact none
  | cons b front ih =>
    rw [List.cons_append, sseFrameEnd_cons, Option.or_eq_none_iff, Option.map_eq_none_iff] at none
    exact ih none.2

theorem endsPlain_rdropWhile (bytes : Bytes) : EndsPlain (bytes.rdropWhile isBreak) := by
  intro b last
  have some : bytes.rdropWhile isBreak ≠ [] := by
    intro none
    rw [none] at last
    cases last
  rw [List.getLast?_eq_some_getLast some] at last
  obtain rfl := Option.some.inj last
  exact not_not.mp fun breaks => List.rdropWhile_last_not isBreak bytes some (isBreak_iff.mpr breaks)

theorem not_hasText_rtakeWhile (bytes : Bytes) : ¬HasText (bytes.rtakeWhile isBreak) := by
  rintro ⟨b, member, text⟩
  rw [List.rtakeWhile, List.mem_reverse] at member
  exact isBreak_iff.mp (List.mem_takeWhile_imp member) text

/-- Where no frame ends, at most one line ending closes the bytes. -/
theorem length_closingEndings_le (none : sseFrameEnd bytes = none) : (closingEndings bytes).length ≤ 1 := by
  have breaks := not_hasText_rtakeWhile bytes
  rw [← List.rdropWhile_append_rtakeWhile (p := isBreak) (l := bytes)] at none
  have quiet := sseFrameEnd_eq_none_of_append none
  rw [closingEndings]
  generalize bytes.rtakeWhile isBreak = closing at breaks quiet
  by_cases empty : closing = []
  · rw [empty]
    decide
  obtain ⟨first, tail, taken, later⟩ := exists_takeEnding empty breaks
  by_cases last : tail = []
  · rw [lineEndings_of_takeEnding taken, last]
    exact le_rfl
  · obtain ⟨second, rest, next, -⟩ := exists_takeEnding last later
    have here : frameEndAt closing 0 = _ := frameEndAt_zero closing
    rw [taken, Option.bind_some, next] at here
    cases (sseFrameEnd_of_zero here).symm.trans quiet

/-- A second CRLF of a pair is cut in two: an even number of line endings up to its CR, and its LF before the rest. -/
theorem exists_cut (breaks : ¬HasText bytes) (split : pairEndsInCrlf (lineEndings bytes) = true) :
    ∃ before after, bytes = before ++ cr :: lf :: after ∧ Even (lineEndings (before ++ [cr])).length ∧
      (lineEndings bytes).length = (lineEndings (before ++ [cr])).length + (lineEndings after).length := by
  induction len : bytes.length using Nat.strong_induction_on generalizing bytes with
  | _ n ih =>
    have filled : bytes ≠ [] := by
      rintro rfl
      cases split
    obtain ⟨first, tail, taken, later⟩ := exists_takeEnding filled breaks
    obtain ⟨rfl, apart⟩ := eq_append_of_takeEnding taken
    rw [lineEndings_append first apart] at split ⊢
    have more : tail ≠ [] := by
      rintro rfl
      cases split
    obtain ⟨second, rest, next, last⟩ := exists_takeEnding more later
    obtain ⟨rfl, closed⟩ := eq_append_of_takeEnding next
    rw [lineEndings_append second closed] at split ⊢
    rcases (Bool.or_eq_true _ _).mp split with here | further
    · obtain rfl := of_decide_eq_true here
      have pair : lineEndings (first.bytes ++ [cr]) = [first, .cr] := by
        rw [lineEndings_append first fun _ => by decide]
        rfl
      refine ⟨first.bytes, rest, rfl, ?_, ?_⟩
      · rw [pair]
        exact ⟨1, rfl⟩
      · rw [pair]
        simp only [List.length_cons, List.length_nil]
        omega
    · have shorter : rest.length < n := by
        have one := bytes_length_pos first
        rw [← len, List.length_append, List.length_append]
        omega
      obtain ⟨before, after, rfl, even, total⟩ := ih _ shorter last further rfl
      have same : (before ++ [cr]).head? = (before ++ cr :: lf :: after).head? := by cases before <;> rfl
      have second_whole : second = .cr → (before ++ [cr]).head? ≠ some lf := fun single => same ▸ closed single
      have first_whole : first = .cr → (second.bytes ++ (before ++ [cr])).head? ≠ some lf := by
        rw [head?_ending] at apart ⊢
        exact apart
      have pair : lineEndings (first.bytes ++ (second.bytes ++ before) ++ [cr]) =
          first :: second :: lineEndings (before ++ [cr]) := by
        rw [List.append_assoc, List.append_assoc, lineEndings_append first first_whole,
          lineEndings_append second second_whole]
      refine ⟨first.bytes ++ (second.bytes ++ before), after, by simp only [List.append_assoc], ?_, ?_⟩
      · rw [pair, List.length_cons, List.length_cons, Nat.add_assoc]
        exact even.add ⟨1, rfl⟩
      · rw [pair]
        simp only [List.length_cons, total]
        omega

end TrtLlm.Wire
