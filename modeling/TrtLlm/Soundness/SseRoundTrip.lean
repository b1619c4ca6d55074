import TrtLlm.Soundness.SseScan

/-! # Server-sent events survive framing and chunking

Events are encoded line by line with one kind of line ending. However the bytes are cut into chunks, reading
gives the events back. What a call leaves in the buffer and the body is the encoding of the later events, after
the LF of a CRLF whose CR already closed the frame, if the cut was there.
-/

namespace TrtLlm.Wire

/-! ### UTF-8 -/

def utf8 (text : List Char) : Bytes := text.flatMap String.utf8EncodeChar

theorem fromUtf8_utf8 (text : List Char) : fromUtf8 (utf8 text) = some text := by
  change (List.utf8Encode text).utf8Decode?.map Array.toList = some text
  rw [List.utf8Decode?_utf8Encode]
  rfl

theorem utf8_append (front back : List Char) : utf8 (front ++ back) = utf8 front ++ utf8 back := List.flatMap_append

theorem utf8_intercalate (sep : List Char) (lines : List (List Char)) :
    utf8 (sep.intercalate lines) = (utf8 sep).intercalate (lines.map utf8) := by
  induction lines with
  | nil => rfl
  | cons line lines ih =>
    cases lines with
    | nil => rw [List.intercalate_singleton, List.map_singleton, List.intercalate_singleton]
    | cons next lines =>
      rw [List.intercalate_cons_cons, utf8_append, utf8_append, ih]
      exact (List.intercalate_cons_cons ..).symm

/-- The bytes of a character that is no line ending are none either. -/
theorem plain_utf8EncodeChar {c : Char} (plain : c ≠ '\r' ∧ c ≠ '\n') : ∀ b ∈ String.utf8EncodeChar c, Plain b := by
  have value : c.val.toNat ≠ 13 ∧ c.val.toNat ≠ 10 :=
    ⟨fun same => plain.1 (Char.toNat_inj.mp same), fun same => plain.2 (Char.toNat_inj.mp same)⟩
  have byte : ∀ n < 256, n ≠ 13 → n ≠ 10 → Plain (UInt8.ofNat n) := by
    intro n small notCr notLf
    have same : (UInt8.ofNat n).toNat = n := by
      rw [UInt8.toNat_ofNat']
      exact Nat.mod_eq_of_lt small
    exact ⟨fun other => notCr (same.symm.trans (congrArg UInt8.toNat other)),
      fun other => notLf (same.symm.trans (congrArg UInt8.toNat other))⟩
  intro b member
  unfold String.utf8EncodeChar at member
  simp only at member
  split at member
  · rw [List.mem_singleton.mp member]
    exact byte _ (by omega) value.1 value.2
  · split at member
    · simp only [List.mem_cons, List.not_mem_nil, or_false] at member
      rcases member with rfl | rfl <;> exact byte _ (by omega) (by omega) (by omega)
    · split at member
      · simp only [List.mem_cons, List.not_mem_nil, or_false] at member
        rcases member with rfl | rfl | rfl <;> exact byte _ (by omega) (by omega) (by omega)
      · simp only [List.mem_cons, List.not_mem_nil, or_false] at member
        rcases member with rfl | rfl | rfl | rfl <;> exact byte _ (by omega) (by omega) (by omega)

/-! ### Encoding -/

/-- The lines of an event: its name, if it has one, and one line for each line of its data. -/
def eventLines (event : SseEvent) : List (List Char) :=
  (event.event.map fun name => "event: ".toList ++ name.toList).toList ++
    (event.data.toList.splitOn '\n').map ("data: ".toList ++ ·)

def encodeEvent (ending : LineEnding) (event : SseEvent) : Bytes :=
  ((eventLines event).flatMap fun line => utf8 line ++ ending.bytes) ++ ending.bytes

def encode (ending : LineEnding) (events : List SseEvent) : Bytes := events.flatMap (encodeEvent ending)

/-- The name is one line, and no CR is in the data. -/
structure Encodable (event : SseEvent) : Prop where
  name : ∀ name ∈ event.event, '\r' ∉ name.toList ∧ '\n' ∉ name.toList
  data : '\r' ∉ event.data.toList

theorem eventLines_ne_nil (event : SseEvent) : eventLines event ≠ [] := by
  intro none
  exact List.splitOn_ne_nil _ _ (List.map_eq_nil_iff.mp (List.append_eq_nil_iff.mp none).2)

/-- The pieces of a list hold its elements other than the separator. -/
theorem mem_splitOn {a : Char} {text piece : List Char} (listed : piece ∈ text.splitOn a) :
    ∀ c ∈ piece, c ∈ text ∧ c ≠ a := by
  induction text generalizing piece with
  | nil =>
    rw [List.splitOn_nil] at listed
    rw [List.mem_singleton.mp listed]
    exact fun c member => nomatch member
  | cons x text ih =>
    have tail : ∀ {piece}, piece ∈ text.splitOn a → ∀ c ∈ piece, c ∈ x :: text ∧ c ≠ a := fun listed c member =>
      ⟨.tail _ (ih listed c member).1, (ih listed c member).2⟩
    rw [List.splitOn_cons_eq_if_modifyHead] at listed
    split at listed
    next =>
      rcases List.mem_cons.mp listed with rfl | later
      · exact fun c member => nomatch member
      · exact tail later
    next apart =>
      obtain ⟨first, rest, split⟩ := List.exists_cons_of_ne_nil (List.splitOn_ne_nil a text)
      rw [split, List.modifyHead_cons] at listed
      rcases List.mem_cons.mp listed with rfl | later
      · intro c member
        rcases List.mem_cons.mp member with rfl | later
        · exact ⟨.head _, by simpa using apart⟩
        · exact tail (split ▸ .head _) c later
      · exact tail (split ▸ .tail _ later)

theorem Encodable.lines {event : SseEvent} (encodable : Encodable event) {line : List Char}
    (listed : line ∈ eventLines event) : line ≠ [] ∧ ∀ c ∈ line, c ≠ '\r' ∧ c ≠ '\n' := by
  have keyword : ∀ (word : String) (rest : List Char), (∀ c ∈ word.toList, c ≠ '\r' ∧ c ≠ '\n') →
      (∀ c ∈ rest, c ≠ '\r' ∧ c ≠ '\n') → ∀ c ∈ word.toList ++ rest, c ≠ '\r' ∧ c ≠ '\n' := by
    intro word rest first later c member
    rcases List.mem_append.mp member with here | there
    · exact first c here
    · exact later c there
  rcases List.mem_append.mp listed with named | piece
  · obtain ⟨name, known, rfl⟩ := Option.map_eq_some_iff.mp (Option.mem_toList.mp named)
    refine ⟨by simp, keyword _ _ (by simp) fun c member => ?_⟩
    obtain ⟨notCr, notLf⟩ := encodable.name name known
    exact ⟨fun same => notCr (same ▸ member), fun same => notLf (same ▸ member)⟩
  · obtain ⟨data, inside, rfl⟩ := List.mem_map.mp piece
    refine ⟨by simp, keyword _ _ (by simp) fun c member => ?_⟩
    obtain ⟨within, apart⟩ := mem_splitOn inside c member
    exact ⟨fun same => encodable.data (same ▸ within), apart⟩

theorem Encodable.textLines {event : SseEvent} (encodable : Encodable event) :
    TextLines ((eventLines event).map utf8) := by
  intro bytes member
  obtain ⟨line, listed, rfl⟩ := List.mem_map.mp member
  obtain ⟨nonempty, plain⟩ := encodable.lines listed
  constructor
  · obtain ⟨c, line, rfl⟩ := List.exists_cons_of_ne_nil nonempty
    intro none
    rw [utf8, List.flatMap_cons] at none
    exact String.utf8EncodeChar_ne_nil (List.append_eq_nil_iff.mp none).1
  · intro b inside
    obtain ⟨c, here, encoded⟩ := List.mem_flatMap.mp inside
    exact plain_utf8EncodeChar (plain c here) b encoded

theorem flatMap_ending {ending : Bytes} {lines : List Bytes} (some : lines ≠ []) :
    (lines.flatMap fun line => line ++ ending) = ending.intercalate lines ++ ending := by
  induction lines with
  | nil => exact absurd rfl some
  | cons line lines ih =>
    cases lines with
    | nil => simp
    | cons next lines =>
      rw [List.flatMap_cons, ih (List.cons_ne_nil _ _), List.intercalate_cons_cons]
      simp only [List.append_assoc]

theorem encodeEvent_eq (ending : LineEnding) (event : SseEvent) : encodeEvent ending event =
    ending.bytes.intercalate ((eventLines event).map utf8) ++ (ending.bytes ++ ending.bytes) := by
  have mapped : ((eventLines event).flatMap fun line => utf8 line ++ ending.bytes) =
      ((eventLines event).map utf8).flatMap fun line => line ++ ending.bytes := by
    rw [List.flatMap_map]
  rw [encodeEvent, mapped, flatMap_ending (mt List.map_eq_nil_iff.mp (eventLines_ne_nil event)), List.append_assoc]

theorem startsPlain_encode (ending : LineEnding) {events : List SseEvent} (encodable : ∀ event ∈ events, Encodable event) :
    StartsPlain (encode ending events) := by
  cases events with
  | nil => exact fun _ head => nomatch head
  | cons event events =>
    have text := (encodable event (.head _)).textLines
    obtain ⟨line, lines, split⟩ := List.exists_cons_of_ne_nil (mt List.map_eq_nil_iff.mp (eventLines_ne_nil event))
    rw [split] at text
    rw [encode, List.flatMap_cons, encodeEvent_eq, split, List.append_assoc]
    exact startsPlain_intercalate text _

/-! ### Parsing a frame -/

def LineEnding.chars : LineEnding → List Char
  | .lf => ['\n']
  | .crlf => ['\r', '\n']
  | .cr => ['\r']

theorem utf8_chars (ending : LineEnding) : utf8 ending.chars = ending.bytes := by
  cases ending <;> decide

/-- What may be left of the line ending that closed the frame before. -/
def Leftover (ending : LineEnding) (stray : Bytes) : Prop := stray = [] ∨ ending = .crlf ∧ stray = [lf]

/-- The scanner splits lines at both characters. -/
abbrev breaksLine (c : Char) : Bool := c = '\r' || c = '\n'

theorem foldl_splitOnP_lines (ending : LineEnding) {lines : List (List Char)} (some : lines ≠ [])
    (plain : ∀ line ∈ lines, ∀ c ∈ line, c ≠ '\r' ∧ c ≠ '\n') (fields : FrameFields) :
    ((ending.chars.intercalate lines).splitOnP breaksLine).foldl FrameFields.readLine fields =
      lines.foldl FrameFields.readLine fields := by
  have calm : ∀ line ∈ lines, ∀ c ∈ line, breaksLine c = false := by
    intro line listed c member
    simp [(plain line listed c member).1, (plain line listed c member).2]
  induction lines generalizing fields with
  | nil => exact absurd rfl some
  | cons line lines ih =>
    cases lines with
    | nil =>
      rw [List.intercalate_singleton, List.splitOnP_eq_singleton (calm line (.head _))]
    | cons next lines =>
      have rest := ih (List.cons_ne_nil _ _) (fun other member => plain other (.tail _ member)) (fields.readLine line)
        fun other member => calm other (.tail _ member)
      rw [List.intercalate_cons_cons, List.append_assoc, List.foldl_cons, ← rest]
      cases ending with
      | lf => exact congrArg _ (List.splitOnP_append_cons_of_forall_mem (calm line (.head _)) '\n' rfl _)
      | cr => exact congrArg _ (List.splitOnP_append_cons_of_forall_mem (calm line (.head _)) '\r' rfl _)
      | crlf =>
        -- The CR ends the line and the LF an empty one.
        have first := List.splitOnP_append_cons_of_forall_mem (calm line (.head _)) '\r' rfl
          ('\n' :: LineEnding.crlf.chars.intercalate (next :: lines))
        have nothing : ∀ c ∈ ([] : List Char), breaksLine c = false := by simp
        have second := List.splitOnP_append_cons_of_forall_mem nothing '\n' rfl
          (LineEnding.crlf.chars.intercalate (next :: lines))
        change (List.splitOnP breaksLine (line ++ '\r' :: '\n' ::
          LineEnding.crlf.chars.intercalate (next :: lines))).foldl _ _ = _
        rw [first, ← List.nil_append ('\n' :: _), second]
        rfl

theorem readLine_event (fields : FrameFields) (name : List Char) :
    fields.readLine ("event: ".toList ++ name) = { fields with event := some name } := by
  change fields.readLine ('e' :: 'v' :: 'e' :: 'n' :: 't' :: ':' :: ' ' :: name) = _
  simp [FrameFields.readLine, splitField, stripSpace, List.takeWhile, List.dropWhile]

theorem readLine_data (fields : FrameFields) (piece : List Char) :
    fields.readLine ("data: ".toList ++ piece) = { fields with data := fields.data ++ [piece] } := by
  change fields.readLine ('d' :: 'a' :: 't' :: 'a' :: ':' :: ' ' :: piece) = _
  simp [FrameFields.readLine, splitField, stripSpace, List.takeWhile, List.dropWhile]

theorem foldl_readLine_data (fields : FrameFields) (pieces : List (List Char)) :
    (pieces.map ("data: ".toList ++ ·)).foldl FrameFields.readLine fields =
      { fields with data := fields.data ++ pieces } := by
  induction pieces generalizing fields with
  | nil => simp
  | cons piece pieces ih => rw [List.map_cons, List.foldl_cons, readLine_data, ih, List.append_assoc]; rfl

theorem foldl_readLine_event (event : SseEvent) :
    (eventLines event).foldl FrameFields.readLine {} =
      ⟨event.event.map String.toList, event.data.toList.splitOn '\n'⟩ := by
  rw [eventLines, List.foldl_append, foldl_readLine_data]
  cases event.event with
  | none => rfl
  | some name =>
    simp only [Option.map_some, Option.toList_some, List.foldl_cons, List.foldl_nil, readLine_event, List.nil_append]

/-- A frame of encoded lines, after what may be left over, is its event. -/
theorem parseSseFrame_encoded (utf8Error : Bytes → String) {ending : LineEnding} {event : SseEvent}
    (encodable : Encodable event) {stray : Bytes} (left : Leftover ending stray) :
    parseSseFrame utf8Error (stray ++ ending.bytes.intercalate ((eventLines event).map utf8)) = .ok (some event) := by
  obtain ⟨text, encoded, lines⟩ : ∃ text, stray ++ ending.bytes.intercalate ((eventLines event).map utf8) = utf8 text ∧
      (text.splitOnP breaksLine).foldl FrameFields.readLine {} = (eventLines event).foldl FrameFields.readLine {} := by
    have scan := foldl_splitOnP_lines ending (eventLines_ne_nil event)
      (fun line listed => (encodable.lines listed).2) {}
    have joined : utf8 (ending.chars.intercalate (eventLines event)) =
        ending.bytes.intercalate ((eventLines event).map utf8) := by
      rw [utf8_intercalate, utf8_chars]
    rcases left with rfl | ⟨_, rfl⟩
    · exact ⟨_, joined.symm, scan⟩
    · refine ⟨'\n' :: ending.chars.intercalate (eventLines event), ?_, ?_⟩
      · rw [← joined]
        exact (utf8_append ['\n'] _).symm
      · rw [← List.nil_append ('\n' :: _), List.splitOnP_append_cons_of_forall_mem (by simp) '\n' rfl]
        exact scan
  rw [parseSseFrame, encoded, fromUtf8_utf8]
  simp only
  rw [lines, foldl_readLine_event, if_neg (List.splitOn_ne_nil _ _), List.intercalate_splitOn, String.ofList_toList]
  cases event with
  | mk name data => cases name <;> simp

/-! ### Reading events -/

/-- The scan after what may be left over. -/
theorem sseFrameEnd_event {ending : LineEnding} {event : SseEvent} (encodable : Encodable event) {stray tail p : Bytes}
    (left : Leftover ending stray) (plain : StartsPlain tail)
    (front : p <+: stray ++ (encodeEvent ending event ++ tail)) :
    sseFrameEnd p = none ∧
        p.length ≤ (stray ++ (ending.bytes.intercalate ((eventLines event).map utf8) ++ ending.bytes)).length ∨
      ∃ q, p = (stray ++ ending.bytes.intercalate ((eventLines event).map utf8)) ++ (ending.bytes ++ q) ∧ q ≠ [] ∧
        q <+: ending.bytes ++ tail ∧ sseFrameEnd p =
          some ((stray ++ ending.bytes.intercalate ((eventLines event).map utf8)).length,
            ending.bytes.length + secondLen ending q) := by
  have text := encodable.textLines
  have some : (eventLines event).map utf8 ≠ [] := mt List.map_eq_nil_iff.mp (eventLines_ne_nil event)
  rw [encodeEvent_eq, List.append_assoc, List.append_assoc] at front
  rcases left with rfl | ⟨_, rfl⟩
  · rcases sseFrameEnd_lines ending some text plain front with ⟨inside, none⟩ | ⟨q, same, nonempty, within, found⟩
    · exact .inl ⟨none, inside.length_le⟩
    · exact .inr ⟨q, same, nonempty, within, found⟩
  · rcases prefix_append_cases front with inside | ⟨r, rfl, later⟩
    · refine .inl ⟨sseFrameEnd_ending .lf inside, inside.length_le.trans ?_⟩
      rw [List.length_append]
      exact Nat.le_add_right _ _
    · have begins : StartsPlain r := by
        obtain ⟨line, lines, split⟩ := List.exists_cons_of_ne_nil some
        rw [split] at text later
        exact (startsPlain_intercalate text _).front later
      have skip : sseFrameEnd ([lf] ++ r) = (sseFrameEnd r).map (shift 1) := sseFrameEnd_apart .lf begins
      rcases sseFrameEnd_lines ending some text plain later with ⟨inside, none⟩ | ⟨q, rfl, nonempty, within, found⟩
      · refine .inl ⟨by rw [skip, none]; rfl, ?_⟩
        have shorter := inside.length_le
        simp only [List.length_append] at shorter ⊢
        omega
      · refine .inr ⟨q, by rw [List.append_assoc], nonempty, within, ?_⟩
        rw [skip, found, Option.map_some, shift, Nat.add_comm, List.length_append]
        rfl

namespace HttpTransport

variable (utf8Error : Bytes → String)

theorem nextEvent_frame {t : HttpTransport} {frameEnd delimiterLen : ℕ} {event : SseEvent}
    (found : sseFrameEnd t.buffered = some (frameEnd, delimiterLen))
    (parsed : parseSseFrame utf8Error (t.buffered.take frameEnd) = .ok (some event)) :
    nextEvent utf8Error t = (.ok (some event), { t with buffered := (t.buffered.drop frameEnd).drop delimiterLen }) := by
  rw [nextEvent]
  split
  next frameEnd' delimiterLen' known =>
    obtain ⟨rfl, rfl⟩ := Prod.mk.inj (Option.some.inj (found.symm.trans known))
    simp only [parsed]
  next none =>
    rw [none] at found
    cases found

theorem nextEvent_chunk {buffered chunk : Bytes} (none : sseFrameEnd buffered = none)
    (chunks : List (Except String Bytes)) : nextEvent utf8Error ⟨some (.ok chunk :: chunks), buffered⟩ =
      nextEvent utf8Error ⟨some chunks, buffered ++ chunk⟩ := by
  rw [nextEvent]
  split
  next known =>
    rw [none] at known
    cases known
  next => rfl

theorem nextEvent_end {buffered : Bytes} (none : sseFrameEnd buffered = none) :
    nextEvent utf8Error ⟨some [], buffered⟩ =
      (if buffered = [] then .ok Option.none else .error ⟨"SSE stream ended in a partial frame"⟩,
        ⟨Option.none, buffered⟩) := by
  rw [nextEvent]
  split
  next known =>
    rw [none] at known
    cases known
  next =>
    simp only
    split <;> rfl

/-- After a second line ending, or the CR of one, the rest of the bytes is what may be left over and the tail. -/
theorem drop_secondLen {ending : LineEnding} {q flat tail : Bytes} (nonempty : q ≠ [])
    (total : q ++ flat = ending.bytes ++ tail) :
    ∃ stray, Leftover ending stray ∧ q.drop (secondLen ending q) ++ flat = stray ++ tail := by
  have started : 0 < q.length := List.length_pos_iff.mpr nonempty
  by_cases short : ending = .crlf ∧ q.length = 1
  · obtain ⟨rfl, single⟩ := short
    obtain ⟨b, rfl⟩ := List.length_eq_one_iff.mp single
    refine ⟨[lf], .inr ⟨rfl, rfl⟩, ?_⟩
    exact (List.cons.inj total).2
  · have whole : ending.bytes.length ≤ q.length := by
      cases ending with
      | lf => exact started
      | cr => exact started
      | crlf =>
        have longer : q.length ≠ 1 := fun single => short ⟨rfl, single⟩
        change 2 ≤ q.length
        omega
    refine ⟨[], .inl rfl, ?_⟩
    rw [secondLen, if_neg short, ← List.drop_append_of_le_length whole, total, List.drop_left]
    rfl

/-- A whole frame in the buffer is read at once. -/
theorem nextEvent_buffered {ending : LineEnding} {event : SseEvent} (encodable : Encodable event) {stray tail : Bytes}
    (left : Leftover ending stray) {chunks : List Bytes} {q : Bytes} (nonempty : q ≠ [])
    (found : sseFrameEnd ((stray ++ ending.bytes.intercalate ((eventLines event).map utf8)) ++ (ending.bytes ++ q)) =
      some ((stray ++ ending.bytes.intercalate ((eventLines event).map utf8)).length,
        ending.bytes.length + secondLen ending q))
    (closing : q ++ chunks.flatten = ending.bytes ++ tail) :
    ∃ (rest after : Bytes), nextEvent utf8Error ⟨some (chunks.map .ok),
          (stray ++ ending.bytes.intercalate ((eventLines event).map utf8)) ++ (ending.bytes ++ q)⟩ =
        (.ok (some event), ⟨some (chunks.map .ok), rest⟩) ∧
      Leftover ending after ∧ rest ++ chunks.flatten = after ++ tail := by
  obtain ⟨after, kept, rest⟩ := drop_secondLen nonempty closing
  refine ⟨q.drop (secondLen ending q), after, ?_, kept, rest⟩
  rw [nextEvent_frame utf8Error found (by rw [List.take_left]; exact parseSseFrame_encoded utf8Error encodable left)]
  simp only [List.drop_left, ← List.drop_drop]

/-- One call reads one event, however its bytes are cut. -/
theorem nextEvent_reads {ending : LineEnding} {event : SseEvent} (encodable : Encodable event) {stray tail : Bytes}
    (left : Leftover ending stray) (plain : StartsPlain tail) {chunks : List Bytes} {buffered : Bytes}
    (total : buffered ++ chunks.flatten = stray ++ (encodeEvent ending event ++ tail)) :
    ∃ (later : List Bytes) (rest after : Bytes), nextEvent utf8Error ⟨some (chunks.map .ok), buffered⟩ =
        (.ok (some event), ⟨some (later.map .ok), rest⟩) ∧
      Leftover ending after ∧ rest ++ later.flatten = after ++ tail := by
  induction chunks generalizing buffered with
  | nil =>
    rcases sseFrameEnd_event encodable left plain ⟨_, total⟩ with ⟨_, short⟩ | ⟨q, rfl, nonempty, _, found⟩
    · -- All bytes are there, so the frame is.
      rw [List.flatten_nil, List.append_nil] at total
      rw [total, encodeEvent_eq] at short
      simp only [List.length_append] at short
      have longer : 0 < ending.bytes.length := by cases ending <;> decide
      omega
    · rw [encodeEvent_eq] at total
      have closing : q ++ [].flatten = ending.bytes ++ tail := by
        simpa only [List.append_assoc, List.append_cancel_left_eq] using total
      exact ⟨[], nextEvent_buffered utf8Error encodable left nonempty found closing⟩
  | cons chunk chunks ih =>
    rcases sseFrameEnd_event encodable left plain ⟨_, total⟩ with ⟨none, _⟩ | ⟨q, rfl, nonempty, _, found⟩
    · rw [List.map_cons, nextEvent_chunk utf8Error none]
      refine ih ?_
      rw [← total, List.flatten_cons, List.append_assoc]
    · rw [encodeEvent_eq] at total
      have closing : q ++ (chunk :: chunks).flatten = ending.bytes ++ tail := by
        simpa only [List.append_assoc, List.append_cancel_left_eq] using total
      exact ⟨chunk :: chunks, nextEvent_buffered utf8Error encodable left nonempty found closing⟩

/-- With nothing but a leftover to come, a call takes the rest of the body and finds its end. -/
theorem nextEvent_finishes {ending : LineEnding} {stray : Bytes} (left : Leftover ending stray) {chunks : List Bytes}
    {buffered : Bytes} (total : buffered ++ chunks.flatten = stray) :
    nextEvent utf8Error ⟨some (chunks.map .ok), buffered⟩ =
      (if stray = [] then .ok none else .error ⟨"SSE stream ended in a partial frame"⟩, ⟨none, stray⟩) := by
  have quiet : ∀ {p : Bytes}, p <+: stray → sseFrameEnd p = none := by
    intro p front
    rcases left with rfl | ⟨_, rfl⟩
    · rw [List.prefix_nil.mp front]
      rfl
    · exact sseFrameEnd_ending .lf front
  induction chunks generalizing buffered with
  | nil =>
    rw [List.flatten_nil, List.append_nil] at total
    subst total
    exact nextEvent_end utf8Error (quiet (List.prefix_refl _))
  | cons chunk chunks ih =>
    rw [List.map_cons, nextEvent_chunk utf8Error (quiet ⟨_, total⟩)]
    refine ih ?_
    rw [← total, List.flatten_cons, List.append_assoc]

/-- Successive calls and what they return. -/
def readEvents (utf8Error : Bytes → String) : ℕ → HttpTransport →
    List (Except TransportError (Option SseEvent)) × HttpTransport
  | 0, t => ([], t)
  | n + 1, t =>
    let (result, next) := nextEvent utf8Error t
    let (results, last) := readEvents utf8Error n next
    (result :: results, last)

theorem readEvents_encode {ending : LineEnding} {events : List SseEvent} (encodable : ∀ event ∈ events, Encodable event)
    {stray : Bytes} (left : Leftover ending stray) {chunks : List Bytes} {buffered : Bytes}
    (total : buffered ++ chunks.flatten = stray ++ encode ending events) :
    ∃ (later : List Bytes) (rest after : Bytes),
      readEvents utf8Error events.length ⟨some (chunks.map .ok), buffered⟩ =
        (events.map (fun event => .ok (some event)), ⟨some (later.map .ok), rest⟩) ∧
      Leftover ending after ∧ rest ++ later.flatten = after := by
  induction events generalizing stray chunks buffered with
  | nil =>
    rw [encode, List.flatMap_nil, List.append_nil] at total
    exact ⟨chunks, buffered, stray, rfl, left, total⟩
  | cons event events ih =>
    have others : ∀ event ∈ events, Encodable event := fun other member => encodable other (.tail _ member)
    rw [encode, List.flatMap_cons] at total
    obtain ⟨later, rest, after, first, kept, remaining⟩ :=
      nextEvent_reads utf8Error (encodable event (.head _)) left (startsPlain_encode ending others) total
    obtain ⟨final, last, end', read, closed, done⟩ := ih others kept remaining
    refine ⟨final, last, end', ?_, closed, done⟩
    rw [List.length_cons, readEvents, first]
    simp only [read]
    rfl

/-- However the encoded events are cut into chunks, successive calls return exactly those events, in order, before
the body ends; the call after them finds its end. -/
theorem chunked_events_round_trip (utf8Error : Bytes → String) (ending : LineEnding) (events : List SseEvent)
    (encodable : ∀ event ∈ events, Encodable event) (chunks : List Bytes) (cut : chunks.flatten = encode ending events) :
    let read := readEvents utf8Error events.length ⟨some (chunks.map .ok), []⟩
    read.1 = events.map (fun event => .ok (some event)) ∧ read.2.stream.isSome ∧
      (nextEvent utf8Error read.2).2.stream = none ∧ ∀ event, (nextEvent utf8Error read.2).1 ≠ .ok (some event) := by
  intro read
  have whole : [] ++ chunks.flatten = [] ++ encode ending events := cut
  obtain ⟨later, rest, after, same, left, done⟩ :=
    readEvents_encode utf8Error encodable (.inl rfl : Leftover ending []) whole
  have state : read = (events.map (fun event => .ok (some event)), ⟨some (later.map .ok), rest⟩) := same
  have last := nextEvent_finishes utf8Error left done
  rw [state, last]
  refine ⟨rfl, rfl, rfl, fun event => ?_⟩
  simp only
  split <;> simp

/-- A CRLF stream cut inside a two-byte character and inside the CRLF that closes its first frame. -/
theorem chunked_events_round_trip_crlf :
    let events : List SseEvent := [⟨some "token", "a\né"⟩, ⟨none, ""⟩]
    let chunks := [(encode .crlf events).take 30, ((encode .crlf events).drop 30).take 4,
      ((encode .crlf events).drop 30).drop 4]
    (readEvents (fun _ => "") 2 ⟨some (chunks.map .ok), []⟩).1 = events.map fun event => .ok (some event) := by
  intro events chunks
  refine (chunked_events_round_trip (fun _ => "") .crlf events ?_ chunks ?_).1
  · intro event member
    simp only [events, List.mem_cons, List.not_mem_nil, or_false] at member
    rcases member with rfl | rfl
    · exact ⟨by decide, by decide⟩
    · exact ⟨by decide, by decide⟩
  · simp only [chunks, List.flatten_cons, List.flatten_nil, List.append_nil]
    rw [List.take_append_drop, List.take_append_drop]

end HttpTransport

end TrtLlm.Wire
