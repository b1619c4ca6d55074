import Mathlib.Algebra.Group.Nat.Even
import TrtLlm.Soundness.SseFrames

/-! # How a stream of events ends

The events read from a body do not depend on how it was cut into chunks; whether the end is clean may. A CRLF that
closes a frame and was cut in two leaves its LF behind, and only text takes it up. So the end depends on the cuts
exactly when every frame is UTF-8 and a CRLF closes a frame among the line endings at the end.
-/

namespace TrtLlm.Wire

/-! ### UTF-8 at line endings -/

variable {bytes front back rest : Bytes} {first second ending : LineEnding}

theorem fromUtf8_eq_some_iff {text : List Char} : fromUtf8 bytes = some text ↔ bytes = utf8 text := by
  constructor
  · intro read
    obtain ⟨decoded, found, -⟩ := Option.map_eq_some_iff.mp read
    obtain ⟨chars, encoded⟩ := ByteArray.isSome_utf8Decode?_iff.mp (Option.isSome_of_eq_some found)
    obtain rfl : bytes = utf8 chars := List.toByteArray_inj.mp encoded
    rw [fromUtf8_utf8] at read
    rw [Option.some.inj read]
  · rintro rfl
    exact fromUtf8_utf8 text

/-- A byte of a line ending is a character of its own. -/
theorem exists_split_utf8 {text : List Char} {b : UInt8} (breaks : ¬Plain b) (whole : utf8 text = front ++ b :: back) :
    ∃ before c after, text = before ++ c :: after ∧ front = utf8 before ∧ [b] = utf8 [c] ∧ back = utf8 after := by
  induction text generalizing front with
  | nil => exact absurd (congrArg List.length whole) (by simp [utf8])
  | cons c text ih =>
    have parts : String.utf8EncodeChar c ++ utf8 text = front ++ b :: back := whole
    have deeper : ∀ inner : Bytes, front = String.utf8EncodeChar c ++ inner → utf8 text = inner ++ b :: back →
        ∃ before c' after, c :: text = before ++ c' :: after ∧ front = utf8 before ∧ [b] = utf8 [c'] ∧
          back = utf8 after := by
      rintro inner rfl same
      obtain ⟨before, d, after, rfl, rfl, single, rfl⟩ := ih same
      exact ⟨c :: before, d, after, rfl, rfl, single, rfl⟩
    rcases List.append_eq_append_iff.mp parts with ⟨inner, split, same⟩ | ⟨inner, split, same⟩
    · exact deeper inner split same
    · cases inner with
      | nil =>
        rw [List.append_nil] at split
        exact deeper [] (by rw [List.append_nil, split]) same.symm
      | cons d inner =>
        obtain ⟨rfl, rfl⟩ := List.cons.inj same
        have inside : b ∈ String.utf8EncodeChar c := split ▸ List.mem_append_right _ (.head _)
        have line : c = '\r' ∨ c = '\n' := by
          by_contra plain
          exact breaks (plain_utf8EncodeChar (not_or.mp plain) b inside)
        have single : String.utf8EncodeChar c = [b] := by
          rcases line with rfl | rfl <;> exact congrArg (fun b => [b]) (List.mem_singleton.mp inside).symm
        have alone : front ++ b :: inner = [] ++ b :: [] := split.symm.trans single
        have empty : front = [] ∧ inner = [] := by
          have size := congrArg List.length alone
          simp only [List.length_append, List.length_cons, List.length_nil] at size
          exact ⟨List.length_eq_zero_iff.mp (by omega), List.length_eq_zero_iff.mp (by omega)⟩
        obtain ⟨rfl, rfl⟩ := empty
        exact ⟨[], c, text, rfl, rfl, by simp [utf8, single], rfl⟩

/-- The bytes are UTF-8. -/
def Valid (bytes : Bytes) : Prop := ∃ text, bytes = utf8 text

theorem fromUtf8_eq_none_iff : fromUtf8 bytes = none ↔ ¬Valid bytes := by
  rw [Option.eq_none_iff_forall_ne_some, Valid, not_exists]
  exact forall_congr' fun text => not_congr fromUtf8_eq_some_iff

theorem valid_nil : Valid [] := ⟨[], rfl⟩

theorem Valid.append (left : Valid front) (right : Valid back) : Valid (front ++ back) := by
  obtain ⟨before, rfl⟩ := left
  obtain ⟨after, rfl⟩ := right
  exact ⟨before ++ after, (utf8_append before after).symm⟩

theorem valid_ending (ending : LineEnding) : Valid ending.bytes := ⟨ending.chars, (utf8_chars ending).symm⟩

theorem Valid.split {b : UInt8} (breaks : ¬Plain b) (valid : Valid (front ++ b :: back)) :
    Valid front ∧ Valid back := by
  obtain ⟨text, whole⟩ := valid
  obtain ⟨before, c, after, -, left, -, right⟩ := exists_split_utf8 breaks whole.symm
  exact ⟨⟨before, left⟩, ⟨after, right⟩⟩

theorem valid_append_ending : Valid (front ++ (ending.bytes ++ back)) ↔ Valid front ∧ Valid back := by
  refine ⟨fun valid => ?_, fun ⟨left, right⟩ => left.append ((valid_ending ending).append right)⟩
  cases ending with
  | lf => exact valid.split (not_plain_ending .lf lf (.head _))
  | cr => exact valid.split (not_plain_ending .cr cr (.head _))
  | crlf =>
    have whole : Valid (front ++ cr :: lf :: back) := valid
    obtain ⟨left, later⟩ := whole.split (not_plain_ending .cr cr (.head _))
    have inner : Valid ([] ++ lf :: back) := later
    exact ⟨left, (inner.split (not_plain_ending .lf lf (.head _))).2⟩

theorem FrameAt.valid_iff (frame : FrameAt bytes front first second rest) : Valid bytes ↔ Valid front ∧ Valid rest := by
  rw [frame.whole, valid_append_ending, ← List.nil_append (second.bytes ++ rest), valid_append_ending]
  exact and_congr_right' (and_iff_right valid_nil)

/-! ### Frames after a line ending -/

/-- A line ending in front of a frame changes nothing but the text of an error. -/
theorem parseSseFrame_ending (utf8Error : Bytes → String) (ending : LineEnding) (frame : Bytes) :
    (parseSseFrame utf8Error (ending.bytes ++ frame)).toOption = (parseSseFrame utf8Error frame).toOption := by
  have valid : Valid (ending.bytes ++ frame) ↔ Valid frame := by
    have split : Valid ([] ++ (ending.bytes ++ frame)) ↔ Valid [] ∧ Valid frame := valid_append_ending
    exact split.trans (and_iff_right valid_nil)
  rw [parseSseFrame, parseSseFrame]
  cases decoded : fromUtf8 frame with
  | none =>
    rw [fromUtf8_eq_none_iff.mpr fun whole => fromUtf8_eq_none_iff.mp decoded (valid.mp whole)]
    rfl
  | some text =>
    have whole : ending.bytes ++ frame = utf8 (ending.chars ++ text) := by
      rw [utf8_append, utf8_chars, fromUtf8_eq_some_iff.mp decoded]
    have piece : ∀ (c : Char) (text : List Char), breaksLine c = true →
        ((c :: text).splitOnP breaksLine).foldl FrameFields.readLine {} =
          (text.splitOnP breaksLine).foldl FrameFields.readLine {} := by
      intro c text breaks
      have nothing : ∀ c ∈ ([] : List Char), breaksLine c = false := by simp
      have parts := List.splitOnP_append_cons_of_forall_mem nothing c breaks text
      rw [List.nil_append] at parts
      rw [parts]
      rfl
    have lines : ((ending.chars ++ text).splitOnP breaksLine).foldl FrameFields.readLine {} =
        (text.splitOnP breaksLine).foldl FrameFields.readLine {} := by
      cases ending with
      | lf => exact piece '\n' text rfl
      | cr => exact piece '\r' text rfl
      | crlf => exact (piece '\r' ('\n' :: text) rfl).trans (piece '\n' text rfl)
    rw [whole, fromUtf8_utf8]
    simp only
    rw [lines]

theorem toOption_parseSseFrame (utf8Error : Bytes → String) (frame : Bytes) :
    (parseSseFrame utf8Error frame).toOption.isSome ↔ Valid frame := by
  rw [parseSseFrame]
  cases decoded : fromUtf8 frame with
  | none => exact iff_of_false (by simp [Except.toOption]) (fromUtf8_eq_none_iff.mp decoded)
  | some text =>
    refine iff_of_true ?_ ⟨text, fromUtf8_eq_some_iff.mp decoded⟩
    simp only
    split <;> rfl

/-! ### Reading to the end -/

/-- How a stream ends for its reader. -/
inductive StreamVerdict where
  | clean
  | error
deriving DecidableEq, Repr

namespace HttpTransport

/-- The bytes that are still to be read. -/
def remaining (t : HttpTransport) : ℕ :=
  t.buffered.length + ((t.stream.getD []).map fun chunk => (chunk.toOption.getD []).length).sum

variable (utf8Error : Bytes → String)

theorem remaining_drop {t : HttpTransport} {frameEnd delimiterLen : ℕ}
    (found : sseFrameEnd t.buffered = some (frameEnd, delimiterLen)) :
    remaining { t with buffered := (t.buffered.drop frameEnd).drop delimiterLen } < t.remaining := by
  have shorter := sseFrameEnd_lt found
  simp only [remaining, List.length_drop]
  omega

/-- Every event that is read uses up bytes. -/
theorem remaining_nextEvent {t next : HttpTransport} {event : SseEvent}
    (read : nextEvent utf8Error t = (.ok (some event), next)) : next.remaining < t.remaining := by
  fun_induction nextEvent utf8Error t with
  | case1 => cases (Prod.mk.inj read).1
  | case2 t frameEnd delimiterLen found =>
    obtain ⟨-, rfl⟩ := Prod.mk.inj read
    exact remaining_drop found
  | case3 t frameEnd delimiterLen found rest nothing ih => exact (ih read).trans (remaining_drop found)
  | case4 => cases (Prod.mk.inj read).1
  | case5 => cases (Prod.mk.inj read).1
  | case6 => cases (Prod.mk.inj read).1
  | case7 => cases (Prod.mk.inj read).1
  | case8 t calm chunk chunks body ih =>
    refine (ih read).trans_eq ?_
    simp only [remaining, body, Option.getD_some, List.map_cons, List.sum_cons, List.length_append, Except.toOption]
    omega

set_option linter.unusedVariables false in
/-- Call `next_event` until it returns `Ok(None)` or `Err`: the events before, and which of the two. -/
def drain (t : HttpTransport) : List SseEvent × StreamVerdict :=
  match read : nextEvent utf8Error t with
  | (.ok (some event), next) => (event :: (drain next).1, (drain next).2)
  | (.ok none, _) => ([], .clean)
  | (.error _, _) => ([], .error)
termination_by t.remaining
decreasing_by all_goals exact remaining_nextEvent utf8Error read

theorem drain_some {t next : HttpTransport} {event : SseEvent}
    (read : nextEvent utf8Error t = (.ok (some event), next)) :
    drain utf8Error t = (event :: (drain utf8Error next).1, (drain utf8Error next).2) := by
  rw [drain]
  split
  next other =>
    obtain ⟨same, rfl⟩ := Prod.mk.inj (other.symm.trans read)
    rw [Option.some.inj (Except.ok.inj same)]
  next other => cases (Prod.mk.inj (other.symm.trans read)).1
  next other => cases (Prod.mk.inj (other.symm.trans read)).1

theorem drain_none {t next : HttpTransport} (read : nextEvent utf8Error t = (.ok none, next)) :
    drain utf8Error t = ([], .clean) := by
  rw [drain]
  split
  next other => cases (Prod.mk.inj (other.symm.trans read)).1
  next => rfl
  next other => cases (Prod.mk.inj (other.symm.trans read)).1

theorem drain_error {t next : HttpTransport} {error : TransportError}
    (read : nextEvent utf8Error t = (.error error, next)) : drain utf8Error t = ([], .error) := by
  rw [drain]
  split
  next other => cases (Prod.mk.inj (other.symm.trans read)).1
  next other => cases (Prod.mk.inj (other.symm.trans read)).1
  next => rfl

theorem drain_congr {t other : HttpTransport} (same : nextEvent utf8Error t = nextEvent utf8Error other) :
    drain utf8Error t = drain utf8Error other := by
  cases read : nextEvent utf8Error other with
  | mk result next =>
    rw [read] at same
    rcases result with error | (_ | event)
    · rw [drain_error utf8Error same, drain_error utf8Error read]
    · rw [drain_none utf8Error same, drain_none utf8Error read]
    · rw [drain_some utf8Error same, drain_some utf8Error read]

/-- A frame in the buffer that is no event is passed over, one that is no UTF-8 is an error. -/
theorem nextEvent_found {t : HttpTransport} {frameEnd delimiterLen : ℕ}
    (found : sseFrameEnd t.buffered = some (frameEnd, delimiterLen)) :
    nextEvent utf8Error t =
      let rest := { t with buffered := (t.buffered.drop frameEnd).drop delimiterLen }
      match parseSseFrame utf8Error (t.buffered.take frameEnd) with
      | .error error => (.error error, rest)
      | .ok (some event) => (.ok (some event), rest)
      | .ok none => nextEvent utf8Error rest := by
  rw [nextEvent]
  split
  next frameEnd' delimiterLen' known =>
    obtain ⟨rfl, rfl⟩ := Prod.mk.inj (Option.some.inj (found.symm.trans known))
    rfl
  next none =>
    rw [none] at found
    cases found

/-- What a parsed frame adds to what is read after it. -/
def resume (parsed : Option (Option SseEvent)) (later : List SseEvent × StreamVerdict) :
    List SseEvent × StreamVerdict :=
  match parsed with
  | none => ([], .error)
  | some event => (event.toList ++ later.1, later.2)

/-- What is read from a body in chunks, with some bytes in the buffer. -/
def readAll (chunks : List Bytes) (buffered : Bytes) : List SseEvent × StreamVerdict :=
  drain utf8Error ⟨some (chunks.map .ok), buffered⟩

theorem resume_events {parsed : Option (Option SseEvent)} {later other : List SseEvent × StreamVerdict}
    (same : later.1 = other.1) : (resume parsed later).1 = (resume parsed other).1 := by
  cases parsed with
  | none => rfl
  | some event => exact congrArg (event.toList ++ ·) same

variable {chunks : List Bytes}

theorem readAll_frame (frame : FrameAt bytes front first second rest) :
    readAll utf8Error chunks bytes =
      resume (parseSseFrame utf8Error front).toOption (readAll utf8Error chunks rest) := by
  have size : front.length ≤ bytes.length := by
    rw [frame.whole, List.length_append]
    exact Nat.le_add_right _ _
  have taken : bytes.take front.length = front := by rw [frame.whole, List.take_left]
  have left : (bytes.drop front.length).drop (first.bytes.length + second.bytes.length) = rest := by
    rw [frame.whole, List.drop_left, ← List.append_assoc, ← List.length_append, List.drop_left]
  have step := nextEvent_found utf8Error (t := ⟨some (chunks.map .ok), bytes⟩) frame.found
  simp only [taken, left] at step
  rw [readAll]
  cases parsed : parseSseFrame utf8Error front with
  | error error =>
    rw [parsed] at step
    exact drain_error utf8Error step
  | ok event =>
    rw [parsed] at step
    cases event with
    | none => exact drain_congr utf8Error step
    | some event => exact drain_some utf8Error step

theorem readAll_chunk (calm : sseFrameEnd bytes = none) (chunk : Bytes) :
    readAll utf8Error (chunk :: chunks) bytes = readAll utf8Error chunks (bytes ++ chunk) :=
  drain_congr utf8Error (nextEvent_chunk utf8Error calm (chunks.map .ok))

theorem readAll_end (calm : sseFrameEnd bytes = none) :
    readAll utf8Error [] bytes = ([], if bytes = [] then .clean else .error) := by
  have last := nextEvent_end utf8Error calm
  split
  next empty =>
    rw [if_pos empty] at last
    exact drain_none utf8Error last
  next more =>
    rw [if_neg more] at last
    exact drain_error utf8Error last

/-! ### Leftovers of a line ending -/

/-- The frame after a line ending and text. -/
theorem frameAt_ending (plain : StartsPlain bytes) (frame : FrameAt bytes front first second rest) :
    FrameAt (ending.bytes ++ bytes) (ending.bytes ++ front) first second rest := by
  have some : front ≠ [] := by
    rintro rfl
    have start := frame.whole ▸ plain
    rw [List.nil_append] at start
    have taken := takeEnding_pair frame.apart rest
    rw [takeEnding_eq_none.mpr start] at taken
    cases taken
  have starts : StartsPlain front := plain.front (frame.whole ▸ List.prefix_append _ _)
  refine ⟨by rw [frame.whole, List.append_assoc], ?_, ?_, frame.apart, frame.closed⟩
  · rw [sseFrameEnd_apart ending starts, frame.calm]
    rfl
  · intro b last
    rw [List.getLast?_append_of_ne_nil _ some] at last
    exact frame.plain b last

/-- A line ending in front of the bytes changes no event, and not the end either if text follows. -/
theorem readAll_ending (ending : LineEnding) (whole : ending = .cr → bytes.head? ≠ some lf) :
    (readAll utf8Error [] (ending.bytes ++ bytes)).1 = (readAll utf8Error [] bytes).1 ∧
      (HasText bytes → readAll utf8Error [] (ending.bytes ++ bytes) = readAll utf8Error [] bytes) := by
  induction len : bytes.length using Nat.strong_induction_on generalizing bytes ending with
  | _ n ih =>
    cases taken : takeEnding bytes with
    | none =>
      have plain := takeEnding_eq_none.mp taken
      cases found : sseFrameEnd bytes with
      | none =>
        have calm : sseFrameEnd (ending.bytes ++ bytes) = none := by
          rw [sseFrameEnd_apart ending plain, found]
          rfl
        rw [readAll_end utf8Error calm, readAll_end utf8Error found]
        refine ⟨rfl, fun ⟨b, member, _⟩ => ?_⟩
        have some : bytes ≠ [] := List.ne_nil_of_mem member
        rw [if_neg some, if_neg (List.append_ne_nil_of_right_ne_nil _ some)]
      | some position =>
        obtain ⟨front, first, second, rest, frame⟩ := exists_frameAt found
        have same : readAll utf8Error [] (ending.bytes ++ bytes) = readAll utf8Error [] bytes := by
          rw [readAll_frame utf8Error (frameAt_ending plain frame), readAll_frame utf8Error frame,
            parseSseFrame_ending]
        exact ⟨congrArg Prod.fst same, fun _ => same⟩
    | some first =>
      -- the two line endings make an empty frame
      obtain ⟨next, rest⟩ := first
      obtain ⟨rfl, closed⟩ := eq_append_of_takeEnding taken
      have apart : ending = .cr → next ≠ .lf := by
        rintro rfl rfl
        exact whole rfl rfl
      have frame : FrameAt (ending.bytes ++ (next.bytes ++ rest)) [] ending next rest :=
        ⟨rfl, rfl, endsPlain_nil, apart, closed⟩
      have empty : readAll utf8Error [] (ending.bytes ++ (next.bytes ++ rest)) = readAll utf8Error [] rest := by
        rw [readAll_frame utf8Error frame]
        rfl
      have shorter : rest.length < n := by
        have positive := bytes_length_pos next
        rw [← len, List.length_append]
        omega
      obtain ⟨events, all⟩ := ih rest.length shorter next closed rfl
      rw [empty]
      refine ⟨events.symm, fun text => (all ?_).symm⟩
      exact (hasText_append.mp text).resolve_left (not_hasText_ending next)

/-! ### Any cut -/

/-- However the bytes are cut, the events are the same, and so is the end unless a CRLF closes a frame among the line
endings at the end. -/
theorem readAll_cut (chunks : List Bytes) (buffered : Bytes) :
    (readAll utf8Error chunks buffered).1 = (readAll utf8Error [] (buffered ++ chunks.flatten)).1 ∧
      (pairEndsInCrlf (closingEndings (buffered ++ chunks.flatten)) = false →
        readAll utf8Error chunks buffered = readAll utf8Error [] (buffered ++ chunks.flatten)) := by
  induction chunks, buffered using chunks_induction with
  | last bytes calm =>
    rw [List.flatten_nil, List.append_nil]
    exact ⟨rfl, fun _ => rfl⟩
  | chunk chunk chunks bytes calm ih =>
    rw [readAll_chunk utf8Error calm, List.flatten_cons, ← List.append_assoc]
    exact ih
  | frame chunks bytes front first second rest frame ih =>
    obtain ⟨events, all⟩ := ih
    generalize chunks.flatten = later at events all ⊢
    by_cases cut : second = .cr ∧ (rest ++ later).head? = some lf
    · obtain ⟨rfl, next⟩ := cut
      have none : rest = [] := by
        by_contra some
        rw [List.head?_append_of_ne_nil _ some] at next
        exact frame.closed rfl next
      subst none
      obtain ⟨after, rfl⟩ := List.head?_eq_some_iff.mp next
      -- the LF that is left over is read in front of what follows
      obtain ⟨left, same⟩ : (readAll utf8Error [] (lf :: after)).1 = (readAll utf8Error [] after).1 ∧
          (HasText after → readAll utf8Error [] (lf :: after) = readAll utf8Error [] after) :=
        readAll_ending utf8Error .lf LineEnding.noConfusion
      have whole := frame.append_lf after
      rw [readAll_frame utf8Error frame, readAll_frame utf8Error whole]
      refine ⟨resume_events (events.trans left), fun kept => congrArg _ ?_⟩
      by_cases text : HasText after
      · rw [whole.closingEndings_of_text text, ← closingEndings_append_of_text [lf] text] at kept
        exact (all kept).trans (same text)
      · rw [whole.closingEndings_of_breaks text] at kept
        cases kept
    · have whole := frame.append later fun single next => cut ⟨single, next⟩
      rw [readAll_frame utf8Error frame, readAll_frame utf8Error whole]
      refine ⟨resume_events events, fun kept => congrArg _ (all ?_)⟩
      by_cases text : HasText (rest ++ later)
      · rwa [whole.closingEndings_of_text text] at kept
      · rw [whole.closingEndings_of_breaks text] at kept
        exact (Bool.or_eq_false_iff.mp kept).2

theorem resume_clean_iff {parsed : Option (Option SseEvent)} {later : List SseEvent × StreamVerdict} :
    (resume parsed later).2 = .clean ↔ parsed.isSome ∧ later.2 = .clean := by
  cases parsed <;> simp [resume]

theorem readAll_frame_clean_iff (frame : FrameAt bytes front first second rest) :
    (readAll utf8Error chunks bytes).2 = .clean ↔ Valid front ∧ (readAll utf8Error chunks rest).2 = .clean := by
  rw [readAll_frame utf8Error frame, resume_clean_iff, toOption_parseSseFrame]

/-- A stream that ends clean is UTF-8. -/
theorem valid_of_clean (chunks : List Bytes) (buffered : Bytes)
    (clean : (readAll utf8Error chunks buffered).2 = .clean) : Valid (buffered ++ chunks.flatten) := by
  induction chunks, buffered using chunks_induction with
  | last bytes calm =>
    rw [readAll_end utf8Error calm] at clean
    have empty : bytes = [] := by
      by_contra more
      rw [if_neg more] at clean
      cases clean
    rw [empty]
    exact valid_nil
  | chunk chunk chunks bytes calm ih =>
    rw [readAll_chunk utf8Error calm] at clean
    rw [List.flatten_cons, ← List.append_assoc]
    exact ih clean
  | frame chunks bytes front first second rest frame ih =>
    obtain ⟨valid, clean⟩ := (readAll_frame_clean_iff utf8Error frame).mp clean
    rw [frame.whole]
    simp only [List.append_assoc]
    exact valid.append ((valid_ending first).append ((valid_ending second).append (ih clean)))

/-- A buffer that would be read to a clean end is used up before the next chunk is taken. -/
theorem readAll_of_clean (chunks : List Bytes) (clean : (readAll utf8Error [] bytes).2 = .clean) :
    (readAll utf8Error chunks bytes).2 = (readAll utf8Error chunks []).2 := by
  induction bytes using frames_induction with
  | calm bytes calm =>
    rw [readAll_end utf8Error calm] at clean
    have empty : bytes = [] := by
      by_contra more
      rw [if_neg more] at clean
      cases clean
    rw [empty]
  | frame bytes front first second rest frame ih =>
    obtain ⟨valid, clean⟩ := (readAll_frame_clean_iff utf8Error frame).mp clean
    rw [readAll_frame utf8Error frame]
    obtain ⟨event, parsed⟩ := Option.isSome_iff_exists.mp ((toOption_parseSseFrame utf8Error front).mpr valid)
    rw [parsed]
    exact ih clean

/-- UTF-8 that arrives in one piece ends clean when an even number of line endings closes it, at least two of them if
there is text. -/
theorem readAll_clean_iff (valid : Valid bytes) : (readAll utf8Error [] bytes).2 = .clean ↔
    Even (closingEndings bytes).length ∧ (HasText bytes → closingEndings bytes ≠ []) := by
  induction bytes using frames_induction with
  | calm bytes calm =>
    have few := length_closingEndings_le calm
    rw [readAll_end utf8Error calm]
    by_cases empty : bytes = []
    · subst empty
      exact iff_of_true rfl ⟨⟨0, rfl⟩, fun ⟨_, member, _⟩ => nomatch member⟩
    · rw [if_neg empty]
      refine iff_of_false StreamVerdict.noConfusion ?_
      rintro ⟨⟨half, double⟩, text⟩
      have none : closingEndings bytes = [] := List.length_eq_zero_iff.mp (by omega)
      exact closingEndings_ne_nil empty (fun some => text some none) none
  | frame bytes front first second rest frame ih =>
    obtain ⟨left, right⟩ := frame.valid_iff.mp valid
    rw [readAll_frame_clean_iff utf8Error frame, and_iff_right left, ih right]
    by_cases text : HasText rest
    · have more : HasText bytes := by
        rw [frame.whole]
        exact hasText_append.mpr (.inr (hasText_append.mpr (.inr (hasText_append.mpr (.inr text)))))
      rw [frame.closingEndings_of_text text]
      exact and_congr_right' (by simp [text, more])
    · rw [frame.closingEndings_of_breaks text]
      simp [text, Nat.even_add_one]

/-- A CRLF that closes a frame among the line endings at the end, cut in two, changes how UTF-8 ends. -/
theorem exists_cut_apart (valid : Valid bytes) (split : pairEndsInCrlf (closingEndings bytes) = true) :
    ∃ front back, front ++ back = bytes ∧
      ((readAll utf8Error [back] front).2 = .clean ↔ (readAll utf8Error [] bytes).2 ≠ .clean) := by
  have closing : bytes.rdropWhile isBreak ++ bytes.rtakeWhile isBreak = bytes := List.rdropWhile_append_rtakeWhile
  have plain := endsPlain_rdropWhile bytes
  have breaks := not_hasText_rtakeWhile bytes
  obtain ⟨before, after, cut, even, total⟩ := exists_cut breaks split
  change (closingEndings bytes).length = _ at total
  generalize bytes.rdropWhile isBreak = text at closing plain
  rw [cut] at closing breaks
  have middle : text ++ (before ++ [cr]) ++ lf :: after = bytes := by
    rw [← closing]
    simp only [List.append_assoc, List.singleton_append]
  have parts : ¬HasText (before ++ [cr]) ∧ ¬HasText (lf :: after) := by
    rw [← not_or, ← hasText_append]
    simpa only [List.append_assoc, List.singleton_append] using breaks
  have backs : closingEndings (lf :: after) = .lf :: lineEndings after := by
    rw [closingEndings_of_breaks parts.2]
    exact lineEndings_append .lf LineEnding.noConfusion
  have fronts : closingEndings (text ++ (before ++ [cr])) = lineEndings (before ++ [cr]) :=
    closingEndings_append_of_breaks plain parts.1
  have some : lineEndings (before ++ [cr]) ≠ [] := by
    rw [← closingEndings_of_breaks parts.1]
    exact closingEndings_ne_nil (List.append_ne_nil_of_right_ne_nil _ (List.cons_ne_nil _ _)) parts.1
  obtain ⟨left, right⟩ : Valid (text ++ (before ++ [cr])) ∧ Valid (lf :: after) := by
    have whole : Valid ((text ++ before) ++ cr :: lf :: after) := by
      rw [List.append_assoc, closing]
      exact valid
    obtain ⟨left, right⟩ := whole.split (not_plain_ending .cr cr (.head _))
    exact ⟨by rw [← List.append_assoc]; exact left.append (valid_ending .cr), right⟩
  have used : (readAll utf8Error [] (text ++ (before ++ [cr]))).2 = .clean := by
    rw [readAll_clean_iff utf8Error left, fronts]
    exact ⟨even, fun _ => some⟩
  have later : readAll utf8Error [lf :: after] [] = readAll utf8Error [] (lf :: after) :=
    readAll_chunk utf8Error rfl (lf :: after)
  have filled : closingEndings bytes ≠ [] := by
    have positive := List.length_pos_iff.mpr some
    exact List.ne_nil_of_length_pos (by omega)
  refine ⟨text ++ (before ++ [cr]), lf :: after, middle, ?_⟩
  rw [readAll_of_clean utf8Error _ used, later, ne_eq, readAll_clean_iff utf8Error right,
    readAll_clean_iff utf8Error valid, backs, total, and_iff_left fun _ => List.cons_ne_nil _ _,
    and_iff_left fun _ => filled, List.length_cons, Nat.even_add_one, Nat.even_add, iff_true_left even]

/-- Every cut of the bytes gives the same events and the same end exactly when the bytes are not UTF-8, or of the line
endings at the end, taken two at a time, no pair ends in a CRLF. -/
theorem drain_cut_iff (bytes : Bytes) :
    (∀ chunks other : List Bytes, chunks.flatten = bytes → other.flatten = bytes →
      drain utf8Error ⟨some (chunks.map .ok), []⟩ = drain utf8Error ⟨some (other.map .ok), []⟩) ↔
      fromUtf8 bytes = none ∨ pairEndsInCrlf (closingEndings bytes) = false := by
  constructor
  · intro same
    by_contra both
    obtain ⟨valid, split⟩ := not_or.mp both
    rw [fromUtf8_eq_none_iff, not_not] at valid
    obtain ⟨front, back, rfl, apart⟩ := exists_cut_apart utf8Error valid ((Bool.not_eq_false _).mp split)
    have pieces := same [front, back] [front ++ back] (by simp) (by simp)
    have two : drain utf8Error ⟨some ([front, back].map .ok), []⟩ = readAll utf8Error [back] front :=
      readAll_chunk utf8Error rfl front
    have one : drain utf8Error ⟨some ([front ++ back].map .ok), []⟩ = readAll utf8Error [] (front ++ back) :=
      readAll_chunk utf8Error rfl (front ++ back)
    rw [two, one] at pieces
    rw [pieces] at apart
    exact iff_not_self apart
  · intro kept
    have whole : ∀ chunks : List Bytes, chunks.flatten = bytes →
        drain utf8Error ⟨some (chunks.map .ok), []⟩ = readAll utf8Error [] bytes := by
      rintro chunks rfl
      obtain ⟨events, all⟩ := readAll_cut utf8Error chunks []
      rw [List.nil_append] at events all
      rcases kept with broken | unsplit
      · -- without UTF-8 no cut ends clean
        have invalid := fromUtf8_eq_none_iff.mp broken
        have error : ∀ chunks' : List Bytes, ∀ buffered, buffered ++ chunks'.flatten = chunks.flatten →
            (readAll utf8Error chunks' buffered).2 = .error := by
          intro chunks' buffered same
          cases ended : (readAll utf8Error chunks' buffered).2 with
          | error => rfl
          | clean => exact absurd (same ▸ valid_of_clean utf8Error chunks' buffered ended) invalid
        exact Prod.ext events ((error chunks [] rfl).trans (error [] _ (List.append_nil _)).symm)
      · exact all unsplit
    intro chunks other cut cut'
    rw [whole chunks cut, whole other cut']

/-- The frame `data: x`, closed by two CRLFs. -/
def crlfFrame : Bytes := utf8 "data: x\r\n\r\n".toList

/-- In one piece it ends clean; with a cut before the last byte, the LF is left over. -/
theorem crlfFrame_cut : ¬∀ (bytes : Bytes) (chunks other : List Bytes), chunks.flatten = bytes → other.flatten = bytes →
    drain (fun _ => "") ⟨some (chunks.map .ok), []⟩ = drain (fun _ => "") ⟨some (other.map .ok), []⟩ := by
  intro same
  let text := utf8 "data: x".toList
  have plain : EndsPlain text := by
    intro b last
    obtain rfl : 120 = b := Option.some.inj last
    exact ⟨by decide, by decide⟩
  have whole : FrameAt crlfFrame text .crlf .crlf [] :=
    ⟨by decide, by decide, plain, LineEnding.noConfusion, LineEnding.noConfusion⟩
  have short : FrameAt (text ++ [cr, lf, cr]) text .crlf .cr [] :=
    ⟨rfl, by decide, plain, LineEnding.noConfusion, fun _ => nofun⟩
  have pieces := same crlfFrame [crlfFrame] [text ++ [cr, lf, cr], [lf]] (by simp) (by decide)
  have one : drain (fun _ => "") ⟨some ([crlfFrame].map .ok), []⟩ = readAll (fun _ => "") [] crlfFrame :=
    readAll_chunk _ rfl crlfFrame
  have two : drain (fun _ => "") ⟨some ([text ++ [cr, lf, cr], [lf]].map .ok), []⟩ =
      readAll (fun _ => "") [[lf]] (text ++ [cr, lf, cr]) := readAll_chunk _ rfl _
  have last : readAll (fun _ => "") [[lf]] [] = readAll (fun _ => "") [] [lf] := readAll_chunk _ rfl [lf]
  have clean : (readAll (fun _ => "") [] crlfFrame).2 = .clean := by
    rw [readAll_frame_clean_iff _ whole, readAll_end _ rfl]
    exact ⟨⟨_, rfl⟩, rfl⟩
  rw [← one, pieces, two, readAll_frame_clean_iff _ short, last, readAll_end _ (by decide)] at clean
  cases clean.2

end HttpTransport

end TrtLlm.Wire
