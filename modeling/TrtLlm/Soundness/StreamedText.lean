import Mathlib.Data.List.Chain
import TrtLlm.Model.Worker.Tokenizer
import TrtLlm.Soundness.ClientRuns

/-! # What a streamed answer spells

The pumps decode every token on its own, so a client reads the characters of single bytes. That is the text of the
whole list exactly when no byte opens a character that the next byte goes on with. One token per byte makes every
character outside ASCII such a place, although decoding the list at once brings each of them back.
-/

namespace TrtLlm.Worker

namespace SyntheticTokenizer

/-! ### Bytes on their own -/

/-- What a byte decodes to on its own. -/
def single (b : UInt8) : Char := if b < 0x80 then Char.ofNat b.toNat else replacement

/-- No byte opens a character that the next byte goes on with. -/
def Apart (bytes : List UInt8) : Prop := bytes.IsChain fun b next => mayFollow b next = false

theorem mayFollow_low {b next : UInt8} (low : next < 0x80) : mayFollow b next = false := by
  unfold mayFollow isContinuation
  grind

theorem mayFollow_of_low {b next : UInt8} (low : b < 0x80) : mayFollow b next = false := by
  unfold mayFollow isContinuation
  grind

theorem nextChar_alone {b : UInt8} {rest : List UInt8} (alone : mayFollow b (rest.getD 0 0) = false) :
    nextChar b rest = (single b, 0) := by
  unfold nextChar single
  split
  next => rfl
  next => exact if_pos (by rw [alone]; rfl)

/-- A byte that the next one goes on with takes it along. -/
theorem nextChar_follow {b : UInt8} {rest : List UInt8} (follows : mayFollow b (rest.getD 0 0) = true) :
    0 < (nextChar b rest).2 := by
  have high : ¬b < 0x80 := by
    intro low
    rw [mayFollow_of_low low] at follows
    cases follows
  rw [nextChar]
  simp only [high, follows, if_false, Bool.not_true, Bool.false_eq_true]
  repeat' split
  all_goals exact Nat.succ_pos _

theorem apart_cons {b : UInt8} {rest : List UInt8} :
    Apart (b :: rest) ↔ mayFollow b (rest.getD 0 0) = false ∧ Apart rest := by
  cases rest with
  | nil => simp [Apart, mayFollow_low]
  | cons next rest => simp [Apart, List.isChain_cons_cons]

theorem length_loop_le (bytes : List UInt8) (skip : ℕ) :
    (fromUtf8LossyLoop skip bytes).length + min skip bytes.length ≤ bytes.length := by
  induction bytes generalizing skip with
  | nil => simp [fromUtf8LossyLoop]
  | cons b rest ih =>
    cases skip with
    | zero =>
      have shorter := ih (nextChar b rest).2
      rw [fromUtf8LossyLoop, List.length_cons, List.length_cons]
      omega
    | succ skip =>
      have shorter := ih skip
      rw [fromUtf8LossyLoop, List.length_cons]
      omega

/-- One character for every byte means that no byte was taken along with another. -/
theorem apart_of_length {bytes : List UInt8} (full : (fromUtf8Lossy bytes).length = bytes.length) : Apart bytes := by
  induction bytes with
  | nil => exact .nil
  | cons b rest ih =>
    rw [fromUtf8Lossy, fromUtf8LossyLoop, List.length_cons, List.length_cons] at full
    have shorter := length_loop_le rest (nextChar b rest).2
    have alone : mayFollow b (rest.getD 0 0) = false := by
      cases follows : mayFollow b (rest.getD 0 0) with
      | false => rfl
      | true =>
        have taken := nextChar_follow follows
        have last : rest = [] := List.length_eq_zero_iff.mp (by omega)
        rw [last, List.getD_nil, mayFollow_low (by decide)] at follows
        cases follows
    rw [nextChar_alone alone] at full
    exact apart_cons.mpr ⟨alone, ih (Nat.succ.inj full)⟩

theorem fromUtf8Lossy_of_apart {bytes : List UInt8} (apart : Apart bytes) :
    fromUtf8Lossy bytes = bytes.map single := by
  induction bytes with
  | nil => rfl
  | cons b rest ih =>
    obtain ⟨alone, rest_apart⟩ := apart_cons.mp apart
    rw [fromUtf8Lossy, fromUtf8LossyLoop, nextChar_alone alone, List.map_cons, ← ih rest_apart]
    rfl

theorem fromUtf8Lossy_eq_iff (bytes : List UInt8) : fromUtf8Lossy bytes = bytes.map single ↔ Apart bytes := by
  refine ⟨fun same => ?_, fromUtf8Lossy_of_apart⟩
  apply apart_of_length
  rw [same, List.length_map]

/-! ### Whole characters -/

theorem toNat_ofNat_byte {n : ℕ} (small : n < 256) : (UInt8.ofNat n).toNat = n := by
  rw [UInt8.toNat_ofNat', Nat.mod_eq_of_lt small]

theorem payload_continuation {y : ℕ} (low : y < 0x40) : payload (UInt8.ofNat (y + 0x80)) = y := by
  rw [payload, toNat_ofNat_byte (by omega)]
  omega

theorem isContinuation_continuation {y : ℕ} (low : y < 0x40) : isContinuation (UInt8.ofNat (y + 0x80)) = true := by
  simp only [isContinuation, UInt8.le_iff_toNat_le, toNat_ofNat_byte (show y + 0x80 < 256 by omega),
    UInt8.reduceToNat]
  grind

/-- Which lead bytes go on with which bytes, as numbers. -/
theorem mayFollow_ofNat (lead : ℕ) {y : ℕ} (low : y < 0x40) (fits : 0xc2 ≤ lead ∧ lead < 0xf5 ∧
    (lead = 0xe0 → 0x20 ≤ y) ∧ (lead = 0xed → y < 0x20) ∧ (lead = 0xf0 → 0x10 ≤ y) ∧ (lead = 0xf4 → y < 0x10)) :
    mayFollow (UInt8.ofNat lead) (UInt8.ofNat (y + 0x80)) = true := by
  simp only [mayFollow, isContinuation, UInt8.le_iff_toNat_le, ← UInt8.toNat_inj,
    toNat_ofNat_byte (show lead < 256 by omega), toNat_ofNat_byte (show y + 0x80 < 256 by omega), UInt8.reduceToNat]
  grind

theorem nextChar_two {x y : ℕ} (least : 2 ≤ x) (lead : x < 0x20) (low : y < 0x40) (rest : List UInt8) :
    nextChar (UInt8.ofNat (x + 0xc0)) (UInt8.ofNat (y + 0x80) :: rest) = (Char.ofNat (x * 0x40 + y), 1) := by
  have follows := mayFollow_ofNat (x + 0xc0) low (by omega)
  have size := toNat_ofNat_byte (show x + 0xc0 < 256 by omega)
  simp only [nextChar, List.getD_cons_zero, UInt8.lt_iff_toNat_lt, size, UInt8.reduceToNat, follows,
    payload_continuation low]
  grind

theorem nextChar_three {x y z : ℕ} (lead : x < 0x10) (low : y < 0x40) (lower : z < 0x40) (long : x = 0 → 0x20 ≤ y)
    (surrogate : x = 0xd → y < 0x20) (rest : List UInt8) :
    nextChar (UInt8.ofNat (x + 0xe0)) (UInt8.ofNat (y + 0x80) :: UInt8.ofNat (z + 0x80) :: rest) =
      (Char.ofNat ((x * 0x40 + y) * 0x40 + z), 2) := by
  have follows := mayFollow_ofNat (x + 0xe0) low (by omega)
  have size := toNat_ofNat_byte (show x + 0xe0 < 256 by omega)
  simp only [nextChar, List.getD_cons_zero, List.getD_cons_succ, UInt8.lt_iff_toNat_lt, size, UInt8.reduceToNat,
    follows, payload_continuation low, payload_continuation lower, isContinuation_continuation lower]
  grind

theorem nextChar_four {x y z w : ℕ} (lead : x < 5) (low : y < 0x40) (lower : z < 0x40) (lowest : w < 0x40)
    (plane : x = 0 → 0x10 ≤ y) (last : x = 4 → y < 0x10) (rest : List UInt8) :
    nextChar (UInt8.ofNat (x + 0xf0))
        (UInt8.ofNat (y + 0x80) :: UInt8.ofNat (z + 0x80) :: UInt8.ofNat (w + 0x80) :: rest) =
      (Char.ofNat (((x * 0x40 + y) * 0x40 + z) * 0x40 + w), 3) := by
  have follows := mayFollow_ofNat (x + 0xf0) low (by omega)
  have size := toNat_ofNat_byte (show x + 0xf0 < 256 by omega)
  simp only [nextChar, List.getD_cons_zero, List.getD_cons_succ, UInt8.lt_iff_toNat_lt, size, UInt8.reduceToNat,
    follows, payload_continuation low, payload_continuation lower, payload_continuation lowest,
    isContinuation_continuation lower, isContinuation_continuation lowest]
  grind

/-- The bytes of a character decode to it, whatever comes after them. -/
theorem loop_utf8EncodeChar (c : Char) (rest : List UInt8) :
    fromUtf8LossyLoop 0 (String.utf8EncodeChar c ++ rest) = c :: fromUtf8LossyLoop 0 rest := by
  have valid : c.val.toNat < 0xd800 ∨ 0xdfff < c.val.toNat ∧ c.val.toNat < 0x110000 := c.valid
  have whole : ∀ n, n = c.val.toNat → Char.ofNat n = c := by
    rintro n rfl
    exact Char.ofNat_toNat c
  unfold String.utf8EncodeChar
  simp only
  generalize c.val.toNat = v at valid whole
  split
  next low =>
    have alone : UInt8.ofNat v < 0x80 := by
      rw [UInt8.lt_iff_toNat_lt, toNat_ofNat_byte (by omega)]
      exact Nat.lt_succ_of_le low
    rw [List.singleton_append, fromUtf8LossyLoop, nextChar_alone (mayFollow_of_low alone), single, if_pos alone,
      toNat_ofNat_byte (by omega), whole v rfl]
  next =>
    split
    next =>
      rw [List.cons_append, List.singleton_append, fromUtf8LossyLoop, nextChar_two (by omega) (by omega) (by omega),
        whole _ (by omega)]
      rfl
    next =>
      split
      next =>
        rw [List.cons_append, List.cons_append, List.singleton_append, fromUtf8LossyLoop, nextChar_three (by omega)
          (by omega) (by omega) (by omega) (by omega), whole _ (by omega)]
        rfl
      next =>
        rw [List.cons_append, List.cons_append, List.cons_append, List.singleton_append, fromUtf8LossyLoop,
          nextChar_four (by omega) (by omega) (by omega) (by omega) (by omega) (by omega), whole _ (by omega)]
        rfl

theorem fromUtf8Lossy_encode (chars : List Char) :
    fromUtf8Lossy (chars.flatMap String.utf8EncodeChar) = chars := by
  induction chars with
  | nil => rfl
  | cons c chars ih =>
    rw [List.flatMap_cons, fromUtf8Lossy, loop_utf8EncodeChar]
    exact congrArg (c :: ·) ih

theorem utf8EncodeChar_ascii {c : Char} (low : c.val ≤ 127) :
    String.utf8EncodeChar c = [UInt8.ofNat c.val.toNat] ∧ UInt8.ofNat c.val.toNat < 0x80 := by
  have small : c.val.toNat ≤ 127 := UInt32.le_iff_toNat_le.mp low
  refine ⟨if_pos small, ?_⟩
  rw [UInt8.lt_iff_toNat_lt, toNat_ofNat_byte (by omega)]
  exact Nat.lt_succ_of_le small

theorem ascii_of_apart {c : Char} (apart : Apart (String.utf8EncodeChar c)) : c.val ≤ 127 := by
  have one := fromUtf8Lossy_encode [c]
  rw [List.flatMap_singleton, fromUtf8Lossy_of_apart apart] at one
  have length := congrArg List.length one
  rw [List.length_map, String.length_utf8EncodeChar] at length
  exact Char.utf8Size_eq_one_iff.mp length

/-- The bytes of a text stay apart exactly when it is ASCII. -/
theorem apart_utf8_iff (chars : List Char) :
    Apart (chars.flatMap String.utf8EncodeChar) ↔ ∀ c ∈ chars, c.val ≤ 127 := by
  induction chars with
  | nil => exact ⟨fun _ _ member => (nomatch member), fun _ => .nil⟩
  | cons c chars ih =>
    rw [List.flatMap_cons, List.forall_mem_cons, ← ih]
    constructor
    · intro apart
      exact ⟨ascii_of_apart (List.IsChain.left_of_append apart), List.IsChain.right_of_append apart⟩
    · rintro ⟨low, apart⟩
      obtain ⟨single_byte, small⟩ := utf8EncodeChar_ascii low
      rw [single_byte, List.singleton_append]
      exact apart_cons.mpr ⟨mayFollow_of_low small, apart⟩

/-! ### Tokens -/

theorem byteOf_toNat (b : UInt8) : byteOf (b.toNat + specialOffset) = some b := by
  have small : b.toNat < 256 := b.toNat_lt
  have back : b.toNat + specialOffset - specialOffset = b.toNat := by
    omega
  rw [byteOf, back, if_pos small, UInt8.ofNat_toNat]

theorem bytesOf_encode (text : String) : bytesOf (encode text) = text.toList.flatMap String.utf8EncodeChar := by
  unfold bytesOf encode
  induction text.toList.flatMap String.utf8EncodeChar with
  | nil => rfl
  | cons b bytes ih => rw [List.map_cons, List.filterMap_cons, byteOf_toNat, ih]

theorem decode_encode (text : String) : decode (encode text) = text := by
  rw [decode, bytesOf_encode, fromUtf8Lossy_encode, String.ofList_toList]

theorem toList_decode_singleton (token : TokenId) : (decode [token]).toList = (byteOf token).toList.map single := by
  rw [decode, String.toList_ofList, bytesOf, List.filterMap_cons, List.filterMap_nil]
  cases byteOf token with
  | none => rfl
  | some b => exact fromUtf8Lossy_of_apart (.singleton b)

end SyntheticTokenizer

open SyntheticTokenizer

/-! ### What a client reads -/

namespace StreamChunk

def shownToken : StreamChunk → Option TokenId
  | .token spelled _ => some spelled
  | .done _ => none
  | .error _ => none

def text : StreamChunk → String
  | .token _ shown => shown
  | .done _ => ""
  | .error _ => ""

end StreamChunk

def streamedTokens (chunks : List StreamChunk) : List TokenId := chunks.filterMap StreamChunk.shownToken

def streamedText (chunks : List StreamChunk) : String := .join (chunks.map StreamChunk.text)

/-- The text of every token chunk is that of its token alone. -/
def Singly (text : List TokenId → String) (chunks : List StreamChunk) : Prop :=
  ∀ token shown, .token token shown ∈ chunks → shown = text [token]

theorem Singly.append {text : List TokenId → String} {chunks more : List StreamChunk} (singly : Singly text chunks)
    (next : Singly text more) : Singly text (chunks ++ more) := by
  intro token shown member
  rcases List.mem_append.mp member with before | after
  · exact singly token shown before
  · exact next token shown after

theorem toList_streamedText {chunks : List StreamChunk} (singly : Singly decode chunks) :
    (streamedText chunks).toList = (bytesOf (streamedTokens chunks)).map single := by
  rw [streamedText, String.toList_join]
  induction chunks with
  | nil => rfl
  | cons chunk chunks ih =>
    have rest := ih fun token shown member => singly token shown (.tail _ member)
    rw [List.map_cons, List.flatMap_cons, rest]
    cases chunk with
    | token token shown =>
      have own := singly token shown (.head _)
      have tokens : streamedTokens (.token token shown :: chunks) = token :: streamedTokens chunks := rfl
      rw [StreamChunk.text, own, toList_decode_singleton, ← own, tokens, bytesOf, bytesOf, List.filterMap_cons]
      cases byteOf token with
      | none => rfl
      | some b => rfl
    | done reason => exact List.nil_append _
    | error message => exact List.nil_append _

/-- Token by token, the text is that of the whole list exactly when no byte goes on with the byte before it. -/
theorem streamedText_eq_decode_iff {chunks : List StreamChunk} (singly : Singly decode chunks) :
    streamedText chunks = decode (streamedTokens chunks) ↔ Apart (bytesOf (streamedTokens chunks)) := by
  rw [← String.toList_inj, toList_streamedText singly, decode, String.toList_ofList, eq_comm]
  exact fromUtf8Lossy_eq_iff _

namespace Deployment

variable {s : Deployment}

/-- Every client so far has read each token on its own. -/
def ReadSingly (s : Deployment) : Prop := ∀ id, Singly s.tokenizer (s.streams id)

theorem ReadSingly.of_streams {t : Deployment} (read : s.ReadSingly) (streams : t.streams = s.streams)
    (tokenizer : t.tokenizer = s.tokenizer) : t.ReadSingly := by
  intro id
  rw [streams, tokenizer]
  exact read id

theorem ReadSingly.send (read : s.ReadSingly) (id : RequestId) {chunk : StreamChunk}
    (next : Singly s.tokenizer [chunk]) : (s.send id chunk).2.ReadSingly := by
  intro other
  rw [s.send_tokenizer id chunk]
  unfold Deployment.send
  split
  next => exact read other
  next =>
    by_cases same : other = id
    · subst same
      simpa using (read other).append next
    · simpa [Function.update_of_ne same] using read other

theorem singly_tokenChunk (s : Deployment) (token : TokenId) : Singly s.tokenizer [s.tokenChunk token] := by
  intro other shown member
  cases List.mem_singleton.mp member
  rfl

theorem singly_terminal {text : List TokenId → String} {chunk : StreamChunk} (terminal : chunk.isTerminal = true) :
    Singly text [chunk] := by
  intro token shown member
  rw [← List.mem_singleton.mp member] at terminal
  cases terminal

theorem ReadSingly.drop (read : s.ReadSingly) (id : RequestId) : (s.drop id).ReadSingly :=
  read.of_streams rfl rfl

theorem ReadSingly.handOff (read : s.ReadSingly) (entry : Inflight) (job : DecodeAdmit) :
    (s.handOff entry job).ReadSingly := by
  unfold Deployment.handOff
  split
  · split
    · exact read.of_streams rfl rfl
    · exact (read.send _ (singly_terminal rfl)).drop _
  · exact read

theorem ReadSingly.deliverFirst (read : s.ReadSingly) (done : PrefillComplete) : (s.deliverFirst done).ReadSingly := by
  have sent := read.send done.id (s.singly_tokenChunk done.firstToken)
  unfold Deployment.deliverFirst
  split
  · exact read
  · simp only
    split
    · exact read.drop _
    · split
      · exact (sent.send _ (singly_terminal rfl)).drop _
      · exact sent.handOff _ _

theorem ReadSingly.deliver (read : s.ReadSingly) (event : DecodeEvent) : (s.deliver event).ReadSingly := by
  unfold Deployment.deliver
  split
  next id token =>
    split
    · simp only
      split
      · exact read.send id (s.singly_tokenChunk token)
      · exact read.drop id
    · exact read
  next id emitted =>
    split
    · exact (read.drop id).send id (singly_terminal rfl)
    · exact read

/-- The pumps decode one token at a time. -/
theorem ReadSingly.step (read : s.ReadSingly) (event : DeployEvent) : (s.step event).ReadSingly := by
  cases event with
  | pumpPrefill =>
    rw [Deployment.step, pumpPrefill]
    split
    next => exact read
    next done rest split =>
      have later : ReadSingly { s with prefillDone := rest } := read.of_streams rfl rfl
      exact later.deliverFirst done
  | pumpDecode =>
    rw [Deployment.step, pumpDecode]
    split
    next => exact read
    next event rest split =>
      have later : ReadSingly { s with decodeEvents := rest } := read.of_streams rfl rfl
      exact later.deliver event
  | _ =>
    apply read.of_streams
    · exact (s.step_quiet (by rintro ⟨⟩) (by rintro ⟨⟩)).1
    · exact (s.step_quiet (by rintro ⟨⟩) (by rintro ⟨⟩)).2

theorem readSingly_foldl (read : s.ReadSingly) (events : List DeployEvent) :
    (events.foldl step s).ReadSingly ∧ (events.foldl step s).tokenizer = s.tokenizer := by
  induction events generalizing s with
  | nil => exact ⟨read, rfl⟩
  | cons event events ih =>
    obtain ⟨after, same⟩ := ih (read.step event)
    exact ⟨after, same.trans (s.tokenizer_step event)⟩

/-- **What a stream spells.** Whatever the environment does, a client's text is that of its token list exactly when no
byte of the list goes on with the byte before it, and an encoded text comes back token by token exactly when it is
ASCII. -/
theorem streamed_text_iff (cfg : DeployConfig) (prefillEngines decodeEngines : ℕ) (events : List DeployEvent) :
    let s := events.foldl step (spawn { cfg with tokenizer := SyntheticTokenizer.decode } prefillEngines decodeEngines)
    (∀ id, streamedText (s.streams id) = SyntheticTokenizer.decode (streamedTokens (s.streams id)) ↔
        Apart (bytesOf (streamedTokens (s.streams id)))) ∧
      ∀ text, SyntheticTokenizer.decode (encode text) = text ∧
        (streamedText ((encode text).map s.tokenChunk) = text ↔ ∀ c ∈ text.toList, c.val ≤ 127) := by
  intro s
  have start : (spawn { cfg with tokenizer := SyntheticTokenizer.decode } prefillEngines decodeEngines).ReadSingly := by
    intro id token shown member
    cases member
  obtain ⟨read, tokenizer⟩ : s.ReadSingly ∧ s.tokenizer = SyntheticTokenizer.decode := readSingly_foldl start events
  refine ⟨fun id => ?_, fun text => ⟨decode_encode text, ?_⟩⟩
  · have own := read id
    rw [tokenizer] at own
    exact streamedText_eq_decode_iff own
  · have own : Singly SyntheticTokenizer.decode ((encode text).map s.tokenChunk) := by
      intro token shown member
      obtain ⟨other, _, same⟩ := List.mem_map.mp member
      cases same
      rw [tokenizer]
    have tokens : streamedTokens ((encode text).map s.tokenChunk) = encode text := by
      rw [streamedTokens, List.filterMap_map]
      exact List.filterMap_some
    have spelled := streamedText_eq_decode_iff own
    rw [tokens, decode_encode, bytesOf_encode, apart_utf8_iff] at spelled
    exact spelled

/-! ### A character in two tokens -/

/-- The prefill engine samples `token` for every completed sequence. -/
def prefillOf (token : TokenId) : PrefillCall where
  drained := 1
  now := 0
  answer work := .ok ⟨1, (work.filter (·.completes)).map fun spec => (spec.id, token)⟩
  doneAt := 1

/-- The decode engine emits `token` and finishes. -/
def decodeOf (token : TokenId) : DecodeCall where
  drained := 1
  add _ := .ok ()
  step _ := .ok ⟨1, [(1, token)], [1]⟩
  now := 2

theorem samplesCompleted_prefillOf (token : TokenId) : SamplesCompleted (prefillOf token).answer := by
  intro work outcome answered
  rw [← Except.ok.inj answered, List.map_map]
  exact .refl _

/-- The two bytes of one character, one from each pump: the client reads two replacement characters. -/
theorem split_character_lost :
    let cfg : DeployConfig := { smallConfig with tokenizer := SyntheticTokenizer.decode }
    let events : List DeployEvent := [oneCall, .prefillRound 0 (prefillOf 451), .pumpPrefill,
      .decodeRound 0 (decodeOf 425), .pumpDecode, .pumpDecode]
    let s := events.foldl step (spawn cfg 1 1)
    Machine.Run (system cfg 1 1) events s ∧ streamedTokens (s.streams 1) = encode "é" ∧
      SyntheticTokenizer.decode (streamedTokens (s.streams 1)) = "é" ∧ streamedText (s.streams 1) = "\uFFFD\uFFFD" ∧
      streamedText ((encode "é").map s.tokenChunk) ≠ "é" := by
  intro cfg events s
  have start : Machine.Run (system cfg 1 1) [] (spawn cfg 1 1) := .start rfl
  have called := start.apply oneCall ⟨by decide, by rintro _ ⟨rfl⟩; decide⟩
  have prefilled := called.apply (.prefillRound 0 (prefillOf 451)) ⟨⟨_, rfl, rfl⟩, samplesCompleted_prefillOf 451⟩
  have pumped := prefilled.apply .pumpPrefill trivial
  have decoded := pumped.apply (.decodeRound 0 (decodeOf 425)) ((Option.any_eq_true _ _).mp (by decide +kernel))
  have final := (decoded.apply .pumpDecode trivial).apply .pumpDecode trivial
  refine ⟨?_, ?_, ?_, ?_, ?_⟩
  · simpa only [s, events, List.foldl_cons, List.foldl_nil, List.nil_append, List.cons_append, system] using final
  · decide +kernel
  · decide +kernel
  · decide +kernel
  · decide +kernel

end Deployment

end TrtLlm.Worker
