import TrtLlm.Model.Tuner.Aic

/-! # What the layout scan slices

`ParallelSpec::parse` slices its text at byte offsets: a key is two bytes long, whatever characters these are. The
offsets before and after the digits of a group are always character boundaries, so the only slice that can panic is the
one that ends a key.
-/

namespace TrtLlm.Tuner

/-! ### Bytes of a text -/

/-- The number of bytes of a text. -/
def byteLen (text : Text) : ℕ := (bytesOf text).length

@[simp]
theorem byteLen_nil : byteLen [] = 0 := rfl

@[simp]
theorem byteLen_cons (c : Char) (text : Text) : byteLen (c :: text) = c.utf8Size + byteLen text := by
  simp [byteLen, bytesOf]

@[simp]
theorem byteLen_append (before after : Text) : byteLen (before ++ after) = byteLen before + byteLen after := by
  simp [byteLen, bytesOf]

theorem splitAtByte_append (n : ℕ) (before after : Text) :
    splitAtByte (byteLen before + n) (before ++ after) =
      (splitAtByte n after).map fun halves => (before ++ halves.1, halves.2) := by
  induction before with
  | nil =>
    rw [byteLen_nil, Nat.zero_add, List.nil_append]
    cases splitAtByte n after <;> rfl
  | cons c before ih =>
    have positive := c.utf8Size_pos
    have rest : byteLen (c :: before) + n - c.utf8Size = byteLen before + n := by
      rw [byteLen_cons]
      omega
    obtain ⟨m, some⟩ : ∃ m, byteLen (c :: before) + n = m + 1 := ⟨_, (Nat.succ_pred (by rw [byteLen_cons]; omega)).symm⟩
    rw [some, List.cons_append, splitAtByte, if_pos (by rw [← some, byteLen_cons]; omega), ← some, rest, ih,
      Option.map_map]
    rfl
    exact Nat.succ_ne_zero m

theorem splitAtByte_byteLen (before after : Text) :
    splitAtByte (byteLen before) (before ++ after) = some (before, after) := by
  have whole := splitAtByte_append 0 before after
  rw [Nat.add_zero] at whole
  rw [whole, splitAtByte, Option.map_some, List.append_nil]

/-- A text is split where a part of it has that many bytes. -/
theorem splitAtByte_eq_some {n : ℕ} {text : Text} {halves : Text × Text} (split : splitAtByte n text = some halves) :
    text = halves.1 ++ halves.2 ∧ byteLen halves.1 = n := by
  induction text generalizing n halves with
  | nil =>
    cases n with
    | zero =>
      obtain rfl := Option.some.inj split
      exact ⟨rfl, rfl⟩
    | succ n => cases split
  | cons c text ih =>
    cases n with
    | zero =>
      obtain rfl := Option.some.inj split
      exact ⟨rfl, rfl⟩
    | succ n =>
      rw [splitAtByte] at split
      · split at split
        next fits =>
          obtain ⟨inner, found, rfl⟩ := Option.map_eq_some_iff.mp split
          obtain ⟨same, size⟩ := ih found
          refine ⟨by rw [same, List.cons_append], ?_⟩
          rw [byteLen_cons, size]
          omega
        next => cases split
      · exact Nat.succ_ne_zero n

/-- A slice that starts on a character boundary. -/
theorem slice_append (n : ℕ) (before after : Text) :
    slice (before ++ after) (byteLen before) (byteLen before + n) = (splitAtByte n after).map Prod.fst := by
  rw [slice, if_pos (Nat.le_add_right _ _), splitAtByte_append]
  cases splitAtByte n after with
  | none => rfl
  | some halves =>
    simp only [Option.map_some, Option.bind_some]
    rw [splitAtByte_byteLen, Option.map_some]

/-! ### Digits -/

/-- The bytes that `is_ascii_digit` accepts. -/
def digitByte (byte : UInt8) : Bool := 48 ≤ byte && byte ≤ 57

theorem isDigit_iff {c : Char} : c.isDigit = true ↔ 48 ≤ c.toNat ∧ c.toNat ≤ 57 := Char.isDigit_iff_toNat

/-- The bytes of a digit. -/
theorem bytes_of_isDigit {c : Char} (digit : c.isDigit = true) :
    ∃ byte, String.utf8EncodeChar c = [byte] ∧ digitByte byte = true := by
  obtain ⟨low, high⟩ := isDigit_iff.mp digit
  change 48 ≤ c.val.toNat at low
  change c.val.toNat ≤ 57 at high
  refine ⟨UInt8.ofNat c.val.toNat, by rw [String.utf8EncodeChar, if_pos (by omega)], ?_⟩
  simp only [digitByte, Bool.and_eq_true, decide_eq_true_eq, UInt8.le_iff_toNat_le, UInt8.toNat_ofNat']
  rw [Nat.mod_eq_of_lt (by omega)]
  exact ⟨low, high⟩

/-- The first byte of any other character is no digit. -/
theorem bytes_of_not_isDigit {c : Char} (other : c.isDigit = false) :
    ∃ byte bytes, String.utf8EncodeChar c = byte :: bytes ∧ digitByte byte = false := by
  have large : ∀ n : ℕ, n < 256 → ¬(48 ≤ n ∧ n ≤ 57) → digitByte (UInt8.ofNat n) = false := by
    intro n bound outside
    simp only [digitByte, UInt8.le_iff_toNat_le, UInt8.toNat_ofNat', Nat.mod_eq_of_lt bound]
    exact Bool.eq_false_iff.mpr fun both => outside (by simpa using both)
  have not_ascii : ¬(48 ≤ c.val.toNat ∧ c.val.toNat ≤ 57) := fun digit => by
    rw [isDigit_iff.mpr digit] at other
    cases other
  rw [String.utf8EncodeChar]
  split
  · exact ⟨_, [], rfl, large _ (by omega) not_ascii⟩
  · split
    · exact ⟨_, _, rfl, large _ (by omega) (by omega)⟩
    · split
      · exact ⟨_, _, rfl, large _ (by omega) (by omega)⟩
      · exact ⟨_, _, rfl, large _ (by omega) (by omega)⟩

/-- Counting the digits of a text byte by byte. -/
theorem length_takeWhile_digitByte (text : Text) :
    ((bytesOf text).takeWhile digitByte).length = (text.takeWhile Char.isDigit).length := by
  induction text with
  | nil => rfl
  | cons c text ih =>
    rw [bytesOf, List.flatMap_cons]
    cases digit : c.isDigit with
    | true =>
      obtain ⟨byte, same, accepted⟩ := bytes_of_isDigit digit
      rw [same, List.singleton_append, List.takeWhile_cons_of_pos accepted, List.takeWhile_cons_of_pos digit,
        List.length_cons, List.length_cons]
      exact congrArg Nat.succ ih
    | false =>
      obtain ⟨byte, bytes, same, refused⟩ := bytes_of_not_isDigit digit
      rw [same, List.cons_append, List.takeWhile_cons_of_neg (by simp [refused]),
        List.takeWhile_cons_of_neg (by simp [digit]), List.length_nil, List.length_nil]

theorem byteLen_of_digits {text : Text} (digits : ∀ c ∈ text, c.isDigit = true) : byteLen text = text.length := by
  induction text with
  | nil => rfl
  | cons c text ih =>
    obtain ⟨byte, same, -⟩ := bytes_of_isDigit (digits c (.head _))
    rw [byteLen_cons, ← String.length_utf8EncodeChar, same, ih fun d member => digits d (.tail _ member)]
    simp [Nat.add_comm]

theorem byteLen_takeWhile_isDigit (text : Text) :
    byteLen (text.takeWhile Char.isDigit) = (text.takeWhile Char.isDigit).length :=
  byteLen_of_digits fun _ member => List.mem_takeWhile_imp member

theorem ParallelSpec.digitsEnd_append (before after : Text) :
    digitsEnd (bytesOf (before ++ after)) (byteLen before) = byteLen (before ++ after.takeWhile Char.isDigit) := by
  have bytes : (bytesOf (before ++ after)).drop (byteLen before) = bytesOf after := by
    rw [bytesOf, List.flatMap_append]
    exact List.drop_left
  rw [digitsEnd, bytes, byteLen_append, byteLen_takeWhile_isDigit, ← length_takeWhile_digitByte]
  rfl

/-! ### The scan -/

namespace ParallelSpec

/-- What the scan answers when it stops. -/
def answer (layout : ParallelSpec) (sawAny : Bool) : Option ParallelSpec := if sawAny then some layout else none

/-- One round of the scan, on the characters that are left. -/
theorem scan_append (before rest : Text) (layout : ParallelSpec) (sawAny : Bool) :
    scan (before ++ rest) layout sawAny (byteLen before) =
      if byteLen rest < 2 then some (layout.answer sawAny)
      else
        match splitAtByte 2 rest with
        | none => none
        | some (key, tail) =>
          if tail.takeWhile Char.isDigit = [] then some (layout.answer sawAny)
          else
            match parseU32 (tail.takeWhile Char.isDigit) with
            | none => some none
            | some value => scan (before ++ rest) (layout.setDimension key value) true
                (byteLen (before ++ key ++ tail.takeWhile Char.isDigit)) := by
  rw [scan]
  have size : (bytesOf (before ++ rest)).length = byteLen before + byteLen rest := byteLen_append before rest
  by_cases short : byteLen rest < 2
  · rw [if_neg (by omega), if_pos short]
    rfl
  · rw [if_pos (by omega), if_neg short, slice_append]
    cases parted : splitAtByte 2 rest with
    | none => rfl
    | some halves =>
      obtain ⟨key, tail⟩ := halves
      obtain ⟨rfl, two⟩ := splitAtByte_eq_some parted
      simp only at two
      have key_end : byteLen before + 2 = byteLen (before ++ key) := by rw [byteLen_append, two]
      have none_iff : byteLen (before ++ key ++ tail.takeWhile Char.isDigit) = byteLen (before ++ key) ↔
          tail.takeWhile Char.isDigit = [] := by
        rw [byteLen_append, byteLen_takeWhile_isDigit, Nat.add_eq_left, List.length_eq_zero_iff]
      have value : slice (before ++ key ++ tail) (byteLen (before ++ key))
          (byteLen (before ++ key ++ tail.takeWhile Char.isDigit)) = some (tail.takeWhile Char.isDigit) := by
        have parts := splitAtByte_byteLen (tail.takeWhile Char.isDigit) (tail.dropWhile Char.isDigit)
        rw [List.takeWhile_append_dropWhile] at parts
        rw [byteLen_append (before ++ key), slice_append, parts, Option.map_some]
      simp only [Option.map_some]
      rw [key_end, ← List.append_assoc, digitsEnd_append, value]
      simp only [none_iff]
      rfl

/-! ### When a slice panics -/

/-- A character straddles the end of a key: before it the text is made of groups that the scan consumes, each a key of
two bytes and a number. -/
inductive Straddled : Text → Prop
  | wide {c : Char} {rest : Text} (long : 2 < c.utf8Size) : Straddled (c :: rest)
  | ahead {c d : Char} {rest : Text} (short : c.utf8Size = 1) (long : 1 < d.utf8Size) : Straddled (c :: d :: rest)
  | group {key number rest : Text} (two : byteLen key = 2) (some : number ≠ [])
      (digits : ∀ c ∈ number, c.isDigit = true) (small : Raw.digitsValue number < 2 ^ 32)
      (ended : rest.takeWhile Char.isDigit = []) (later : Straddled rest) : Straddled (key ++ number ++ rest)

theorem straddled_of_splitAtByte {rest : Text} (long : ¬byteLen rest < 2) (none : splitAtByte 2 rest = none) :
    Straddled rest := by
  cases rest with
  | nil => exact absurd Nat.two_pos long
  | cons c rest =>
    by_cases wide : 2 < c.utf8Size
    · exact .wide wide
    · have positive := c.utf8Size_pos
      rw [splitAtByte, if_pos (by omega)] at none
      · have inner := Option.map_eq_none_iff.mp none
        obtain one | two : c.utf8Size = 1 ∨ c.utf8Size = 2 := by omega
        · rw [one] at inner
          cases rest with
          | nil =>
            rw [byteLen_cons, one, byteLen_nil] at long
            omega
          | cons d rest =>
            have some := d.utf8Size_pos
            refine .ahead one (not_le.mp fun narrow => ?_)
            rw [splitAtByte, if_pos (by omega), show 2 - 1 - d.utf8Size = 0 by omega, splitAtByte] at inner
            · cases inner
            · decide
        · rw [two, splitAtByte] at inner
          cases inner
      · decide

/-- The scan panics exactly where a character straddles the end of a key. -/
theorem scan_eq_none_of_straddled {rest : Text} (straddled : Straddled rest) (before : Text) (layout : ParallelSpec)
    (sawAny : Bool) : scan (before ++ rest) layout sawAny (byteLen before) = none := by
  induction straddled generalizing before layout sawAny with
  | @wide c rest long =>
    have none : splitAtByte 2 (c :: rest) = none := by
      rw [splitAtByte, if_neg (by omega)]
      decide
    rw [scan_append, if_neg (by rw [byteLen_cons]; omega), none]
  | @ahead c d rest short long =>
    have none : splitAtByte 2 (c :: d :: rest) = none := by
      rw [splitAtByte, if_pos (by omega), short, splitAtByte, if_neg (by omega), Option.map_none]
      · decide
      · decide
    have two : ¬byteLen (c :: d :: rest) < 2 := by
      simp only [byteLen_cons]
      omega
    rw [scan_append, if_neg two, none]
  | @group key number rest two some digits small ended later ih =>
    have parts := splitAtByte_byteLen key (number ++ rest)
    have taken : (number ++ rest).takeWhile Char.isDigit = number := by
      rw [List.takeWhile_append_of_pos digits, ended, List.append_nil]
    rw [two] at parts
    rw [List.append_assoc, scan_append, if_neg (by rw [byteLen_append]; omega), parts]
    simp only [taken]
    rw [if_neg some, parseU32, if_pos ⟨some, small⟩]
    simp only
    rw [← List.append_assoc, ← List.append_assoc]
    exact ih (before ++ key ++ number) _ _

theorem straddled_of_scan_eq_none (n : ℕ) {rest : Text} (bound : rest.length ≤ n) (before : Text)
    (layout : ParallelSpec) (sawAny : Bool) (none : scan (before ++ rest) layout sawAny (byteLen before) = none) :
    Straddled rest := by
  induction n generalizing rest before layout sawAny with
  | zero =>
    rw [List.length_eq_zero_iff.mp (Nat.le_zero.mp bound), scan_append, if_pos (by decide)] at none
    cases none
  | succ n ih =>
    rw [scan_append] at none
    split at none
    next => cases none
    next long =>
      cases parted : splitAtByte 2 rest with
      | none => exact straddled_of_splitAtByte long parted
      | some halves =>
        obtain ⟨key, tail⟩ := halves
        obtain ⟨rfl, two⟩ := splitAtByte_eq_some parted
        rw [parted] at none
        simp only at none two bound
        split at none
        next => cases none
        next some =>
          cases read : parseU32 (tail.takeWhile Char.isDigit) with
          | none =>
            rw [read] at none
            cases none
          | some value =>
            have small : Raw.digitsValue (tail.takeWhile Char.isDigit) < 2 ^ 32 := by
              rw [parseU32] at read
              split at read
              next fits => exact fits.2
              next => cases read
            have whole := List.takeWhile_append_dropWhile (p := Char.isDigit) (l := tail)
            rw [read] at none
            simp only at none
            rw [← whole, ← List.append_assoc]
            refine .group two some (fun c member => List.mem_takeWhile_imp member) small ?_ ?_
            · exact List.takeWhile_eq_nil_iff.mpr fun inside digit =>
                absurd digit (by simpa using List.dropWhile_get_zero_not _ _ inside)
            · refine ih ?_ (before ++ key ++ tail.takeWhile Char.isDigit) (layout.setDimension key value) true ?_
              · have count := congrArg List.length whole
                have positive := List.length_pos_iff.mpr some
                rw [List.length_append] at bound count
                omega
              · rwa [List.append_assoc (before ++ key), whole, List.append_assoc before]

theorem scan_eq_none_iff (text : Text) (layout : ParallelSpec) (sawAny : Bool) :
    scan text layout sawAny 0 = none ↔ Straddled text :=
  ⟨fun none => straddled_of_scan_eq_none text.length le_rfl [] layout sawAny none,
    fun straddled => scan_eq_none_of_straddled straddled [] layout sawAny⟩

/-- Parsing a label is safe exactly when no character straddles the end of a key. -/
theorem parse_safe_iff (label : Text) : (parse label).isSome = true ↔ ¬Straddled (toAsciiLowercase (trim label)) := by
  rw [← scan_eq_none_iff _ ⟨1, 1, 1, 1⟩ false, ← ne_eq, Option.ne_none_iff_isSome, parse]
  split
  next empty =>
    rw [empty, scan, if_neg (by decide)]
    rfl
  next => rfl

/-- An ASCII letter before one that takes two bytes. -/
theorem parse_accented : ¬∀ label : Text, (parse label).isSome = true := by
  intro safe
  have panics := safe ['a', 'é']
  revert panics
  decide +kernel

end ParallelSpec

end TrtLlm.Tuner
