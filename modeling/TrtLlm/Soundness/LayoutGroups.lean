import TrtLlm.Soundness.LayoutScan

/-! # Layout labels made of groups

A label is a sequence of groups, each a key and a number. The scan cuts off two bytes as the key, so it consumes the
groups with a key of two letters, and those with one letter and more than one digit; at any other group it gives up and
the dimensions from there on keep their default.
-/

namespace TrtLlm.Tuner

open ParallelSpec

/-! ### Letters and digits -/

theorem toNat_lt_of_isAlpha {c : Char} (letter : c.isAlpha = true) : c.toNat < 128 := by
  rcases Bool.or_eq_true_iff.mp letter with upper | lower
  · exact Nat.lt_of_le_of_lt (UInt32.le_iff_toNat_le.mp (of_decide_eq_true upper).2) (by decide)
  · have bound := of_decide_eq_true (Bool.and_eq_true_iff.mp lower).2
    exact Nat.lt_of_le_of_lt (UInt32.le_iff_toNat_le.mp bound) (by decide)

theorem toNat_toLower {c : Char} (letter : c.isAlpha = true) : 97 ≤ c.toLower.toNat ∧ c.toLower.toNat ≤ 122 := by
  have table : ∀ n < 128, (Char.ofNat n).isAlpha = true →
      97 ≤ (Char.ofNat n).toLower.toNat ∧ (Char.ofNat n).toLower.toNat ≤ 122 := by decide
  have row := table c.toNat (toNat_lt_of_isAlpha letter)
  rw [Char.ofNat_toNat] at row
  exact row letter

theorem toLower_of_isDigit {c : Char} (digit : c.isDigit = true) : c.toLower = c := by
  have table : ∀ n < 58, (Char.ofNat n).isDigit = true → (Char.ofNat n).toLower = Char.ofNat n := by decide
  have row := table c.toNat (Nat.lt_succ_of_le (isDigit_iff.mp digit).2)
  rw [Char.ofNat_toNat] at row
  exact row digit

theorem utf8Size_of_lt {c : Char} (ascii : c.toNat < 128) : c.utf8Size = 1 := by
  rw [Char.utf8Size_eq_one_iff, UInt32.le_iff_toNat_le]
  exact Nat.le_of_lt_succ ascii

theorem not_isDigit_of_lt {c : Char} (letter : 57 < c.toNat) : c.isDigit = false := by
  rw [← Bool.not_eq_true, isDigit_iff]
  omega

theorem byteLen_of_ascii {text : Text} (ascii : ∀ c ∈ text, c.toNat < 128) : byteLen text = text.length := by
  induction text with
  | nil => rfl
  | cons c text ih =>
    rw [byteLen_cons, utf8Size_of_lt (ascii c (.head _)), ih fun d member => ascii d (.tail _ member), List.length_cons,
      Nat.add_comm]

/-- A text without white space is not trimmed. -/
theorem trim_eq_self {text : Text} (solid : ∀ c ∈ text, isWhitespace c = false) : trim text = text := by
  have front : text.dropWhile isWhitespace = text :=
    List.dropWhile_eq_self_iff.mpr fun some blank => by simp [solid _ (List.getElem_mem some)] at blank
  rw [trim, front]
  exact List.rdropWhile_eq_self_iff.mpr fun some blank => by simp [solid _ (List.getLast_mem some)] at blank

theorem not_isWhitespace {c : Char} (plain : c.isAlpha = true ∨ c.isDigit = true) : isWhitespace c = false := by
  have table : ∀ n < 128, (Char.ofNat n).isAlpha = true ∨ (Char.ofNat n).isDigit = true →
      isWhitespace (Char.ofNat n) = false := by decide
  have ascii : c.toNat < 128 := by
    rcases plain with letter | digit
    · exact toNat_lt_of_isAlpha letter
    · exact Nat.lt_of_le_of_lt (isDigit_iff.mp digit).2 (by decide)
  have row := table c.toNat ascii
  rw [Char.ofNat_toNat] at row
  exact row plain

theorem digitsValue_tail_le (d : Char) (digits : Text) : Raw.digitsValue digits ≤ Raw.digitsValue (d :: digits) := by
  have mono : ∀ (digits : Text) (a b : ℕ), a ≤ b →
      digits.foldl (fun value c => 10 * value + (c.toNat - 48)) a ≤
        digits.foldl (fun value c => 10 * value + (c.toNat - 48)) b := by
    intro digits
    induction digits with
    | nil => exact fun _ _ below => below
    | cons c digits ih =>
      intro a b below
      refine ih _ _ ?_
      simp only
      omega
  exact mono digits 0 _ (Nat.zero_le _)

/-! ### Known keys -/

/-- The keys that name a dimension. -/
def known : List Text := ["tp".toList, "pp".toList, "ep".toList, "dp".toList]

namespace ParallelSpec

/-- The degree under a known key. -/
def degree (layout : ParallelSpec) (key : Text) : UInt32 :=
  if key = "tp".toList then layout.tp
  else if key = "pp".toList then layout.pp
  else if key = "ep".toList then layout.ep
  else layout.dp

theorem ext_degree {layout other : ParallelSpec} (same : ∀ key ∈ known, layout.degree key = other.degree key) :
    layout = other := by
  cases layout
  cases other
  simp only [known, List.forall_mem_cons] at same
  obtain ⟨tp, pp, ep, dp, -⟩ := same
  congr

theorem degree_setDimension {key : Text} (listed : key ∈ known) (layout : ParallelSpec) (other : Text)
    (value : UInt32) :
    (layout.setDimension other value).degree key = if other = key then value else layout.degree key := by
  simp only [known, List.mem_cons, List.not_mem_nil, or_false] at listed
  rw [setDimension]
  rcases listed with rfl | rfl | rfl | rfl <;> split_ifs <;> simp_all [degree]

theorem setDimension_of_unknown {key : Text} (unknown : key ∉ known) (layout : ParallelSpec) (value : UInt32) :
    layout.setDimension key value = layout := by
  simp only [known, List.mem_cons, List.not_mem_nil, or_false, not_or] at unknown
  rw [setDimension, if_neg unknown.1, if_neg unknown.2.1, if_neg unknown.2.2.1, if_neg unknown.2.2.2]

end ParallelSpec

/-! ### Groups -/

/-- A key of ASCII letters and a decimal number that fits a `u32`. -/
structure LabelGroup where
  key : Text
  number : Text
  keyed : key ≠ []
  letters : ∀ c ∈ key, c.isAlpha = true
  numbered : number ≠ []
  digits : ∀ c ∈ number, c.isDigit = true
  small : Raw.digitsValue number < 2 ^ 32

namespace LabelGroup

variable {g : LabelGroup} {groups : List LabelGroup} {rest : Text}

/-- A group of texts that are checked. -/
def of (key number : Text) (checked : (key ≠ [] ∧ key.all Char.isAlpha) ∧ (number ≠ [] ∧ number.all Char.isDigit) ∧
    Raw.digitsValue number < 2 ^ 32) : LabelGroup :=
  ⟨key, number, checked.1.1, List.all_eq_true.mp checked.1.2, checked.2.1.1, List.all_eq_true.mp checked.2.1.2,
    checked.2.2⟩

/-- The key as the scan compares it. -/
def name (g : LabelGroup) : Text := toAsciiLowercase g.key

def value (g : LabelGroup) : UInt32 := .ofNat (Raw.digitsValue g.number)

/-- The label. -/
def spelled (groups : List LabelGroup) : Text := groups.flatMap fun g => g.key ++ g.number

/-- The label as the scan sees it. -/
def lowered (groups : List LabelGroup) : Text := groups.flatMap fun g => g.name ++ g.number

theorem name_letters {c : Char} (member : c ∈ g.name) : 97 ≤ c.toNat ∧ c.toNat ≤ 122 := by
  obtain ⟨letter, listed, rfl⟩ := List.mem_map.mp member
  exact toNat_toLower (g.letters letter listed)

theorem byteLen_name (g : LabelGroup) : byteLen g.name = g.key.length := by
  rw [byteLen_of_ascii fun c member => Nat.lt_of_le_of_lt (name_letters member).2 (by decide)]
  exact List.length_map _

theorem toAsciiLowercase_spelled (groups : List LabelGroup) : toAsciiLowercase (spelled groups) = lowered groups := by
  rw [toAsciiLowercase, spelled, lowered, List.map_flatMap]
  refine List.flatMap_congr fun g _ => ?_
  rw [List.map_append]
  have kept : g.number.map Char.toLower = g.number :=
    (List.map_congr_left fun c member => toLower_of_isDigit (g.digits c member)).trans (List.map_id' _)
  rw [kept]
  rfl

theorem trim_spelled (groups : List LabelGroup) : trim (spelled groups) = spelled groups := by
  refine trim_eq_self fun c member => ?_
  obtain ⟨g, -, inside⟩ := List.mem_flatMap.mp member
  exact not_isWhitespace ((List.mem_append.mp inside).imp (g.letters c) (g.digits c))

theorem takeWhile_letters {text : Text} (some : text ≠ []) (letters : ∀ c ∈ text, 97 ≤ c.toNat ∧ c.toNat ≤ 122)
    (rest : Text) : (text ++ rest).takeWhile Char.isDigit = [] := by
  obtain ⟨c, tail, rfl⟩ := List.exists_cons_of_ne_nil some
  have letter : c.isDigit = false := not_isDigit_of_lt (Nat.lt_of_lt_of_le (by decide) (letters c (.head _)).1)
  rw [List.cons_append, List.takeWhile_cons_of_neg (by simp [letter])]

theorem name_ne_nil (g : LabelGroup) : g.name ≠ [] := fun none => g.keyed (List.map_eq_nil_iff.mp none)

theorem takeWhile_lowered (groups : List LabelGroup) : (lowered groups).takeWhile Char.isDigit = [] := by
  cases groups with
  | nil => rfl
  | cons g groups =>
    rw [lowered, List.flatMap_cons, List.append_assoc]
    exact takeWhile_letters g.name_ne_nil (fun _ => name_letters) _

theorem takeWhile_digits {digits rest : Text} (all : ∀ c ∈ digits, c.isDigit = true)
    (ended : rest.takeWhile Char.isDigit = []) : (digits ++ rest).takeWhile Char.isDigit = digits := by
  rw [List.takeWhile_append_of_pos all, ended, List.append_nil]

/-- The scan consumes the group: its key is two letters, or one letter with two digits of the number or more. -/
def Consumed (g : LabelGroup) : Prop := g.key.length = 2 ∨ g.key.length = 1 ∧ 2 ≤ g.number.length

instance (g : LabelGroup) : Decidable g.Consumed := inferInstanceAs (Decidable (_ ∨ _))

/-! ### One group -/

theorem parseU32_number (g : LabelGroup) : parseU32 g.number = some g.value := if_pos ⟨g.numbered, g.small⟩

theorem length_name (g : LabelGroup) : g.name.length = g.key.length := List.length_map _

theorem not_mem_known_of_short {key : Text} (short : key.length ≠ 2) : key ∉ known := by
  intro listed
  have sizes : ∀ key ∈ known, key.length = 2 := by decide
  exact short (sizes key listed)

/-- A known key has no digit. -/
theorem not_mem_known_of_digit {c d : Char} (digit : d.isDigit = true) : [c, d] ∉ known := by
  intro listed
  have letters : ∀ key ∈ known, key.all (fun d => !d.isDigit) = true := by decide
  have letter := List.all_eq_true.mp (letters _ listed) d (.tail _ (.head _))
  rw [digit] at letter
  cases letter

theorem two_le_byteLen (g : LabelGroup) (groups : List LabelGroup) :
    ¬byteLen (g.name ++ g.number ++ lowered groups) < 2 := by
  have letters := List.length_pos_iff.mpr g.keyed
  have figures := List.length_pos_iff.mpr g.numbered
  rw [byteLen_append, byteLen_append, byteLen_name, byteLen_of_digits g.digits]
  omega

/-- A group of one letter: the key of the scan is the letter and the first digit, so the number is cut. -/
theorem scan_letter (g : LabelGroup) (groups : List LabelGroup) (before : Text) (layout : ParallelSpec)
    (sawAny : Bool) (one : g.key.length = 1) :
    scan (before ++ (g.name ++ g.number ++ lowered groups)) layout sawAny (byteLen before) =
      if g.Consumed then
        scan (before ++ (g.name ++ g.number ++ lowered groups)) (layout.setDimension g.name g.value) true
          (byteLen (before ++ g.name ++ g.number))
      else some (layout.answer sawAny) := by
  obtain ⟨c, named⟩ := List.length_eq_one_iff.mp ((length_name g).trans one)
  obtain ⟨d, digits, numbers⟩ := List.exists_cons_of_ne_nil g.numbered
  have all := g.digits
  have small := g.small
  rw [numbers] at all small
  have parted : splitAtByte 2 (g.name ++ g.number ++ lowered groups) = some ([c, d], digits ++ lowered groups) := by
    have parts := splitAtByte_byteLen [c, d] (digits ++ lowered groups)
    have letter := name_letters (g := g) (c := c) (by rw [named]; exact .head _)
    rw [byteLen_cons, byteLen_cons, byteLen_nil, utf8Size_of_lt (by omega),
      utf8Size_of_lt (Nat.lt_of_le_of_lt (isDigit_iff.mp (all d (.head _))).2 (by decide))] at parts
    rw [named, numbers]
    exact parts
  rw [scan_append, if_neg (two_le_byteLen g groups), parted]
  simp only [takeWhile_digits (fun e member => all e (.tail _ member)) (takeWhile_lowered groups)]
  have alone : g.name ∉ known := not_mem_known_of_short (by rw [length_name]; omega)
  have cut : [c, d] ∉ known := not_mem_known_of_digit (all d (.head _))
  cases digits with
  | nil =>
    have left : ¬g.Consumed := by
      rw [Consumed, numbers, List.length_singleton]
      omega
    rw [if_pos rfl, if_neg left]
  | cons e digits =>
    have taken : g.Consumed := .inr ⟨one, by rw [numbers, List.length_cons, List.length_cons]; omega⟩
    rw [if_neg (List.cons_ne_nil e digits), if_pos taken, parseU32,
      if_pos ⟨List.cons_ne_nil e digits, Nat.lt_of_le_of_lt (digitsValue_tail_le d _) small⟩]
    simp only
    rw [setDimension_of_unknown cut, setDimension_of_unknown alone, named, numbers]
    simp only [List.append_assoc, List.cons_append, List.nil_append]

/-- A group of two letters is read as it is spelled. -/
theorem scan_pair (g : LabelGroup) (groups : List LabelGroup) (before : Text) (layout : ParallelSpec)
    (sawAny : Bool) (two : g.key.length = 2) :
    scan (before ++ (g.name ++ g.number ++ lowered groups)) layout sawAny (byteLen before) =
      scan (before ++ (g.name ++ g.number ++ lowered groups)) (layout.setDimension g.name g.value) true
        (byteLen (before ++ g.name ++ g.number)) := by
  have parted : splitAtByte 2 (g.name ++ g.number ++ lowered groups) = some (g.name, g.number ++ lowered groups) := by
    have parts := splitAtByte_byteLen g.name (g.number ++ lowered groups)
    rwa [byteLen_name, two, ← List.append_assoc] at parts
  rw [scan_append, if_neg (two_le_byteLen g groups), parted]
  simp only [takeWhile_digits g.digits (takeWhile_lowered groups)]
  rw [if_neg g.numbered, parseU32_number]

/-- In a longer group the scan finds a letter where it expects a digit. -/
theorem scan_long (g : LabelGroup) (groups : List LabelGroup) (before : Text) (layout : ParallelSpec)
    (sawAny : Bool) (more : 2 < g.key.length) :
    scan (before ++ (g.name ++ g.number ++ lowered groups)) layout sawAny (byteLen before) =
      some (layout.answer sawAny) := by
  have two : (g.name.take 2).length = 2 := List.length_take_of_le (by rw [length_name]; omega)
  have letters : g.name.drop 2 ≠ [] := List.ne_nil_of_length_pos (by rw [List.length_drop, length_name]; omega)
  have parted : splitAtByte 2 (g.name ++ g.number ++ lowered groups) =
      some (g.name.take 2, g.name.drop 2 ++ (g.number ++ lowered groups)) := by
    have parts := splitAtByte_byteLen (g.name.take 2) (g.name.drop 2 ++ (g.number ++ lowered groups))
    have ascii : ∀ c ∈ g.name.take 2, c.toNat < 128 := fun c member =>
      Nat.lt_of_le_of_lt (name_letters (List.mem_of_mem_take member)).2 (by decide)
    rwa [byteLen_of_ascii ascii, two, ← List.append_assoc, List.take_append_drop, ← List.append_assoc] at parts
  rw [scan_append, if_neg (two_le_byteLen g groups), parted]
  simp only
  rw [if_pos (takeWhile_letters letters (fun _ member => name_letters (List.mem_of_mem_drop member)) _)]

/-- One round of the scan, at a group. -/
theorem scan_group (g : LabelGroup) (groups : List LabelGroup) (before : Text) (layout : ParallelSpec) (sawAny : Bool) :
    scan (before ++ (g.name ++ g.number ++ lowered groups)) layout sawAny (byteLen before) =
      if g.Consumed then
        scan (before ++ (g.name ++ g.number ++ lowered groups)) (layout.setDimension g.name g.value) true
          (byteLen (before ++ g.name ++ g.number))
      else some (layout.answer sawAny) := by
  have letters := List.length_pos_iff.mpr g.keyed
  obtain one | two | more : g.key.length = 1 ∨ g.key.length = 2 ∨ 2 < g.key.length := by omega
  · exact scan_letter g groups before layout sawAny one
  · rw [if_pos (show g.Consumed from .inl two)]
    exact scan_pair g groups before layout sawAny two
  · have left : ¬g.Consumed := by
      rw [Consumed]
      omega
    rw [if_neg left]
    exact scan_long g groups before layout sawAny more

/-- The groups that the scan reads. -/
def taken (groups : List LabelGroup) : List LabelGroup := groups.takeWhile fun g => g.Consumed

/-- The groups that it leaves. -/
def left (groups : List LabelGroup) : List LabelGroup := groups.dropWhile fun g => g.Consumed

/-- The dimensions after some groups. -/
def read (groups : List LabelGroup) (layout : ParallelSpec) : ParallelSpec :=
  groups.foldl (fun layout g => layout.setDimension g.name g.value) layout

theorem scan_groups (groups : List LabelGroup) (before : Text) (layout : ParallelSpec) (sawAny : Bool) :
    scan (before ++ lowered groups) layout sawAny (byteLen before) =
      some ((read (taken groups) layout).answer (sawAny || !(taken groups).isEmpty)) := by
  induction groups generalizing before layout sawAny with
  | nil =>
    rw [scan_append, if_pos (by decide)]
    simp [taken, read]
  | cons g groups ih =>
    have cons : lowered (g :: groups) = g.name ++ g.number ++ lowered groups := List.flatMap_cons
    rw [cons, scan_group]
    split
    next consumed =>
      have some : taken (g :: groups) = g :: taken groups := List.takeWhile_cons_of_pos (by simpa using consumed)
      rw [← List.append_assoc, ← List.append_assoc, ih, some, Bool.true_or]
      simp [read]
    next refused =>
      have none : taken (g :: groups) = [] := List.takeWhile_cons_of_neg (by simpa using refused)
      rw [none, List.isEmpty_nil, Bool.not_true, Bool.or_false]
      rfl

/-- What a label of groups is parsed to. -/
theorem parse_spelled (groups : List LabelGroup) :
    parse (spelled groups) = some ((read (taken groups) ⟨1, 1, 1, 1⟩).answer (!(taken groups).isEmpty)) := by
  rw [parse]
  simp only [trim_spelled, toAsciiLowercase_spelled]
  have scanned := scan_groups groups [] ⟨1, 1, 1, 1⟩ false
  rw [List.nil_append, byteLen_nil, Bool.false_or] at scanned
  rw [scanned]
  split
  next empty =>
    have none : groups = [] := by
      cases groups with
      | nil => rfl
      | cons g groups =>
        rw [lowered, List.flatMap_cons, List.append_assoc] at empty
        exact absurd (List.append_eq_nil_iff.mp empty).1 g.name_ne_nil
    rw [none]
    rfl
  next => rfl

/-! ### The expected layout -/

/-- No known key is used twice. -/
def Distinct (groups : List LabelGroup) : Prop := groups.Pairwise fun g later => g.name ∈ known → g.name ≠ later.name

instance (groups : List LabelGroup) : Decidable (Distinct groups) :=
  inferInstanceAs (Decidable (groups.Pairwise _))

/-- The number given under a key, or 1. -/
def given (groups : List LabelGroup) (key : Text) : UInt32 := ((groups.find? fun g => g.name = key).map value).getD 1

/-- Every known dimension equal to its number, and 1 where absent. -/
def expected (groups : List LabelGroup) : ParallelSpec where
  tp := given groups "tp".toList
  pp := given groups "pp".toList
  ep := given groups "ep".toList
  dp := given groups "dp".toList

theorem degree_expected {key : Text} (listed : key ∈ known) (groups : List LabelGroup) :
    (expected groups).degree key = given groups key := by
  simp only [known, List.mem_cons, List.not_mem_nil, or_false] at listed
  rcases listed with rfl | rfl | rfl | rfl <;> rfl

theorem degree_read {key : Text} (listed : key ∈ known) (distinct : Distinct groups) (layout : ParallelSpec) :
    (read groups layout).degree key = ((groups.find? fun g => g.name = key).map value).getD (layout.degree key) := by
  induction groups generalizing layout with
  | nil => rfl
  | cons g groups ih =>
    obtain ⟨alone, rest⟩ := List.pairwise_cons.mp distinct
    rw [read, List.foldl_cons]
    refine (ih rest _).trans ?_
    rw [degree_setDimension listed]
    by_cases here : g.name = key
    · have none : (groups.find? fun g => g.name = key) = none := by
        rw [List.find?_eq_none]
        intro later member
        simpa [← here, eq_comm] using alone later member (here ▸ listed)
      rw [if_pos here, none, List.find?_cons_of_pos (by simpa using here)]
      rfl
    · rw [if_neg here, List.find?_cons_of_neg (by simpa using here)]

/-- The group with a known key is the one that is found. -/
theorem find?_name (distinct : Distinct groups) (member : g ∈ groups) (listed : g.name ∈ known) :
    (groups.find? fun other => other.name = g.name) = some g := by
  induction groups with
  | nil => cases member
  | cons head groups ih =>
    obtain ⟨alone, rest⟩ := List.pairwise_cons.mp distinct
    cases member with
    | head => exact List.find?_cons_of_pos (by simp)
    | tail _ member =>
      have other : head.name ≠ g.name := fun same => alone g member (same ▸ listed) same
      rw [List.find?_cons_of_neg (by simpa using other), ih rest member]

theorem taken_append_left (groups : List LabelGroup) : taken groups ++ left groups = groups :=
  List.takeWhile_append_dropWhile

/-- The scan reads the expected layout exactly when it leaves no dimension other than 1. -/
theorem read_taken_eq_expected_iff (distinct : Distinct groups) :
    read (taken groups) ⟨1, 1, 1, 1⟩ = expected groups ↔ ∀ g ∈ left groups, g.name ∈ known → g.value = 1 := by
  have parts := taken_append_left groups
  have parted := distinct
  rw [← parts] at parted
  obtain ⟨front, -, apart⟩ := List.pairwise_append.mp parted
  have default : ∀ key ∈ known, (⟨1, 1, 1, 1⟩ : ParallelSpec).degree key = 1 := by decide
  have reads : ∀ key ∈ known, (read (taken groups) ⟨1, 1, 1, 1⟩).degree key = given (taken groups) key := by
    intro key listed
    rw [degree_read listed front, default key listed, given]
  constructor
  · intro same g member listed
    have none : (taken groups).find? (fun other => other.name = g.name) = none := by
      rw [List.find?_eq_none]
      intro other earlier
      have unlike : other.name ≠ g.name := fun same => apart other earlier g member (same ▸ listed) same
      simpa using unlike
    have found := find?_name distinct (parts ▸ List.mem_append_right _ member) listed
    have equal := congrArg (fun layout : ParallelSpec => layout.degree g.name) same
    simp only [reads _ listed, degree_expected listed, given, none, found] at equal
    exact equal.symm
  · intro ones
    refine ext_degree fun key listed => ?_
    rw [reads key listed, degree_expected listed, given, given]
    conv_rhs => rw [← parts, List.find?_append]
    cases first : (taken groups).find? fun g => g.name = key with
    | some g => rfl
    | none =>
      rw [Option.none_or]
      cases later : (left groups).find? fun g => g.name = key with
      | none => rfl
      | some g =>
        have named : g.name = key := by simpa using List.find?_some later
        exact (ones g (List.mem_of_find?_eq_some later) (named ▸ listed)).symm

end LabelGroup

open LabelGroup

/-- A label of groups is parsed as expected exactly when the scan reads a first group, and leaves no dimension other
than 1 behind the first group whose key is neither two letters nor one letter before two digits or more. -/
theorem ParallelSpec.parse_spelled_eq_expected_iff (groups : List LabelGroup) (distinct : Distinct groups) :
    parse (spelled groups) = some (some (expected groups)) ↔
      taken groups ≠ [] ∧ ∀ g ∈ left groups, g.name ∈ known → g.value = 1 := by
  rw [parse_spelled, ← read_taken_eq_expected_iff distinct, Option.some.injEq, answer]
  cases taken groups with
  | nil => simp
  | cons g rest => simp

/-- Two dimensions and an unknown key of two letters, in mixed case. -/
def readLabel : List LabelGroup :=
  [.of "TP".toList "4".toList (by decide),
    .of "cp".toList "2".toList (by decide),
    .of "ep".toList "8".toList (by decide)]

theorem ParallelSpec.parse_readLabel : parse (spelled readLabel) = some (some (expected readLabel)) :=
  (parse_spelled_eq_expected_iff readLabel (by decide)).mpr ⟨by decide, by decide⟩

/-- The label `tp1pp1dp2etp1ep2`. -/
def expertTensorLabel : List LabelGroup :=
  [.of "tp".toList "1".toList (by decide),
    .of "pp".toList "1".toList (by decide),
    .of "dp".toList "2".toList (by decide),
    .of "etp".toList "1".toList (by decide),
    .of "ep".toList "2".toList (by decide)]

/-- The key `etp` stops the scan, and the expert dimension behind it is lost. -/
theorem ParallelSpec.parse_expertTensorLabel :
    ¬∀ groups, Distinct groups → parse (spelled groups) = some (some (expected groups)) := by
  intro reads
  have lost := reads expertTensorLabel (by decide)
  revert lost
  decide +kernel

end TrtLlm.Tuner
