import TrtLlm.Soundness.LayoutGroups

/-! # A spelled layout is read back

`ParallelSpec::spell` writes one group for each dimension above 1, and `tp1` when there is none. All its keys have two
letters, so the scan consumes every group, and the dimensions left out are read as 1.
-/

namespace TrtLlm.Tuner

open ParallelSpec

theorem digitsValue_digits (n : UInt32) : Raw.digitsValue (digits n) = n.toNat := Nat.ofDigitChars_ten_toDigits

theorem keyed_of_known {key : Text} (listed : key ∈ known) : key.length = 2 ∧ ∀ c ∈ key, c.isAlpha = true := by
  have keys : ∀ key ∈ known, key.length = 2 ∧ key.all Char.isAlpha = true := by decide
  obtain ⟨two, letters⟩ := keys key listed
  exact ⟨two, List.all_eq_true.mp letters⟩

namespace LabelGroup

variable {g : LabelGroup} {groups : List LabelGroup}

/-! ### What the groups give -/

/-- A degree as `spell` keeps it: 1 unless above 1. -/
def kept (degree : UInt32) : UInt32 := if 1 < degree then degree else 1

theorem kept_of_one_le {degree : UInt32} (positive : 1 ≤ degree) : kept degree = degree := by
  rw [kept]
  split
  next => rfl
  next small => exact UInt32.le_antisymm positive (UInt32.not_lt.mp small)

theorem given_cons_of_pos {key : Text} (here : g.name = key) (groups : List LabelGroup) :
    given (g :: groups) key = g.value := by
  rw [given, List.find?_cons_of_pos (by simpa using here), Option.map_some, Option.getD_some]

theorem given_cons_of_neg {key : Text} (other : g.name ≠ key) (groups : List LabelGroup) :
    given (g :: groups) key = given groups key := by
  rw [given, List.find?_cons_of_neg (by simpa using other)]
  rfl

theorem given_eq_one {key : Text} (absent : ∀ g ∈ groups, g.name ≠ key) : given groups key = 1 := by
  have none : (groups.find? fun g => g.name = key) = none := by
    apply List.find?_eq_none.mpr
    intro g member
    simpa using absent g member
  rw [given, none]
  rfl

/-- Without the groups of 1 or less, every known key has its kept number. -/
theorem given_filter {key : Text} (listed : key ∈ known) (distinct : Distinct groups) :
    given (groups.filter fun g => 1 < g.value) key = kept (given groups key) := by
  induction groups with
  | nil => rfl
  | cons g groups ih =>
    obtain ⟨alone, rest⟩ := List.pairwise_cons.mp distinct
    by_cases here : g.name = key
    · rw [given_cons_of_pos here, kept]
      split
      next large => rw [List.filter_cons_of_pos (by simpa using large), given_cons_of_pos here]
      next small =>
        rw [List.filter_cons_of_neg (by simpa using small)]
        apply given_eq_one
        intro later member same
        exact alone later (List.mem_filter.mp member).1 (here ▸ listed) (here.trans same.symm)
    · rw [given_cons_of_neg here, ← ih rest, List.filter_cons]
      split
      next => exact given_cons_of_neg here _
      next => rfl

/-- Groups that the scan consumes are read as expected. -/
theorem parse_of_consumed (consumed : ∀ g ∈ groups, g.Consumed) (filled : groups ≠ []) (distinct : Distinct groups) :
    parse (spelled groups) = some (some (expected groups)) := by
  have all : taken groups = groups := List.takeWhile_eq_self_iff.mpr fun g member => by simpa using consumed g member
  have last : left groups = [] := List.dropWhile_eq_nil_iff.mpr fun g member => by simpa using consumed g member
  have whole : read (taken groups) ⟨1, 1, 1, 1⟩ = expected groups := by
    apply (read_taken_eq_expected_iff distinct).mpr
    rw [last]
    intro g member
    cases member
  rw [parse_spelled, whole, all]
  cases groups with
  | nil => exact absurd rfl filled
  | cons g groups => rfl

theorem distinct_of_nodup (names : (groups.map name).Nodup) : Distinct groups := by
  apply (List.pairwise_map.mp names).imp
  intro g later apart _
  exact apart

theorem spelled_eq_nil_iff : spelled groups = [] ↔ groups = [] := by
  constructor
  · intro empty
    cases groups with
    | nil => rfl
    | cons g groups =>
      rw [spelled, List.flatMap_cons, List.append_assoc] at empty
      exact absurd (List.append_eq_nil_iff.mp empty).1 g.keyed
  · rintro rfl
    rfl

theorem spelled_filter (chosen : LabelGroup → Bool) (groups : List LabelGroup) :
    spelled (groups.filter chosen) = groups.flatMap fun g => if chosen g then g.key ++ g.number else [] := by
  induction groups with
  | nil => rfl
  | cons g groups ih =>
    rw [List.flatMap_cons, ← ih, List.filter_cons]
    split
    next => rfl
    next => rfl

/-! ### The groups of a layout -/

/-- A dimension with its degree in decimal digits. -/
def dimension (key : Text) (listed : key ∈ known) (degree : UInt32) : LabelGroup where
  key
  number := Tuner.digits degree
  keyed := List.ne_nil_of_length_pos (by rw [(keyed_of_known listed).1]; decide)
  letters := (keyed_of_known listed).2
  numbered := Nat.toDigits_ne_nil
  digits _ member := Nat.isDigit_of_mem_toDigits (b := 10) (by decide) (by decide) member
  small := by
    rw [digitsValue_digits]
    exact degree.toNat_lt

theorem value_dimension {key : Text} (listed : key ∈ known) (degree : UInt32) :
    (dimension key listed degree).value = degree := by
  rw [value, dimension, digitsValue_digits, UInt32.ofNat_toNat]

theorem name_dimension {key : Text} (listed : key ∈ known) (degree : UInt32) :
    (dimension key listed degree).name = key := by
  have lower : ∀ key ∈ known, toAsciiLowercase key = key := by decide
  exact lower key listed

theorem consumed_dimension {key : Text} (listed : key ∈ known) (degree : UInt32) :
    (dimension key listed degree).Consumed :=
  .inl (keyed_of_known listed).1

/-- Every dimension, in the order in which they are spelled. -/
def dimensions (layout : ParallelSpec) : List LabelGroup :=
  [dimension "tp".toList (by decide) layout.tp, dimension "pp".toList (by decide) layout.pp,
    dimension "dp".toList (by decide) layout.dp, dimension "ep".toList (by decide) layout.ep]

/-- The dimensions above 1. -/
def shown (layout : ParallelSpec) : List LabelGroup := (dimensions layout).filter fun g => 1 < g.value

theorem distinct_dimensions (layout : ParallelSpec) : Distinct (dimensions layout) := by
  apply distinct_of_nodup
  have names : (dimensions layout).map name = ["tp".toList, "pp".toList, "dp".toList, "ep".toList] := by
    simp only [dimensions, List.map_cons, List.map_nil, name_dimension]
  rw [names]
  decide

theorem dimension_mem {key : Text} (listed : key ∈ known) (layout : ParallelSpec) :
    dimension key listed (layout.degree key) ∈ dimensions layout := by
  have keys := listed
  simp only [known, List.mem_cons, List.not_mem_nil, or_false] at keys
  rcases keys with rfl | rfl | rfl | rfl
  · exact .head _
  · exact .tail _ (.head _)
  · exact .tail _ (.tail _ (.tail _ (.head _)))
  · exact .tail _ (.tail _ (.head _))

theorem given_dimensions {key : Text} (listed : key ∈ known) (layout : ParallelSpec) :
    given (dimensions layout) key = layout.degree key := by
  have found := find?_name (distinct_dimensions layout) (dimension_mem listed layout)
    (by rwa [name_dimension])
  rw [name_dimension] at found
  rw [given, found, Option.map_some, Option.getD_some, value_dimension]

/-- The groups that `spell` writes. -/
def groupsOf (layout : ParallelSpec) : List LabelGroup :=
  if shown layout = [] then [dimension "tp".toList (by decide) 1] else shown layout

theorem spelled_shown (layout : ParallelSpec) : spelled (shown layout) =
    (dimensions layout).flatMap fun g => if 1 < g.value then g.key ++ g.number else [] := by
  rw [shown, spelled_filter]
  simp only [decide_eq_true_eq]

theorem spell_eq_spelled (layout : ParallelSpec) : layout.spell = spelled (groupsOf layout) := by
  have out : layout.spell = if spelled (shown layout) = [] then "tp1".toList else spelled (shown layout) := by
    rw [spelled_shown, spell]
    simp only [dimensions, List.flatMap_cons, List.flatMap_nil, value_dimension, List.isEmpty_iff]
    rfl
  rw [out, groupsOf]
  simp only [spelled_eq_nil_iff]
  split
  next => rfl
  next => rfl

theorem dimension_of_mem {layout : ParallelSpec} (member : g ∈ dimensions layout) :
    ∃ key, ∃ listed : key ∈ known, ∃ degree, g = dimension key listed degree := by
  simp only [dimensions, List.mem_cons, List.not_mem_nil, or_false] at member
  rcases member with rfl | rfl | rfl | rfl <;> exact ⟨_, _, _, rfl⟩

/-- Every group that `spell` writes is one of a dimension. -/
theorem dimension_of_mem_groupsOf {layout : ParallelSpec} (member : g ∈ groupsOf layout) :
    ∃ key, ∃ listed : key ∈ known, ∃ degree, g = dimension key listed degree := by
  rw [groupsOf] at member
  split at member
  next =>
    obtain rfl := List.mem_singleton.mp member
    exact ⟨_, _, _, rfl⟩
  next => exact dimension_of_mem (List.mem_filter.mp member).1

theorem groupsOf_ne_nil (layout : ParallelSpec) : groupsOf layout ≠ [] := by
  rw [groupsOf]
  split
  next => exact List.cons_ne_nil _ _
  next filled => exact filled

theorem distinct_groupsOf (layout : ParallelSpec) : Distinct (groupsOf layout) := by
  rw [groupsOf]
  split
  next => exact List.pairwise_singleton _ _
  next => exact (distinct_dimensions layout).filter _

/-- The label gives every dimension, those left out as 1. -/
theorem given_groupsOf {key : Text} (listed : key ∈ known) (layout : ParallelSpec) :
    given (groupsOf layout) key = kept (layout.degree key) := by
  have shown_given := given_filter listed (distinct_dimensions layout)
  rw [given_dimensions listed] at shown_given
  rw [groupsOf]
  split
  next empty =>
    rw [← shown_given]
    change _ = given (shown layout) key
    rw [empty]
    by_cases here : "tp".toList = key
    · rw [given_cons_of_pos ((name_dimension _ _).trans here), value_dimension]
      rfl
    · rw [given_cons_of_neg (by rwa [name_dimension])]
  next => exact shown_given

end LabelGroup

open LabelGroup

namespace ParallelSpec

/-- A layout as its label keeps it. -/
def keptDegrees (layout : ParallelSpec) : ParallelSpec :=
  ⟨kept layout.tp, kept layout.pp, kept layout.ep, kept layout.dp⟩

theorem degree_keptDegrees {key : Text} (listed : key ∈ known) (layout : ParallelSpec) :
    layout.keptDegrees.degree key = kept (layout.degree key) := by
  simp only [known, List.mem_cons, List.not_mem_nil, or_false] at listed
  rcases listed with rfl | rfl | rfl | rfl <;> rfl

/-- Whatever the degrees are, a spelled layout is read with every degree as `spell` keeps it. -/
theorem parse_spell_kept (layout : ParallelSpec) : parse layout.spell = some (some layout.keptDegrees) := by
  have consumed : ∀ g ∈ groupsOf layout, g.Consumed := by
    intro g member
    obtain ⟨key, listed, degree, rfl⟩ := dimension_of_mem_groupsOf member
    exact consumed_dimension listed degree
  have same : expected (groupsOf layout) = layout.keptDegrees := by
    apply ext_degree
    intro key listed
    rw [degree_expected listed, given_groupsOf listed, degree_keptDegrees listed]
  rw [spell_eq_spelled, parse_of_consumed consumed (groupsOf_ne_nil layout) (distinct_groupsOf layout), same]

/-- **A layout label can be read back.** -/
theorem parse_spell (layout : ParallelSpec) (tp : 1 ≤ layout.tp) (pp : 1 ≤ layout.pp) (dp : 1 ≤ layout.dp)
    (ep : 1 ≤ layout.ep) : parse layout.spell = some (some layout) := by
  rw [parse_spell_kept, keptDegrees, kept_of_one_le tp, kept_of_one_le pp, kept_of_one_le ep,
    kept_of_one_le dp]

/-- Two dimensions left out, and a number of ten digits. -/
theorem parse_spell_wide : parse (spell ⟨8, 1, 4294967295, 1⟩) = some (some ⟨8, 1, 4294967295, 1⟩) :=
  parse_spell ⟨8, 1, 4294967295, 1⟩ (by decide) (by decide) (by decide) (by decide)

end ParallelSpec

end TrtLlm.Tuner
