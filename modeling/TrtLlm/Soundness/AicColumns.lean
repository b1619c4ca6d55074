import Mathlib.Data.Char
import Mathlib.Data.List.Lex
import TrtLlm.Model.Tuner.Aic
import TrtLlm.ToMathlib.OptionMapM
import TrtLlm.ToMathlib.Rearrange

/-! # Columns found by name

A candidate is read from the cells of some lookups. Each lookup takes the first column whose name contains its needles,
and some of them match several of the documented names. The order of the columns is without effect exactly where it
keeps the first column of each such family.
-/

namespace TrtLlm.Tuner

open Raw (Profile)

/-! ### Entries of a row -/

theorem insertEntry_comm_of_lt {k k' : Text} (below : k < k') (v v' : Text) (entries : List (Text × Text)) :
    insertEntry k' v' (insertEntry k v entries) = insertEntry k v (insertEntry k' v' entries) := by
  have apart : k ≠ k' := below.ne
  have turned : ¬k' < k := below.asymm
  induction entries with
  | nil => simp [insertEntry, apart, apart.symm, below, turned]
  | cons entry entries ih =>
    obtain ⟨a, w⟩ := entry
    rcases lt_trichotomy k a with first | rfl | later
    · rcases lt_trichotomy k' a with both | rfl | between
      · simp [insertEntry, apart, apart.symm, below, turned, first, first.ne, both, both.ne]
      · simp [insertEntry, apart, apart.symm, below, turned]
      · simp [insertEntry, apart.symm, turned, first, first.ne, between.ne', between.asymm]
    · simp [insertEntry, apart.symm, turned]
    · have behind : a < k' := lt_trans later below
      simp [insertEntry, behind.ne', behind.asymm, later.ne', later.asymm, ih]

theorem insertEntry_comm {k k' : Text} (apart : k ≠ k') (v v' : Text) (entries : List (Text × Text)) :
    insertEntry k' v' (insertEntry k v entries) = insertEntry k v (insertEntry k' v' entries) := by
  rcases lt_or_gt_of_ne apart with below | above
  · exact insertEntry_comm_of_lt below v v' entries
  · exact (insertEntry_comm_of_lt above v' v entries).symm

/-! ### Rearranged tables -/

namespace Table

/-- The columns of a table in another order. -/
def rearrange (table : Table) (order : List ℕ) : Table where
  header := table.header.rearrange order
  rows := table.rows.map fun row => row.rearrange order

/-- A column's name has all needles. -/
def named (needles : List Text) (name : Text) : Bool :=
  needles.all fun needle => toAsciiLowercase needle <:+: toAsciiLowercase name

variable {table table' : Table} {row row' : List Text} {needles : List Text}

/-- A cell is looked up among the named ones. -/
theorem cell_eq_find? (long : row.length = table.header.length) :
    table.cell row needles =
      ((table.header.zip row).find? fun entry => named needles entry.1).map fun entry => trim entry.2 := by
  obtain ⟨header, rows⟩ := table
  simp only at long
  rw [cell, column]
  change (do
    let i ← header.findIdx? (named needles)
    let value ← row[i]?
    some (trim value)) = _
  induction header generalizing row with
  | nil => rfl
  | cons name header ih =>
    cases row with
    | nil => cases long
    | cons value row =>
      rw [List.findIdx?_cons, List.zip_cons_cons, List.find?_cons]
      cases named needles name with
      | true => rfl
      | false =>
        refine Eq.trans ?_ (ih (Nat.succ.inj long))
        cases header.findIdx? (named needles) <;> rfl

theorem cell_eq_of_perm (nodup : table.header.Nodup) (long : row.length = table.header.length)
    (long' : row'.length = table'.header.length) (perm : (table.header.zip row).Perm (table'.header.zip row'))
    (same : table'.header.find? (named needles) = table.header.find? (named needles)) :
    table'.cell row' needles = table.cell row needles := by
  have keys : (table.header.zip row).map Prod.fst = table.header := List.map_fst_zip (Nat.le_of_eq long.symm)
  have keys' : (table'.header.zip row').map Prod.fst = table'.header := List.map_fst_zip (Nat.le_of_eq long'.symm)
  rw [cell_eq_find? long, cell_eq_find? long', perm.find?_comp_key (by rwa [keys]) (by rw [keys, keys', same])]

theorem rowMap_eq_of_perm (nodup : table.header.Nodup) (long : row.length = table.header.length)
    (perm : (table.header.zip row).Perm (table'.header.zip row')) : table'.rowMap row' = table.rowMap row := by
  have keys : (table.header.zip row).map Prod.fst = table.header := List.map_fst_zip (Nat.le_of_eq long.symm)
  rw [← keys] at nodup
  refine (perm.foldl_eq' (fun first here second there entries => ?_) []).symm
  by_cases apart : first.1 = second.1
  · rw [List.inj_on_of_nodup_map nodup here there apart]
  · exact insertEntry_comm apart first.2 second.2 entries

end Table

/-! ### Lookups of a candidate -/

/-- The lookups for one side of a disaggregated row. -/
def sideLookups (side : Text) : List (List Text) :=
  ["tp", "pp", "dp", "moe_ep", "parallel", "workers"].map fun key => [side, key.toList]

/-- The lookups behind a candidate. -/
def lookups (mode : DeploymentMode) : List (List Text) :=
  (match mode with
    | .disagg => sideLookups "(p)".toList ++ sideLookups "(d)".toList
    | .agg => [["parallel".toList], ["replicas".toList], ["workers".toList]]) ++
  [["num_total_gpus".toList], ["total".toList, "gpus".toList], ["seq/s".toList], ["tokens/s/gpu".toList],
    ["ttft".toList], ["tpot".toList], ["concurrency".toList]]

/-- A candidate is made of the cells that are looked up, and of the named cells. -/
theorem candidateOf_congr (profile : Profile) (mode : DeploymentMode) (source : Text) {table table' : Table}
    {row row' : List Text} (cells : ∀ needles ∈ lookups mode, table'.cell row' needles = table.cell row needles)
    (raw : table'.rowMap row' = table.rowMap row) :
    candidateOf table' row' profile mode source = candidateOf table row profile mode source := by
  have numbers : ∀ needles ∈ lookups mode, table'.number row' needles = table.number row needles :=
    fun needles listed => by rw [Table.number, Table.number, cells needles listed]
  cases mode with
  | disagg =>
    simp only [lookups, sideLookups, List.map_cons, List.map_nil, List.cons_append, List.nil_append,
      List.forall_mem_cons, List.not_mem_nil, false_imp_iff, implies_true, and_true] at cells numbers
    simp only [candidateOf, sides, spec, degree, parsedLabel, numbers, cells, raw]
  | agg =>
    simp only [lookups, List.cons_append, List.nil_append, List.forall_mem_cons, List.not_mem_nil, false_imp_iff,
      implies_true, and_true] at cells numbers
    simp only [candidateOf, sides, replicas, parsedLabel, numbers, cells, raw]

/-! ### Documented columns -/

/-- The columns of a disaggregated table. -/
def disaggColumns : List Text :=
  ["model", "isl", "osl", "prefix", "concurrency", "request_rate", "(p)bs", "(p)global_bs", "(p)workers", "(d)bs",
    "(d)global_bs", "(d)workers", "ttft", "tpot", "request_latency", "seq/s", "seq/s/gpu", "tokens/s", "tokens/s/gpu",
    "tokens/s/user", "(p)seq/s/worker", "(d)seq/s/worker", "num_total_gpus", "(p)tp", "(p)pp", "(p)dp", "(p)moe_tp",
    "(p)moe_ep", "(p)parallel", "(d)tp", "(d)pp", "(d)dp", "(d)moe_tp", "(d)moe_ep", "(d)parallel"].map String.toList

/-- The columns of an aggregated table. -/
def aggColumns : List Text :=
  ["model", "isl", "osl", "prefix", "concurrency", "request_rate", "bs", "global_bs", "ttft", "tpot", "request_latency",
    "seq/s", "seq/s/gpu", "tokens/s", "tokens/s/gpu", "tokens/s/user", "num_total_gpus", "tp", "pp", "dp", "moe_tp",
    "moe_ep", "parallel"].map String.toList

/-- The documented columns of a mode. -/
def columnsOf : DeploymentMode → List Text
  | .disagg => disaggColumns
  | .agg => aggColumns

/-- All documented columns. -/
def documentedColumns : List Text := disaggColumns ∪ aggColumns

/-- A header with the documented columns of a mode, each once, and any of the others. -/
structure DocumentedHeader (mode : DeploymentMode) (header : List Text) : Prop where
  nodup : header.Nodup
  complete : ∀ name ∈ columnsOf mode, name ∈ header
  documented : ∀ name ∈ header, name ∈ documentedColumns

/-- The columns that the degree of a side may be read from. -/
def degreeFamily (side : Text) : List Text := [side ++ "tp".toList, side ++ "moe_tp".toList]

/-- Those that the request rate may be read from. -/
def rateFamily : List Text := ["seq/s", "seq/s/gpu", "(p)seq/s/worker", "(d)seq/s/worker"].map String.toList

/-- Those that the layout of an aggregated row may be read from. -/
def layoutFamily : List Text := ["parallel", "(p)parallel", "(d)parallel"].map String.toList

/-- Those that its worker count may be read from. -/
def workersFamily : List Text := ["(p)workers", "(d)workers"].map String.toList

/-- The families of documented columns that one lookup matches. -/
def families : DeploymentMode → List (List Text)
  | .disagg => [degreeFamily "(p)".toList, degreeFamily "(d)".toList, rateFamily]
  | .agg => [layoutFamily, workersFamily, rateFamily]

/-- The first column of every family is the same. -/
def SameFirsts (mode : DeploymentMode) (header header' : List Text) : Prop :=
  ∀ family ∈ families mode, header'.find? (· ∈ family) = header.find? (· ∈ family)

/-- The documented columns that each lookup matches. -/
def matching : List (List Text × List Text) :=
  (["(p)".toList, "(d)".toList].flatMap fun side =>
    ([side, "tp".toList], degreeFamily side) ::
      ["pp", "dp", "moe_ep", "parallel", "workers"].map fun key => ([side, key.toList], [side ++ key.toList])) ++
  [(["parallel".toList], layoutFamily), (["replicas".toList], []), (["workers".toList], workersFamily),
    (["seq/s".toList], rateFamily), (["total".toList, "gpus".toList], ["num_total_gpus".toList])] ++
  ["num_total_gpus", "tokens/s/gpu", "ttft", "tpot", "concurrency"].map fun key => ([key.toList], [key.toList])

theorem named_eq : ∀ entry ∈ matching, ∀ name ∈ documentedColumns,
    Table.named entry.1 name = decide (name ∈ entry.2) := by
  decide +kernel

/-- A lookup matches one documented column at most, or a family. -/
theorem matching_lookups (mode : DeploymentMode) : ∀ needles ∈ lookups mode, ∃ entry ∈ matching, entry.1 = needles ∧
    (entry.2.length ≤ 1 ∨ entry.2 ∈ families mode) := by
  cases mode <;> decide +kernel

variable {mode : DeploymentMode} {header header' : List Text}

theorem DocumentedHeader.of_perm (documented : DocumentedHeader mode header) (perm : header'.Perm header) :
    DocumentedHeader mode header' where
  nodup := perm.nodup_iff.mpr documented.nodup
  complete name listed := perm.mem_iff.mpr (documented.complete name listed)
  documented name member := documented.documented name (perm.mem_iff.mp member)

/-- A lookup takes the first of the columns that it matches. -/
theorem DocumentedHeader.find?_named (documented : DocumentedHeader mode header) {needles names : List Text}
    (entry : (needles, names) ∈ matching) : header.find? (Table.named needles) = header.find? (· ∈ names) :=
  List.find?_congr fun name inside => named_eq _ entry name (documented.documented name inside)

theorem find?_eq_of_sameFirsts (documented : DocumentedHeader mode header) (perm : header'.Perm header)
    (firsts : SameFirsts mode header header') {needles : List Text} (listed : needles ∈ lookups mode) :
    header'.find? (Table.named needles) = header.find? (Table.named needles) := by
  obtain ⟨⟨_, names⟩, entry, rfl, single | family⟩ := matching_lookups mode needles listed
  · rw [documented.find?_named entry, (documented.of_perm perm).find?_named entry]
    refine List.find?_eq_find?_of_perm perm fun a here b there => ?_
    obtain ⟨c, only⟩ : ∃ c, ∀ name ∈ names, name = c := by
      match names, single with
      | [], _ => exact ⟨[], fun _ member => absurd member (List.not_mem_nil)⟩
      | [c], _ => exact ⟨c, fun _ member => List.mem_singleton.mp member⟩
    rw [only a (of_decide_eq_true here.2), only b (of_decide_eq_true there.2)]
  · rw [documented.find?_named entry, (documented.of_perm perm).find?_named entry]
    exact firsts names family

theorem candidateOf_rearrange (profile : Profile) (source : Text) (documented : DocumentedHeader mode header)
    {order : List ℕ} (perm : order.Perm (List.range header.length))
    (firsts : SameFirsts mode header (header.rearrange order)) (rows : List (List Text)) {row : List Text}
    (long : row.length = header.length) :
    candidateOf (Table.rearrange ⟨header, rows⟩ order) (row.rearrange order) profile mode source =
      candidateOf ⟨header, rows⟩ row profile mode source := by
  have names : (header.rearrange order).Perm header := List.rearrange_perm perm
  have cells : (row.rearrange order).Perm row := List.rearrange_perm (long ▸ perm)
  have long' : (row.rearrange order).length = (header.rearrange order).length :=
    cells.length_eq.trans (long.trans names.length_eq.symm)
  have pairs : (header.zip row).Perm ((header.rearrange order).zip (row.rearrange order)) := by
    rw [List.zip_rearrange long.symm]
    exact (List.rearrange_perm (by rwa [List.length_zip, long, Nat.min_self])).symm
  apply candidateOf_congr
  · intro needles listed
    exact Table.cell_eq_of_perm documented.nodup long long' pairs
      (find?_eq_of_sameFirsts documented names firsts listed)
  · exact Table.rowMap_eq_of_perm documented.nodup long pairs

/-! ### A row that tells the columns apart -/

/-- A cell for each column, with different readings within a family. -/
def sample (name : Text) : Text :=
  if name ∈ ["(p)moe_tp", "(d)moe_tp", "(d)workers", "seq/s/gpu"].map String.toList then "2".toList
  else if name = "(p)seq/s/worker".toList then "3".toList
  else if name = "(d)seq/s/worker".toList then "4".toList
  else if name = "parallel".toList then "tp1".toList
  else if name = "(p)parallel".toList then "tp2".toList
  else if name = "(d)parallel".toList then "tp3".toList
  else "1".toList

/-- The number in that cell. -/
def reading (name : Text) : Option Float := Raw.parseFloat ((trim (sample name)).filter (· ≠ ','))

variable {rows rows' : List (List Text)} {needles : List Text}

theorem cell_sample : Table.cell ⟨header, rows⟩ (header.map sample) needles =
    (header.find? (Table.named needles)).map fun name => trim (sample name) := by
  have paired : header.zip (header.map sample) = header.map fun name => (name, sample name) :=
    List.map_prod_left_eq_zip.symm
  rw [Table.cell_eq_find? (List.length_map _), paired, List.find?_map, Option.map_map]
  rfl

theorem number_sample : Table.number ⟨header, rows⟩ (header.map sample) needles =
    (header.find? (Table.named needles)).bind reading := by
  rw [Table.number, cell_sample]
  cases header.find? (Table.named needles) <;> rfl

/-- A lookup with a documented column that it matches finds one. -/
theorem DocumentedHeader.exists_find? (documented : DocumentedHeader mode header) (names : List Text) {name : Text}
    (matched : name ∈ names) (listed : name ∈ columnsOf mode) :
    ∃ first ∈ names, header.find? (· ∈ names) = some first := by
  cases found : header.find? (· ∈ names) with
  | none => exact absurd matched (by simpa using List.find?_eq_none.mp found name (documented.complete name listed))
  | some first => exact ⟨first, by simpa using List.find?_some found, rfl⟩

/-- The degree read from a column. -/
def sampledDegree (name : Text) : Option UInt32 := (reading name).map fun value => max value.toUInt32 1

theorem degree_sample (side key : Text) : degree ⟨header, rows⟩ (header.map sample) side key =
    (header.find? (Table.named [side, key])).bind sampledDegree := by
  rw [degree, number_sample]
  cases header.find? (Table.named [side, key]) <;> rfl

/-- The columns that may hold a degree are told apart by what is read from them, and the other degrees are 1. -/
theorem degree_families : ∀ side ∈ ["(p)".toList, "(d)".toList],
    (([side, "tp".toList], degreeFamily side) ∈ matching ∧ side ++ "tp".toList ∈ columnsOf .disagg) ∧
      (∀ a ∈ degreeFamily side, (sampledDegree a).isSome) ∧
      (∀ a ∈ degreeFamily side, ∀ b ∈ degreeFamily side, sampledDegree a = sampledDegree b → a = b) ∧
      ∀ key ∈ ["pp".toList, "dp".toList, "moe_ep".toList], ([side, key], [side ++ key]) ∈ matching ∧
        side ++ key ∈ columnsOf .disagg ∧ sampledDegree (side ++ key) = some 1 := by decide +kernel

/-- The layout of a side of the row. -/
theorem spec_sample (documented : DocumentedHeader .disagg header) (rows : List (List Text)) (side : Text)
    (listed : side ∈ ["(p)".toList, "(d)".toList]) :
    ∃ tp, (header.find? (· ∈ degreeFamily side)).bind sampledDegree = some tp ∧
      spec ⟨header, rows⟩ (header.map sample) side = some (some ⟨tp, 1, 1, 1⟩) := by
  obtain ⟨⟨entry, column⟩, defined, -, entries⟩ := degree_families side listed
  have one : ∀ key ∈ ["pp".toList, "dp".toList, "moe_ep".toList],
      degree ⟨header, rows⟩ (header.map sample) side key = some 1 := by
    intro key inside
    obtain ⟨entry, column, read⟩ := entries key inside
    obtain ⟨first, single, found⟩ := documented.exists_find? [side ++ key] (.head _) column
    obtain rfl := List.mem_singleton.mp single
    rw [degree_sample, documented.find?_named entry, found, Option.bind_some, read]
  obtain ⟨first, member, found⟩ := documented.exists_find? (degreeFamily side) (.head _) column
  obtain ⟨tp, read⟩ := Option.isSome_iff_exists.mp (defined first member)
  refine ⟨tp, by rw [found, Option.bind_some, read], ?_⟩
  rw [spec, degree_sample, documented.find?_named entry, found, Option.bind_some, read, one "pp".toList (by decide),
    one "dp".toList (by decide), one "moe_ep".toList (by decide)]
  rfl

theorem mul_one_eq (profile : Profile) (a : UInt32) : profile.mul a 1 = some a := by
  have small := a.toNat_lt
  rw [Profile.mul, if_neg (fun overflow => absurd overflow.2 (by rw [UInt32.toNat_one]; omega)), UInt32.mul_one]

theorem layoutGpus_tensor (profile : Profile) (tp : UInt32) :
    layoutGpus profile (some ⟨tp, 1, 1, 1⟩) = some (max tp 1) := by
  rw [layoutGpus, ParallelSpec.gpus]
  change (profile.mul (max tp 1) 1).bind (fun tensor => profile.mul tensor 1) = _
  rw [mul_one_eq, Option.bind_some, mul_one_eq]

/-- The request rate read off the row. -/
theorem rate_sample (documented : DocumentedHeader mode header) :
    Table.number ⟨header, rows⟩ (header.map sample) ["seq/s".toList] =
      (header.find? (· ∈ rateFamily)).bind reading := by
  have entry : (["seq/s".toList], rateFamily) ∈ matching := by decide
  rw [number_sample, documented.find?_named entry]

theorem candidateOf_disagg_sample (documented : DocumentedHeader .disagg header) (rows : List (List Text))
    (profile : Profile) (source : Text) :
    ∃ candidate, candidateOf ⟨header, rows⟩ (header.map sample) profile .disagg source = some candidate ∧
      candidate.prefill.map ParallelSpec.tp = (header.find? (· ∈ degreeFamily "(p)".toList)).bind sampledDegree ∧
      candidate.decode.map ParallelSpec.tp = (header.find? (· ∈ degreeFamily "(d)".toList)).bind sampledDegree ∧
      candidate.predictedSeqS = (header.find? (· ∈ rateFamily)).bind reading := by
  obtain ⟨tp, read, prefill⟩ := spec_sample documented rows "(p)".toList (by decide)
  obtain ⟨tp', read', decode⟩ := spec_sample documented rows "(d)".toList (by decide)
  rw [candidateOf, sides, prefill, decode, read, read']
  simp only [Option.bind_eq_bind, Option.bind_some]
  rw [layoutGpus_tensor, layoutGpus_tensor, rate_sample documented]
  exact ⟨_, rfl, rfl, rfl, rfl⟩

/-- The layout read from a column. -/
def sampledLayout (name : Text) : Option ParallelSpec := (ParallelSpec.parse (trim (sample name))).join

/-- The worker count read from a column. -/
def sampledWorkers (name : Text) : UInt32 := ((reading name).getD 0).toUInt32

theorem rate_family : (∀ a ∈ rateFamily, (reading a).isSome) ∧
    ∀ a ∈ rateFamily, ∀ b ∈ rateFamily, reading a = reading b → a = b := by decide +kernel

/-- So are the columns that may hold the layout or the worker count of an aggregated row. -/
theorem agg_families : (∀ name ∈ layoutFamily, ∃ tp ∈ [1, 2, 3],
      ParallelSpec.parse (trim (sample name)) = some (some ⟨tp, 1, 1, 1⟩)) ∧
    (∀ a ∈ layoutFamily, (sampledLayout a).isSome) ∧
    (∀ a ∈ layoutFamily, ∀ b ∈ layoutFamily, sampledLayout a = sampledLayout b → a = b) ∧
    (∀ a ∈ workersFamily, (reading a).isSome) ∧
    ∀ a ∈ workersFamily, ∀ b ∈ workersFamily, some (sampledWorkers a) = some (sampledWorkers b) → a = b := by
  decide +kernel

theorem candidateOf_agg_sample (documented : DocumentedHeader .agg header) (rows : List (List Text))
    (profile : Profile) (source : Text) :
    ∃ candidate, candidateOf ⟨header, rows⟩ (header.map sample) profile .agg source = some candidate ∧
      candidate.prefill = (header.find? (· ∈ layoutFamily)).bind sampledLayout ∧
      (∀ first, header.find? (· ∈ workersFamily) = some first → candidate.prefillWorkers = sampledWorkers first) ∧
      candidate.predictedSeqS = (header.find? (· ∈ rateFamily)).bind reading := by
  obtain ⟨layouts, -, -, counts, -⟩ := agg_families
  have entry : (["parallel".toList], layoutFamily) ∈ matching := by decide
  obtain ⟨first, member, found⟩ := documented.exists_find? layoutFamily (.head _) (by decide)
  obtain ⟨tp, -, parsed⟩ := layouts first member
  have layout : parsedLabel ⟨header, rows⟩ (header.map sample) ["parallel".toList] = some (some ⟨tp, 1, 1, 1⟩) := by
    rw [parsedLabel, cell_sample, documented.find?_named entry, found, Option.map_some]
    exact parsed
  rw [candidateOf, sides, layout]
  simp only [Option.bind_eq_bind, Option.bind_some]
  simp only [layoutGpus_tensor, Option.bind_some]
  rw [rate_sample documented]
  refine ⟨_, rfl, ?_, ?_, rfl⟩
  · rw [found, Option.bind_some, sampledLayout, parsed]
    rfl
  · intro first found
    have nothing : (["replicas".toList], []) ∈ matching := by decide
    have none : header.find? (Table.named ["replicas".toList]) = none := by
      rw [documented.find?_named nothing]
      exact List.find?_eq_none.mpr fun name _ => by simp
    have workers : (["workers".toList], workersFamily) ∈ matching := by decide
    obtain ⟨count, read⟩ := Option.isSome_iff_exists.mp (counts first (by simpa using List.find?_some found))
    simp only [replicas, number_sample, none, documented.find?_named workers, found, Option.bind_some, Option.bind_none,
      read, sampledWorkers]
    rfl

/-! ### Which orders are without effect -/

/-- Columns with different readings are told apart by what is read. -/
theorem find?_eq_of_bind {β : Type*} {family : List Text} {f : Text → Option β}
    (readable : ∀ a ∈ family, (f a).isSome) (apart : ∀ a ∈ family, ∀ b ∈ family, f a = f b → a = b)
    (same : (header'.find? (· ∈ family)).bind f = (header.find? (· ∈ family)).bind f) :
    header'.find? (· ∈ family) = header.find? (· ∈ family) := by
  have member : ∀ {names : List Text} {first : Text}, names.find? (· ∈ family) = some first → first ∈ family :=
    fun found => by simpa using List.find?_some found
  cases found' : header'.find? (· ∈ family) with
  | none =>
    cases found : header.find? (· ∈ family) with
    | none => rfl
    | some b =>
      have some := readable b (member found)
      rw [found', found, Option.bind_none, Option.bind_some] at same
      rw [← same] at some
      cases some
  | some a =>
    cases found : header.find? (· ∈ family) with
    | none =>
      have some := readable a (member found')
      rw [found', found, Option.bind_none, Option.bind_some] at same
      rw [same] at some
      cases some
    | some b =>
      rw [found', found, Option.bind_some, Option.bind_some] at same
      rw [apart a (member found') b (member found) same]

theorem sameFirsts_disagg (profile : Profile) (source : Text) (documented : DocumentedHeader .disagg header)
    (documented' : DocumentedHeader .disagg header')
    (same : candidateOf ⟨header', rows'⟩ (header'.map sample) profile .disagg source =
      candidateOf ⟨header, rows⟩ (header.map sample) profile .disagg source) : SameFirsts .disagg header header' := by
  obtain ⟨c, made, prefill, decode, rate⟩ := candidateOf_disagg_sample documented rows profile source
  obtain ⟨c', made', prefill', decode', rate'⟩ := candidateOf_disagg_sample documented' rows' profile source
  rw [made, made', Option.some.injEq] at same
  rw [same] at prefill' decode' rate'
  intro family listed
  simp only [families, List.mem_cons, List.not_mem_nil, or_false] at listed
  rcases listed with rfl | rfl | rfl
  · obtain ⟨-, readable, apart, -⟩ := degree_families "(p)".toList (by decide)
    exact find?_eq_of_bind readable apart (prefill'.symm.trans prefill)
  · obtain ⟨-, readable, apart, -⟩ := degree_families "(d)".toList (by decide)
    exact find?_eq_of_bind readable apart (decode'.symm.trans decode)
  · exact find?_eq_of_bind rate_family.1 rate_family.2 (rate'.symm.trans rate)

theorem sameFirsts_agg (profile : Profile) (source : Text) (documented : DocumentedHeader .agg header)
    (documented' : DocumentedHeader .agg header') (perm : header'.Perm header)
    (same : candidateOf ⟨header', rows'⟩ (header'.map sample) profile .agg source =
      candidateOf ⟨header, rows⟩ (header.map sample) profile .agg source) : SameFirsts .agg header header' := by
  obtain ⟨c, made, layout, workers, rate⟩ := candidateOf_agg_sample documented rows profile source
  obtain ⟨c', made', layout', workers', rate'⟩ := candidateOf_agg_sample documented' rows' profile source
  rw [made, made', Option.some.injEq] at same
  rw [same] at layout' workers' rate'
  obtain ⟨-, readable, apart, -, counted⟩ := agg_families
  intro family listed
  simp only [families, List.mem_cons, List.not_mem_nil, or_false] at listed
  rcases listed with rfl | rfl | rfl
  · exact find?_eq_of_bind readable apart (layout'.symm.trans layout)
  · refine find?_eq_of_bind (f := fun name => some (sampledWorkers name)) (fun _ _ => rfl) counted ?_
    cases found : header.find? (· ∈ workersFamily) with
    | none =>
      have none : header'.find? (· ∈ workersFamily) = none :=
        List.find?_eq_none.mpr fun name inside => List.find?_eq_none.mp found name (perm.mem_iff.mp inside)
      rw [none]
    | some first =>
      cases found' : header'.find? (· ∈ workersFamily) with
      | none =>
        have absent := List.find?_eq_none.mp found' first (perm.mem_iff.mpr (List.mem_of_find?_eq_some found))
        exact absurd (List.find?_some found) absent
      | some first' =>
        rw [Option.bind_some, Option.bind_some, ← workers first found, ← workers' first' found']
  · exact find?_eq_of_bind rate_family.1 rate_family.2 (rate'.symm.trans rate)

/-- The candidates of every table with a header are those of the rearranged table. -/
def OrderFree (profile : Profile) (mode : DeploymentMode) (source : Text) (header : List Text)
    (order : List ℕ) : Prop :=
  ∀ rows : List (List Text), (∀ row ∈ rows, row.length = header.length) →
    candidatesFromTable profile (Table.rearrange ⟨header, rows⟩ order) mode source =
      candidatesFromTable profile ⟨header, rows⟩ mode source

theorem OrderFree.sameFirsts {profile : Profile} {source : Text} {order : List ℕ}
    (free : OrderFree profile mode source header order) (documented : DocumentedHeader mode header)
    (perm : order.Perm (List.range header.length)) : SameFirsts mode header (header.rearrange order) := by
  have names : (header.rearrange order).Perm header := List.rearrange_perm perm
  have single := free [header.map sample] (by simp)
  simp only [candidatesFromTable, Table.rearrange, List.map_cons, List.map_nil, ← List.map_rearrange,
    List.mapM_singleton] at single
  have equal := Option.map_injective List.singleton_injective single
  cases mode with
  | disagg => exact sameFirsts_disagg profile source documented (documented.of_perm names) equal
  | agg => exact sameFirsts_agg profile source documented (documented.of_perm names) names equal

theorem SameFirsts.orderFree {order : List ℕ} (firsts : SameFirsts mode header (header.rearrange order))
    (documented : DocumentedHeader mode header) (perm : order.Perm (List.range header.length)) (profile : Profile)
    (source : Text) : OrderFree profile mode source header order := by
  intro rows long
  rw [candidatesFromTable, candidatesFromTable, Table.rearrange, List.mapM_map]
  refine List.mapM_congr_mem fun row member => ?_
  exact candidateOf_rearrange profile source documented perm firsts rows (long row member)

/-- An order of the columns is without effect on the candidates of every table exactly when it keeps the first column of
each family. -/
theorem candidatesFromTable_rearrange_iff (profile : Profile) (mode : DeploymentMode) (source : Text)
    (header : List Text) (documented : DocumentedHeader mode header) (order : List ℕ)
    (perm : order.Perm (List.range header.length)) :
    OrderFree profile mode source header order ↔ SameFirsts mode header (header.rearrange order) :=
  ⟨fun free => free.sameFirsts documented perm, fun firsts => firsts.orderFree documented perm profile source⟩

theorem disaggColumns_documented : DocumentedHeader .disagg disaggColumns where
  nodup := by decide +kernel
  complete _ listed := listed
  documented _ member := List.mem_union_iff.mpr (.inl member)

/-- The model column moved behind all others. -/
theorem orderFree_model_last :
    OrderFree .debug .disagg [] disaggColumns (List.range' 1 34 ++ [0]) ↔
      SameFirsts .disagg disaggColumns (disaggColumns.rearrange (List.range' 1 34 ++ [0])) :=
  candidatesFromTable_rearrange_iff .debug .disagg [] disaggColumns disaggColumns_documented (List.range' 1 34 ++ [0])
    (by decide)

/-- The columns `(p)tp` and `(p)moe_tp` exchanged. -/
def expertFirst : List ℕ := List.range 23 ++ [26, 24, 25, 23] ++ List.range' 27 8

/-- With the expert column in front, its degree is taken for the tensor degree. -/
theorem not_orderFree_expert_first :
    ¬∀ (profile : Profile) (mode : DeploymentMode) (source : Text) (header : List Text), DocumentedHeader mode header →
      ∀ order : List ℕ, order.Perm (List.range header.length) → OrderFree profile mode source header order := by
  intro free
  have perm : expertFirst.Perm (List.range disaggColumns.length) := by decide
  have same := free .debug .disagg [] disaggColumns disaggColumns_documented _ perm
  have kept := same.sameFirsts disaggColumns_documented perm (degreeFamily "(p)".toList) (.head _)
  revert kept
  decide +kernel

end TrtLlm.Tuner
