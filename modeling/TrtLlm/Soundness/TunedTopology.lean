import TrtLlm.Model.Tuner.Plan
import TrtLlm.ToMathlib.OptionMapM

/-! # Whether a scored topology fits

A release build multiplies degrees and worker counts modulo `2^32`, and checks the wrapped sum against the GPUs it has.
The rows of a plan describe topologies that fit exactly where nothing wrapped.
-/

namespace TrtLlm.Tuner

open Raw (Profile)

/-- The product of the degrees in unbounded arithmetic. -/
def ParallelSpec.unboundedGpus (layout : ParallelSpec) : ℕ := layout.tp.toNat * layout.pp.toNat * layout.dp.toNat

namespace ParallelSpec

variable {layout : ParallelSpec}

/-- Every degree counts and their product fits a `u32`. -/
structure Unwrapped (layout : ParallelSpec) : Prop where
  tp : 1 ≤ layout.tp.toNat
  pp : 1 ≤ layout.pp.toNat
  dp : 1 ≤ layout.dp.toNat
  product : layout.unboundedGpus < 2 ^ 32

theorem gpus_release : layout.gpus .release = some (max layout.tp 1 * max layout.pp 1 * max layout.dp 1) := by
  simp [gpus]

theorem ne_zero_of_le {a : UInt32} (le : 1 ≤ a.toNat) : a ≠ 0 := by
  rintro rfl
  exact absurd le (by decide)

/-- A layout that does not wrap occupies the product of its degrees. -/
theorem toNat_gpus_of_unwrapped (unwrapped : layout.Unwrapped) :
    (max layout.tp 1 * max layout.pp 1 * max layout.dp 1).toNat = layout.unboundedGpus := by
  obtain ⟨tp, pp, dp, product⟩ := unwrapped
  unfold unboundedGpus at product ⊢
  have two : layout.tp.toNat * layout.pp.toNat < 2 ^ 32 :=
    Nat.lt_of_le_of_lt (Nat.le_mul_of_pos_right _ dp) product
  rw [Raw.max_one (ne_zero_of_le tp), Raw.max_one (ne_zero_of_le pp), Raw.max_one (ne_zero_of_le dp),
    Raw.toNat_mul_of_lt, Raw.toNat_mul_of_lt two]
  rwa [Raw.toNat_mul_of_lt two]

/-- A worker that occupies some GPUs, and as many as the product says, has a layout that does not wrap. -/
theorem unwrapped_of_toNat {gpus : UInt32} (some_gpus : gpus ≠ 0) (exact_gpus : gpus.toNat = layout.unboundedGpus) :
    layout.Unwrapped := by
  have pos : layout.unboundedGpus ≠ 0 := fun zero => some_gpus (UInt32.toNat.inj (exact_gpus.trans zero))
  unfold unboundedGpus at pos
  rw [Nat.mul_ne_zero_iff, Nat.mul_ne_zero_iff] at pos
  exact ⟨by omega, by omega, by omega, exact_gpus ▸ gpus.toNat_lt⟩

end ParallelSpec

/-! ### Parsed candidates -/

/-- The GPUs a candidate counts for a worker are those of its layout. -/
structure AicCandidate.Counted (candidate : AicCandidate) : Prop where
  prefill : layoutGpus .release candidate.prefill = some candidate.prefillGpusPerWorker
  decode : layoutGpus .release candidate.decode = some candidate.decodeGpusPerWorker

theorem counted_of_candidateOf {table : Table} {row : List Text} {mode : DeploymentMode} {source : Text}
    {candidate : AicCandidate} (read : candidateOf table row .release mode source = some candidate) :
    candidate.Counted := by
  obtain ⟨⟨prefill, decode, prefillWorkers, decodeWorkers⟩, -, read⟩ := Option.bind_eq_some_iff.1 read
  obtain ⟨prefillGpus, prefill_eq, read⟩ := Option.bind_eq_some_iff.1 read
  obtain ⟨decodeGpus, decode_eq, read⟩ := Option.bind_eq_some_iff.1 read
  obtain rfl := Option.some.inj read
  exact ⟨prefill_eq, decode_eq⟩

theorem counted_of_candidatesFromTable {table : Table} {mode : DeploymentMode} {source : Text}
    {candidates : List AicCandidate} {candidate : AicCandidate}
    (read : candidatesFromTable .release table mode source = some candidates) (mem : candidate ∈ candidates) :
    candidate.Counted := by
  obtain ⟨row, -, read⟩ := List.exists_of_mem_mapM read mem
  exact counted_of_candidateOf read

/-! ### Plans -/

/-- A row is what the plan makes of a candidate whose configuration is valid. -/
structure Scored (evaluate : Raw.Config → Option GoodputReport) (base : Raw.Config) (candidate : AicCandidate)
    (row : TuningRow) : Prop where
  applied : candidate.applyTo base = some row.config
  valid : row.config.validate .release = some (.ok ())
  scored : TuningPlan.row .release evaluate candidate row.config = some row

section Plan

variable {evaluate : Raw.Config → Option GoodputReport} {base : Raw.Config} {plan plan' : TuningPlan}
  {candidate : AicCandidate} {candidates : List AicCandidate} {row : TuningRow}

theorem config_of_row {profile : Profile} {cfg : Raw.Config}
    (scores : TuningPlan.row profile evaluate candidate cfg = some row) : row.config = cfg := by
  obtain ⟨crossCheck, -, scores⟩ := Option.bind_eq_some_iff.1 scores
  obtain ⟨score, -, scores⟩ := Option.bind_eq_some_iff.1 scores
  obtain rfl := Option.some.inj scores
  rfl

/-- One candidate adds its row, if it has one. -/
theorem mem_rows_visit (visited : plan.visit .release evaluate base candidate = some plan') :
    row ∈ plan'.rows ↔ row ∈ plan.rows ∨ Scored evaluate base candidate row := by
  rw [TuningPlan.visit] at visited
  split at visited
  next unapplied =>
    obtain rfl := Option.some.inj visited
    refine (or_iff_left ?_).symm
    rintro ⟨applied, -, -⟩
    simp [unapplied] at applied
  next cfg applied =>
    obtain ⟨checked, checks, visited⟩ := Option.bind_eq_some_iff.1 visited
    have config (scored : Scored evaluate base candidate row) : row.config = cfg :=
      (Option.some.inj (applied.symm.trans scored.applied)).symm
    split at visited
    next e =>
      obtain rfl := Option.some.inj visited
      refine (or_iff_left ?_).symm
      intro scored
      have valid := scored.valid
      rw [config scored, checks] at valid
      simp at valid
    next =>
      obtain ⟨scored, scores, visited⟩ := Option.bind_eq_some_iff.1 visited
      obtain rfl := Option.some.inj visited
      rw [List.mem_append, List.mem_singleton]
      refine or_congr Iff.rfl ⟨?_, fun other => ?_⟩
      · rintro rfl
        have same : row.config = cfg := config_of_row scores
        exact ⟨same ▸ applied, same ▸ checks, same ▸ scores⟩
      · have again := other.scored
        rw [config other, scores] at again
        exact (Option.some.inj again).symm

theorem mem_rows_foldlM (visited : candidates.foldlM (TuningPlan.visit .release evaluate base) plan = some plan') :
    row ∈ plan'.rows ↔ row ∈ plan.rows ∨ ∃ candidate ∈ candidates, Scored evaluate base candidate row := by
  induction candidates generalizing plan with
  | nil =>
    obtain rfl : plan = plan' := by simpa using visited
    simp
  | cons candidate candidates ih =>
    rw [List.foldlM_cons] at visited
    obtain ⟨next, first, rest⟩ := Option.bind_eq_some_iff.1 visited
    rw [ih rest, mem_rows_visit first, or_assoc, List.exists_mem_cons_iff]

/-- The rows of a plan are those of its candidates. -/
theorem mem_rows_evaluateWith (planned : TuningPlan.evaluateWith .release evaluate base candidates = some plan) :
    row ∈ plan.rows ↔ ∃ candidate ∈ candidates, Scored evaluate base candidate row := by
  obtain ⟨unsorted, visited, sorts⟩ := Option.bind_eq_some_iff.1 planned
  obtain rfl := Option.some.inj sorts
  rw [List.mem_insertionSort, mem_rows_foldlM visited]
  simp

end Plan

/-! ### Topologies -/

/-- The topology of a candidate fits its GPUs, and its workers occupy what their layouts say, in unbounded arithmetic. -/
structure Fits (candidate : AicCandidate) (topology : Raw.TopologyConfig) : Prop where
  total : topology.prefillWorkers.toNat * topology.prefillTp.toNat +
    topology.decodeWorkers.toNat * topology.decodeTp.toNat ≤ topology.totalGpus.toNat
  prefill : ∃ layout, candidate.prefill = some layout ∧ topology.prefillTp.toNat = layout.unboundedGpus
  decode : ∃ layout, candidate.decode = some layout ∧ topology.decodeTp.toNat = layout.unboundedGpus

/-- Nothing the candidate is multiplied into wraps. -/
structure AicCandidate.Unwrapped (candidate : AicCandidate) : Prop where
  prefill : ∀ layout ∈ candidate.prefill, layout.Unwrapped
  decode : ∀ layout ∈ candidate.decode, layout.Unwrapped
  total : candidate.prefillWorkers.toNat * candidate.prefill.elim 0 ParallelSpec.unboundedGpus +
    candidate.decodeWorkers.toNat * candidate.decode.elim 0 ParallelSpec.unboundedGpus < 2 ^ 32

/-- On one side: the count of a worker's GPUs is the product exactly if the layout does not wrap. -/
theorem side_iff {layout? : Option ParallelSpec} {gpus : UInt32} (counted : layoutGpus .release layout? = some gpus)
    (some_gpus : gpus ≠ 0) :
    (∃ layout, layout? = some layout ∧ gpus.toNat = layout.unboundedGpus) ↔
      ∀ layout ∈ layout?, layout.Unwrapped := by
  cases layout? with
  | none => exact absurd (Option.some.inj counted).symm some_gpus
  | some layout =>
    obtain rfl : _ = gpus := Option.some.inj (ParallelSpec.gpus_release.symm.trans counted)
    constructor
    · rintro ⟨_, same, exact_gpus⟩ _ ⟨⟩
      obtain rfl := Option.some.inj same
      exact ParallelSpec.unwrapped_of_toNat some_gpus exact_gpus
    · intro unwrapped
      exact ⟨layout, rfl, ParallelSpec.toNat_gpus_of_unwrapped (unwrapped layout rfl)⟩

/-- Validation compares the wrapped count of GPUs with the total. -/
theorem usedGpus_le_of_validate {cfg : Raw.Config} (valid : cfg.validate .release = some (.ok ())) :
    cfg.topology.prefillWorkers * cfg.topology.prefillTp + cfg.topology.decodeWorkers * cfg.topology.decodeTp ≤
      cfg.topology.totalGpus := by
  rw [Raw.Config.validate] at valid
  split at valid
  · simp at valid
  split at valid
  · simp at valid
  rw [Raw.TopologyConfig.usedGpus, Raw.Profile.mul_release, Raw.Profile.mul_release] at valid
  simp only [Option.bind_eq_bind, Option.bind_some, Raw.Profile.add_release, Option.map_some, Option.some.injEq] at valid
  split at valid
  · simp at valid
  next fits => exact UInt32.not_lt.1 fits

theorem topology_of_applyTo {candidate : AicCandidate} {base cfg : Raw.Config}
    (applied : candidate.applyTo base = some cfg) :
    candidate.prefillGpusPerWorker ≠ 0 ∧ candidate.decodeGpusPerWorker ≠ 0 ∧
      cfg.topology.prefillTp = candidate.prefillGpusPerWorker ∧
      cfg.topology.decodeTp = candidate.decodeGpusPerWorker ∧
      cfg.topology.prefillWorkers = candidate.prefillWorkers ∧
      cfg.topology.decodeWorkers = candidate.decodeWorkers := by
  rw [AicCandidate.applyTo] at applied
  split at applied
  · simp at applied
  split at applied
  · simp at applied
  next readable =>
    obtain rfl := Option.some.inj applied
    rw [not_or, not_or] at readable
    exact ⟨readable.1, readable.2.1, rfl, rfl, rfl, rfl⟩

/-- A scored topology fits exactly if nothing wrapped on the way. -/
theorem fits_iff_unwrapped {evaluate : Raw.Config → Option GoodputReport} {base : Raw.Config}
    {candidate : AicCandidate} {row : TuningRow} (counted : candidate.Counted)
    (scored : Scored evaluate base candidate row) : Fits candidate row.config.topology ↔ candidate.Unwrapped := by
  obtain ⟨some_prefill, some_decode, prefillTp, decodeTp, prefillWorkers, decodeWorkers⟩ :=
    topology_of_applyTo scored.applied
  have checked := usedGpus_le_of_validate scored.valid
  have prefill := side_iff counted.prefill some_prefill
  have decode := side_iff counted.decode some_decode
  rw [prefillTp, decodeTp, prefillWorkers, decodeWorkers, UInt32.le_iff_toNat_le] at checked
  constructor
  · rintro ⟨total, prefill_exact, decode_exact⟩
    rw [prefillTp] at prefill_exact
    rw [decodeTp] at decode_exact
    refine ⟨prefill.1 prefill_exact, decode.1 decode_exact, ?_⟩
    obtain ⟨layout, layout_eq, prefill_gpus⟩ := prefill_exact
    obtain ⟨layout', layout'_eq, decode_gpus⟩ := decode_exact
    rw [prefillTp, decodeTp, prefillWorkers, decodeWorkers, prefill_gpus, decode_gpus] at total
    rw [layout_eq, layout'_eq]
    exact Nat.lt_of_le_of_lt total (UInt32.toNat_lt _)
  · rintro ⟨prefill_unwrapped, decode_unwrapped, total⟩
    obtain ⟨layout, layout_eq, prefill_gpus⟩ := prefill.2 prefill_unwrapped
    obtain ⟨layout', layout'_eq, decode_gpus⟩ := decode.2 decode_unwrapped
    rw [layout_eq, layout'_eq, Option.elim_some, Option.elim_some, ← prefill_gpus, ← decode_gpus] at total
    refine ⟨?_, ⟨layout, layout_eq, by rw [prefillTp, prefill_gpus]⟩, layout', layout'_eq, by rw [decodeTp, decode_gpus]⟩
    have prefill_total : (candidate.prefillWorkers * candidate.prefillGpusPerWorker).toNat =
        candidate.prefillWorkers.toNat * candidate.prefillGpusPerWorker.toNat := Raw.toNat_mul_of_lt (by omega)
    have decode_total : (candidate.decodeWorkers * candidate.decodeGpusPerWorker).toNat =
        candidate.decodeWorkers.toNat * candidate.decodeGpusPerWorker.toNat := Raw.toNat_mul_of_lt (by omega)
    rw [Raw.toNat_add_of_lt (by rw [prefill_total, decode_total]; exact total), prefill_total, decode_total] at checked
    rwa [prefillTp, decodeTp, prefillWorkers, decodeWorkers]

/-- Every row of a plan comes from a candidate, and describes a topology that fits exactly if nothing wrapped. -/
theorem tuned_topology_fits_iff {evaluate : Raw.Config → Option GoodputReport} {base : Raw.Config}
    {candidates : List AicCandidate} {plan : TuningPlan}
    (parsed : ∀ candidate ∈ candidates, ∃ table mode source read,
      candidatesFromTable .release table mode source = some read ∧ candidate ∈ read)
    (planned : TuningPlan.evaluateWith .release evaluate base candidates = some plan) :
    (∀ row ∈ plan.rows, ∃ candidate ∈ candidates, Scored evaluate base candidate row) ∧
      ∀ candidate ∈ candidates, ∀ row, Scored evaluate base candidate row →
        row ∈ plan.rows ∧ (Fits candidate row.config.topology ↔ candidate.Unwrapped) := by
  refine ⟨fun row mem => (mem_rows_evaluateWith planned).1 mem, fun candidate mem row scored => ?_⟩
  obtain ⟨table, mode, source, read, read_eq, mem_read⟩ := parsed candidate mem
  exact ⟨(mem_rows_evaluateWith planned).2 ⟨candidate, mem, scored⟩,
    fits_iff_unwrapped (counted_of_candidatesFromTable read_eq mem_read) scored⟩

/-- A result row: four prefill workers of two GPUs, one decode worker of eight. -/
def fourPrefillOneDecode : Text :=
  ("(p)workers,(d)workers,num_total_gpus,(p)tp,(p)pp,(p)dp,(d)tp,(d)pp,(d)dp\n" ++ "4,1,16,1,1,2,8,1,1\n").toList

/-- A result row whose prefill degrees multiply to `2 ^ 32 + 2`. -/
def hugeDegree : Text :=
  ("(p)workers,(d)workers,num_total_gpus,(p)tp,(p)pp,(p)dp,(d)tp,(d)pp,(d)dp\n" ++
    "1,1,16,2147483649,2,1,1,1,1\n").toList

/-- The candidates of a CSV text. -/
def readCandidates (csv : Text) : Option (List AicCandidate) :=
  match Table.parse csv with
  | .ok table => candidatesFromTable .release table .disagg "test".toList
  | .error _ => none

theorem parsed_of_readCandidates {csv : Text} {candidates : List AicCandidate}
    (read : readCandidates csv = some candidates) :
    ∀ candidate ∈ candidates, ∃ table mode source read,
      candidatesFromTable .release table mode source = some read ∧ candidate ∈ read := by
  rw [readCandidates] at read
  split at read
  · exact fun candidate mem => ⟨_, _, _, _, read, mem⟩
  · simp at read

/-- Reading one row gives one candidate, with the layouts and the worker counts of the row. -/
theorem exists_candidate {csv : Text} {fields : Option ParallelSpec × Option ParallelSpec × UInt32 × UInt32}
    (read : (readCandidates csv).map (·.map fun candidate =>
      (candidate.prefill, candidate.decode, candidate.prefillWorkers, candidate.decodeWorkers)) = some [fields]) :
    ∃ candidate, readCandidates csv = some [candidate] ∧ candidate.prefill = fields.1 ∧
      candidate.decode = fields.2.1 ∧ candidate.prefillWorkers = fields.2.2.1 ∧
      candidate.decodeWorkers = fields.2.2.2 := by
  obtain ⟨candidates, read_eq, single⟩ := Option.map_eq_some_iff.1 read
  obtain ⟨candidate, rfl, rfl⟩ := List.map_eq_singleton_iff.1 single
  exact ⟨candidate, read_eq, rfl, rfl, rfl, rfl⟩

/-- The plan of a CSV text over the default configuration, with every score zero. -/
def planOf (csv : Text) : Option TuningPlan :=
  (readCandidates csv).bind (TuningPlan.evaluateWith .release (fun _ => some ⟨0⟩) {})

theorem four_prefill_one_decode_fits :
    ∃ candidate plan, readCandidates fourPrefillOneDecode = some [candidate] ∧
      TuningPlan.evaluateWith .release (fun _ => some ⟨0⟩) {} [candidate] = some plan ∧
      plan.rows.length = 1 ∧ ∀ row ∈ plan.rows, Fits candidate row.config.topology := by
  obtain ⟨candidate, read, prefill, decode, prefillWorkers, decodeWorkers⟩ :=
    @exists_candidate fourPrefillOneDecode (some ⟨1, 1, 1, 2⟩, some ⟨8, 1, 1, 1⟩, 4, 1)
      (by decide +kernel)
  have one : (planOf fourPrefillOneDecode).map (·.rows.length) = some 1 := by decide +kernel
  obtain ⟨plan, planned, one⟩ := Option.map_eq_some_iff.1 one
  rw [planOf, read, Option.bind_some] at planned
  have unwrapped : candidate.Unwrapped := by
    refine ⟨?_, ?_, ?_⟩
    · rw [prefill]
      rintro _ ⟨⟩
      exact ⟨by decide, by decide, by decide, by decide⟩
    · rw [decode]
      rintro _ ⟨⟩
      exact ⟨by decide, by decide, by decide, by decide⟩
    · rw [prefill, decode, prefillWorkers, decodeWorkers]
      decide
  obtain ⟨rows, fits⟩ := tuned_topology_fits_iff (parsed_of_readCandidates read) planned
  refine ⟨candidate, plan, read, planned, one, fun row mem => ?_⟩
  obtain ⟨candidate', mem', scored⟩ := rows row mem
  obtain rfl := List.mem_singleton.1 mem'
  exact (fits _ mem' row scored).2.2 unwrapped

/-- A degree above `2 ^ 31` times two wraps to a worker of two GPUs, and the plan scores it. -/
theorem wrapped_degree_is_scored :
    ∃ candidate plan, readCandidates hugeDegree = some [candidate] ∧
      TuningPlan.evaluateWith .release (fun _ => some ⟨0⟩) {} [candidate] = some plan ∧
      ∃ row ∈ plan.rows, Scored (fun _ => some ⟨0⟩) {} candidate row ∧ ¬ Fits candidate row.config.topology := by
  obtain ⟨candidate, read, prefill, -⟩ :=
    @exists_candidate hugeDegree (some ⟨2147483649, 2, 1, 1⟩, some ⟨1, 1, 1, 1⟩, 1, 1)
      (by decide +kernel)
  have one : (planOf hugeDegree).map (·.rows.length) = some 1 := by decide +kernel
  obtain ⟨plan, planned, one⟩ := Option.map_eq_some_iff.1 one
  rw [planOf, read, Option.bind_some] at planned
  obtain ⟨row, rows⟩ := List.length_eq_one_iff.1 one
  have mem : row ∈ plan.rows := by simp [rows]
  obtain ⟨candidate', mem', scored⟩ := (mem_rows_evaluateWith planned).1 mem
  obtain rfl := List.mem_singleton.1 mem'
  refine ⟨_, plan, read, planned, row, mem, scored, fun fits => ?_⟩
  obtain ⟨layout, layout_eq, gpus⟩ := fits.prefill
  obtain rfl := Option.some.inj (prefill.symm.trans layout_eq)
  have bound := row.config.topology.prefillTp.toNat_lt
  rw [gpus] at bound
  exact absurd bound (by decide)

end TrtLlm.Tuner
