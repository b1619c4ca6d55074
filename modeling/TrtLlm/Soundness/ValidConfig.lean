import Mathlib
import TrtLlm.Model.Raw.Simulator
import TrtLlm.ToMathlib.FloatClasses
import TrtLlm.ToMathlib.OptionMapM

/-! # Which validated configurations can be built

`Config::validate` looks at a handful of fields. What the constructors combine the others into can still panic: a clamp
whose bounds cross, an overflow, a rate that is not a number. These are the conditions on the fields under which a
validated configuration is built and evaluated.
-/

namespace TrtLlm.Raw

/-! ### Panics of the float operations -/

theorem isSome_clamp {value low high : Float} : (clamp value low high).isSome ↔ low ≤ high := by
  unfold clamp
  split <;> simp [*]

theorem isSome_partialCmp {a b : Float} : (partialCmp a b).isSome ↔ a.isNaN = false ∧ b.isNaN = false := by
  rw [← Float.comparable_iff]
  unfold partialCmp
  split
  · simp [*]
  split
  · simp [*]
  split <;> simp [*]

/-- The smaller of two floats is a number if one of them is. -/
theorem isNaN_fmin {a b : Float} : (fmin a b).isNaN = false ↔ a.isNaN = false ∨ b.isNaN = false := by
  unfold fmin
  split
  next first => simp only [first, Bool.true_eq_false, false_or]
  next first =>
    rw [Bool.not_eq_true] at first
    split
    next second => exact iff_of_true first (.inl first)
    next second =>
      split
      · exact iff_of_true (Bool.not_eq_true _ ▸ second) (.inl first)
      · exact iff_of_true first (.inl first)

section Sorting

variable {α : Type*} {compare : α → α → Option Ordering} {good : α → Prop}
  (comparable : ∀ x y, (compare x y).isSome ↔ good x ∧ good y)

include comparable

theorem isSome_insertBack {x y : α} {sorted : List α} (y_good : good y) (sorted_good : ∀ z ∈ sorted, good z) :
    (insertBack compare x (y :: sorted)).isSome ↔ good x := by
  induction sorted generalizing y with
  | nil =>
    have compared := comparable x y
    simp only [insertBack]
    split
    next undefined => simpa [undefined, y_good] using compared
    next order => simpa [order, y_good] using compared
    next ordered => simpa [ordered, y_good] using compared
  | cons z sorted ih =>
    have compared := comparable x y
    rw [insertBack]
    split
    next undefined => simpa [undefined, y_good] using compared
    next order =>
      rw [Option.isSome_map, ih (sorted_good z (List.mem_cons_self ..)) fun w mem => sorted_good w (.tail _ mem)]
    next ordered => simpa [ordered, y_good] using compared

omit comparable in
theorem mem_of_insertBack {x z : α} {sorted sorted' : List α} (inserted : insertBack compare x sorted = some sorted')
    (mem : z ∈ sorted') : z = x ∨ z ∈ sorted := by
  induction sorted generalizing sorted' with
  | nil =>
    obtain rfl : [x] = sorted' := by simpa [insertBack] using inserted
    exact .inl (List.mem_singleton.1 mem)
  | cons y sorted ih =>
    rw [insertBack] at inserted
    split at inserted
    · simp at inserted
    · obtain ⟨deeper, found, rfl⟩ := Option.map_eq_some_iff.1 inserted
      rcases List.mem_cons.1 mem with rfl | mem
      · exact .inr (List.mem_cons_self ..)
      · exact (ih found mem).imp_right (.tail _)
    · obtain rfl := Option.some.inj inserted
      exact List.mem_cons.1 mem

omit comparable in
theorem length_of_insertBack {x : α} {sorted sorted' : List α} (inserted : insertBack compare x sorted = some sorted') :
    sorted'.length = sorted.length + 1 := by
  induction sorted generalizing sorted' with
  | nil =>
    obtain rfl : [x] = sorted' := by simpa [insertBack] using inserted
    rfl
  | cons y sorted ih =>
    rw [insertBack] at inserted
    split at inserted
    · simp at inserted
    · obtain ⟨deeper, found, rfl⟩ := Option.map_eq_some_iff.1 inserted
      rw [List.length_cons, List.length_cons, ih found]
    · obtain rfl := Option.some.inj inserted
      rfl

omit comparable in
/-- A sorted slice is as long as it was. -/
theorem length_of_sortBy {items sorted : List α} (sorts : sortBy compare items = some sorted) :
    sorted.length = items.length := by
  obtain ⟨backward, folds, rfl⟩ := Option.map_eq_some_iff.1 sorts
  rw [List.length_reverse]
  suffices lengths : ∀ start, items.foldlM (fun sorted x => insertBack compare x sorted) start = some backward →
      backward.length = start.length + items.length by simpa using lengths [] folds
  clear sorts folds
  induction items with
  | nil =>
    intro start folds
    obtain rfl : start = backward := by simpa using folds
    rfl
  | cons x items ih =>
    intro start folds
    rw [List.foldlM_cons] at folds
    obtain ⟨next, inserted, rest⟩ := Option.bind_eq_some_iff.1 folds
    rw [ih next rest, length_of_insertBack inserted, List.length_cons]
    omega

theorem isSome_foldlM_insertBack {sorted items : List α} (nonempty : sorted ≠ []) (sorted_good : ∀ z ∈ sorted, good z) :
    (items.foldlM (fun sorted x => insertBack compare x sorted) sorted).isSome ↔ ∀ x ∈ items, good x := by
  induction items generalizing sorted with
  | nil => simp
  | cons x items ih =>
    obtain ⟨y, sorted, rfl⟩ := List.exists_cons_of_ne_nil nonempty
    have first := isSome_insertBack comparable (x := x) (sorted_good y (List.mem_cons_self ..))
      fun z mem => sorted_good z (.tail _ mem)
    rw [List.foldlM_cons, List.forall_mem_cons, ← first]
    cases inserted : insertBack compare x (y :: sorted) with
    | none => simp
    | some sorted' =>
      have x_good : good x := first.1 (by rw [inserted]; rfl)
      have kept : ∀ z ∈ sorted', good z := fun z mem =>
        (mem_of_insertBack inserted mem).elim (fun same => same ▸ x_good) (sorted_good z)
      have some_left : sorted' ≠ [] := List.ne_nil_of_length_eq_add_one (length_of_insertBack inserted)
      simpa using ih some_left kept

/-- Sorting compares every item with another, so two items or more have to be good. -/
theorem isSome_sortBy {x y : α} {items : List α} :
    (sortBy compare (x :: y :: items)).isSome ↔ ∀ z ∈ x :: y :: items, good z := by
  have start : insertBack compare x [] = some [x] := rfl
  rw [sortBy, Option.isSome_map, List.foldlM_cons, List.forall_mem_cons, start, Option.bind_eq_bind, Option.bind_some]
  by_cases x_good : good x
  · rw [isSome_foldlM_insertBack comparable (by simp) (by simpa using x_good)]
    exact (and_iff_right x_good).symm
  · have undefined : insertBack compare y [x] = none := by
      have compared := comparable y x
      rw [insertBack]
      split <;> simp_all
    simp [undefined, x_good]

end Sorting

/-- Ranking the rates works exactly on numbers. -/
theorem isSome_rank {prefillReqS decodeReqS transferReqS : Float} :
    (CapacityModel.rank prefillReqS decodeReqS transferReqS).isSome ↔
      prefillReqS.isNaN = false ∧ decodeReqS.isNaN = false ∧ transferReqS.isNaN = false := by
  have sorts := @isSome_sortBy (Bottleneck × Float) (fun a b => partialCmp a.2 b.2) (fun rate => rate.2.isNaN = false)
    (fun a b => isSome_partialCmp) (.prefill, prefillReqS) (.decode, decodeReqS) [(.kvTransfer, transferReqS)]
  rw [CapacityModel.rank, sorts]
  simp

/-! ### The three rates -/

theorem not_isNaN_div {x y : Float} : (x / y).isNaN = false ↔
    x.isNaN = false ∧ y.isNaN = false ∧ ¬ ((x == 0) = true ∧ (y == 0) = true) ∧
      ¬ (x.isInf = true ∧ y.isInf = true) := by
  rw [← Bool.not_eq_true, Float.isNaN_div]
  simp only [not_or, Bool.not_eq_true]

/-- The prefill rate of a pool is a number unless the calibrated rate fails it or the prompts are empty. -/
theorem isNaN_prefill_reqPerS {cal : PrefillCalibration} {gpus tp isl : UInt32} :
    (cal.reqPerS gpus tp isl).isNaN = false ↔
      (cal.tokSPerGpuAtTp tp).isNaN = false ∧ (gpus = 0 → (cal.tokSPerGpuAtTp tp).isInf = false) ∧
        (isl = 0 → gpus ≠ 0 ∧ (cal.tokSPerGpuAtTp tp == 0) = false) := by
  rw [PrefillCalibration.reqPerS, Float.mul_comm, not_isNaN_div, isl.isNaN_toFloat, isl.isInf_toFloat,
    UInt32.toFloat_beq_zero, ← Bool.not_eq_true, Float.isNaN_mul, gpus.isNaN_toFloat, gpus.isInf_toFloat,
    UInt32.toFloat_beq_zero]
  by_cases none : gpus = 0
  · have zero (number : (cal.tokSPerGpuAtTp tp).isNaN = false) (finite : (cal.tokSPerGpuAtTp tp).isInf = false) :=
      Float.mul_zero_beq number finite (UInt32.toFloat_beq_zero.2 none)
    grind
  · rw [Float.mul_beq_zero (UInt32.within_toFloat none)]
    grind

/-- The decode rate at a concurrency is a number unless the slot time or the concurrency fails it. -/
theorem isNaN_div_slotSeconds {cal : DecodeCalibration} {c : Float} {gpus osl : UInt32} {slo : Slo} :
    (c / cal.slotSeconds c gpus osl slo).isNaN = false ↔
      c.isNaN = false ∧ ((cal.itlMs c gpus).isNaN = false ∨ slo.itlMs.isNaN = false) ∧
        (osl = 0 → (fmin (cal.itlMs c gpus) slo.itlMs).isInf = false) ∧
        ¬ ((c == 0) = true ∧ (cal.slotSeconds c gpus osl slo == 0) = true) ∧
        ¬ (c.isInf = true ∧ (cal.slotSeconds c gpus osl slo).isInf = true) := by
  have seconds : (cal.slotSeconds c gpus osl slo).isNaN = false ↔
      ((cal.itlMs c gpus).isNaN = false ∨ slo.itlMs.isNaN = false) ∧
        (osl = 0 → (fmin (cal.itlMs c gpus) slo.itlMs).isInf = false) := by
    have thousand : (1000 : Float).isNaN = false ∧ (1000 : Float).isInf = false ∧ ((1000 : Float) == 0) = false := by
      decide +kernel
    rw [DecodeCalibration.slotSeconds, not_isNaN_div, thousand.1, thousand.2.1, thousand.2.2, ← Bool.not_eq_true,
      ← isNaN_fmin, Float.isNaN_mul, osl.isNaN_toFloat, osl.isInf_toFloat, UInt32.toFloat_beq_zero]
    grind
  rw [not_isNaN_div, seconds]
  grind

theorem isNaN_infinity : infinity.isNaN = false := by decide +kernel

theorem within_thousand : Float.Within 31 1000 := UInt32.within_toFloat (a := 1000) (by decide)

/-- The transfer rate is a number unless the transfer time fails it. -/
theorem isNaN_transferReqS {model : CapacityModel} {decodeWorkers : UInt32} :
    (model.transferReqS decodeWorkers).isNaN = false ↔ decodeWorkers = 0 ∨ model.transferMs.isNaN = false := by
  rw [CapacityModel.transferReqS]
  split
  next free =>
    rw [isNaN_infinity]
    have settled : decodeWorkers = 0 ∨ model.transferMs.isNaN = false :=
      free.symm.imp_right fun le => (Float.comparable_iff.1 (.inr (.inr le))).1
    simpa using settled
  next bound =>
    obtain ⟨-, some_workers⟩ := not_or.1 bound
    have requests := ((UInt32.within_toFloat some_workers).mul
      (UInt32.within_toFloat (max_one_ne_zero model.xferConcurrency)) (by decide)).mul within_thousand (by decide)
    rw [not_isNaN_div, requests.isNaN_eq_false, requests.isInf_eq_false, requests.beq_zero_eq_false]
    simp [some_workers]

theorem within_gib : Float.Within 31 1024 := UInt32.within_toFloat (a := 1024) (by decide)

/-- The transfer time is a number unless the bandwidth fails it. -/
theorem isNaN_transferMs {model : CapacityModel} (moderate : Float.ZeroOrWithin 900 model.kvBytesPerToken) :
    model.transferMs.isNaN = false ↔
      model.kvXferGibS.isNaN = false ∧
        ((model.kvXferGibS == 0) = true → (model.kvBytesPerToken == 0) = false ∧ model.isl ≠ 0) := by
  have isNaN_mul_within {x y : Float} (within : Float.Within 31 y) : (x * y).isNaN = x.isNaN := by
    rw [Bool.eq_iff_iff, Float.isNaN_mul, within.isNaN_eq_false, within.isInf_eq_false, within.beq_zero_eq_false]
    simp
  have bytes := moderate.mul model.isl.zeroOrWithin_toFloat (by decide)
  rw [CapacityModel.transferMs, isNaN_mul_within within_thousand, not_isNaN_div, bytes.isNaN_eq_false,
    bytes.isInf_eq_false, isNaN_mul_within within_gib, isNaN_mul_within within_gib, isNaN_mul_within within_gib,
    Float.mul_beq_zero within_gib, Float.mul_beq_zero within_gib, Float.mul_beq_zero within_gib,
    Float.mul_beq_zero_iff moderate model.isl.zeroOrWithin_toFloat, UInt32.toFloat_beq_zero]
  grind

/-! ### Building -/

/-- Nothing that is built from the configuration panics in a build with overflow checks. -/
structure Config.Builds (cfg : Config) : Prop where
  simulator : (Simulator.new .debug cfg).isSome
  controller : cfg.newController.isSome
  model : ∃ model, cfg.capacityModel .debug = some model ∧ (cfg.evaluateTopology .debug model).isSome

theorem isSome_newController {cfg : Config} : cfg.newController.isSome ↔ 8 ≤ cfg.scheduler.maxDecodeSeqs := by
  have eight : (8 : Float) = (8 : UInt32).toFloat := by decide +kernel
  rw [Config.newController, ItlController.new, Option.isSome_map, isSome_clamp, eight, UInt32.toFloat_le_toFloat]

theorem isSome_newDecodeScheduler {cfg : Config} :
    (cfg.newDecodeScheduler .debug).isSome ↔
      8 ≤ cfg.scheduler.maxDecodeSeqs ∧
        (cfg.engine.speculation.enabled = true → cfg.engine.speculation.draftTokens.toNat + 1 < 2 ^ 32) := by
  rw [← isSome_newController, Config.newDecodeScheduler]
  cases cfg.newController with
  | none => simp
  | some controller =>
    have tokens := @Profile.isSome_add_debug 1 cfg.engine.speculation.draftTokens
    rw [show (1 : UInt32).toNat = 1 from rfl, Nat.add_comm] at tokens
    simp only [Option.bind_eq_bind, Option.bind_some, Option.isSome_some, true_and]
    split
    next enabled =>
      rw [← tokens]
      cases Profile.debug.add 1 cfg.engine.speculation.draftTokens <;> simp [enabled]
    next disabled => simp [disabled]

theorem isSome_decodeState {cfg : Config} {j : ℕ} (bound : j < 2 ^ 32) :
    (Simulator.decodeState .debug cfg j).isSome ↔ j + 1000 < 2 ^ 32 := by
  have id := @Profile.isSome_add_debug decodeIdBase (.ofNat j)
  rw [UInt32.toNat_ofNat_of_lt' bound, show decodeIdBase.toNat = 1000 from rfl, Nat.add_comm] at id
  rw [← id, Simulator.decodeState]
  cases Profile.debug.add decodeIdBase (.ofNat j) <;> simp

/-- The simulator is built if every decode worker gets a scheduler and an id. -/
theorem isSome_new {cfg : Config} (workers : cfg.topology.decodeWorkers ≠ 0) :
    (Simulator.new .debug cfg).isSome ↔
      (cfg.newDecodeScheduler .debug).isSome ∧ cfg.topology.decodeWorkers.toNat + 1000 ≤ 2 ^ 32 := by
  have some_worker : 0 < cfg.topology.decodeWorkers.toNat :=
    Nat.pos_of_ne_zero fun zero => workers (UInt32.toNat.inj zero)
  have schedulers : ((List.range cfg.topology.decodeWorkers.toNat).mapM fun _ =>
      Simulator.newDecodeWorker .debug cfg).isSome ↔ (cfg.newDecodeScheduler .debug).isSome := by
    have worker : (Simulator.newDecodeWorker .debug cfg).isSome ↔ (cfg.newDecodeScheduler .debug).isSome := by
      rw [Simulator.newDecodeWorker]
      cases cfg.newDecodeScheduler .debug <;> simp
    rw [List.isSome_mapM_iff, ← worker]
    exact ⟨fun all => all 0 (List.mem_range.2 some_worker), fun one _ _ => one⟩
  have ids : ((List.range cfg.topology.decodeWorkers.toNat).mapM (Simulator.decodeState .debug cfg)).isSome ↔
      cfg.topology.decodeWorkers.toNat + 1000 ≤ 2 ^ 32 := by
    have small := cfg.topology.decodeWorkers.toNat_lt
    rw [List.isSome_mapM_iff]
    constructor
    · intro all
      have last := all _ (List.mem_range.2 (Nat.sub_one_lt_of_lt some_worker))
      rw [isSome_decodeState (by omega)] at last
      omega
    · intro room j mem
      have bound := List.mem_range.1 mem
      rw [isSome_decodeState (by omega)]
      omega
  rw [← schedulers, ← ids, Simulator.new]
  cases (List.range cfg.topology.decodeWorkers.toNat).mapM fun _ => Simulator.newDecodeWorker .debug cfg with
  | none => simp
  | some decode =>
    cases (List.range cfg.topology.decodeWorkers.toNat).mapM (Simulator.decodeState .debug cfg) <;> simp

/-- What a valid configuration brings along: workers on both sides, and counts of GPUs that did not overflow. -/
theorem of_validate {cfg : Config} (valid : cfg.validate .debug = some (.ok ())) :
    cfg.topology.prefillWorkers ≠ 0 ∧ cfg.topology.decodeWorkers ≠ 0 ∧
      (∃ gpus, Profile.debug.mul cfg.topology.prefillWorkers cfg.topology.prefillTp = some gpus) ∧
      ∃ gpus, Profile.debug.mul cfg.topology.decodeWorkers cfg.topology.decodeTp = some gpus := by
  rw [Config.validate] at valid
  split at valid
  · simp at valid
  split at valid
  · simp at valid
  next workers =>
    obtain ⟨used, counted, -⟩ := Option.map_eq_some_iff.1 valid
    rw [TopologyConfig.usedGpus] at counted
    obtain ⟨prefill, prefill_eq, counted⟩ := Option.bind_eq_some_iff.1 counted
    obtain ⟨decode, decode_eq, -⟩ := Option.bind_eq_some_iff.1 counted
    exact ⟨fun zero => workers (.inl zero), fun zero => workers (.inr zero), ⟨prefill, prefill_eq⟩, decode, decode_eq⟩

/-- Dividing a product of counts by its second factor. -/
theorem checkedDiv_eq {workers tp gpus : UInt32} (product : Profile.debug.mul workers tp = some gpus) :
    checkedDiv gpus tp = if tp = 0 then 0 else workers := by
  unfold checkedDiv
  split
  · rfl
  next some_tp =>
    have pos : 0 < tp.toNat := Nat.pos_of_ne_zero fun zero => some_tp (UInt32.toNat.inj zero)
    apply UInt32.toNat.inj
    rw [UInt32.toNat_div, Profile.toNat_of_mul_debug product, Nat.mul_div_cancel _ pos]

/-- A topology is evaluated if the concurrency can be sized and the three rates are numbers. -/
theorem isSome_evaluate {model : CapacityModel} {prefillGpus decodeGpus prefillTp decodeTp usedGpus : UInt32}
    (used : Profile.debug.mul (checkedDiv prefillGpus prefillTp) prefillTp = some usedGpus) :
    (model.evaluate .debug prefillGpus decodeGpus prefillTp decodeTp).isSome ↔
      (model.prefill.reqPerS usedGpus prefillTp model.isl).isNaN = false ∧
        (∃ c, model.decode.maxConcurrencyForSlo decodeGpus model.slo model.itlSafety = some c ∧
          (c / model.decode.slotSeconds c decodeGpus model.osl model.slo).isNaN = false) ∧
        (model.transferReqS (checkedDiv decodeGpus decodeTp)).isNaN = false := by
  rw [CapacityModel.evaluate, DecodeCalibration.reqPerS]
  simp only [used, Option.bind_eq_bind, Option.bind_some]
  cases sized : model.decode.maxConcurrencyForSlo decodeGpus model.slo model.itlSafety with
  | none => simp
  | some c =>
    have ranks := @isSome_rank (model.prefill.reqPerS usedGpus prefillTp model.isl)
      (c / model.decode.slotSeconds c decodeGpus model.osl model.slo)
      (model.transferReqS (checkedDiv decodeGpus decodeTp))
    simp only [Option.map_some, Option.bind_some, Option.some.injEq, exists_eq_left', ← ranks]
    cases ranked : CapacityModel.rank (model.prefill.reqPerS usedGpus prefillTp model.isl)
        (c / model.decode.slotSeconds c decodeGpus model.osl model.slo)
        (model.transferReqS (checkedDiv decodeGpus decodeTp)) with
    | none => simp
    | some rates =>
      have three : rates.length = 3 := length_of_sortBy ranked
      obtain ⟨first, second, third, rfl⟩ := List.length_eq_three.1 three
      simp

/-! ### The conditions -/

namespace Config

/-- The decode calibration of the capacity model: speculation follows the engine. -/
def decodeModel (cfg : Config) : DecodeCalibration :=
  { cfg.calibration.decode with
    speculation :=
      if cfg.engine.speculation.enabled then
        some { Speculation.eagle3Topk1 with draftTokens := cfg.engine.speculation.draftTokens }
      else none }

/-- The per-GPU prefill rate at the configured degree. -/
def prefillRate (cfg : Config) : Float := cfg.calibration.prefill.tokSPerGpuAtTp cfg.topology.prefillTp

def decodeGpus (cfg : Config) : UInt32 := cfg.topology.decodeWorkers * cfg.topology.decodeTp

/-- The ITL a decode slot is charged at a concurrency. -/
def chargedItlMs (cfg : Config) (c : Float) : Float := fmin (cfg.decodeModel.itlMs c cfg.decodeGpus) cfg.slo.itlMs

/-- The conditions on the fields under which nothing panics. -/
structure Buildable (cfg : Config) : Prop where
  /-- The cap of the controller reaches its fixed minimum. -/
  cap : 8 ≤ cfg.scheduler.maxDecodeSeqs
  /-- A step's token count is one more than the draft. -/
  draft : cfg.engine.speculation.enabled = true → cfg.engine.speculation.draftTokens.toNat + 1 < 2 ^ 32
  /-- Decode workers are numbered from 1000. -/
  ids : cfg.topology.decodeWorkers.toNat + 1000 ≤ 2 ^ 32
  /-- A worker's share of the concurrency, each at the full length. -/
  resident : cfg.workload.concurrency.toNat / cfg.topology.decodeWorkers.toNat * cfg.workload.maxSeqLen.toNat < 2 ^ 32
  /-- The curve is only inverted between one sequence and the ceiling. -/
  sized : cfg.calibration.decode.itlSlopeMs ≤ 0 ∨ 1 ≤ cfg.calibration.decode.ceiling
  /-- The prefill rate is no `NaN`, no `0 * inf` and no `0 / 0`. -/
  prefill : cfg.prefillRate.isNaN = false ∧ (cfg.topology.prefillTp = 0 → cfg.prefillRate.isInf = false) ∧
    (cfg.workload.isl = 0 → cfg.topology.prefillTp ≠ 0 ∧ (cfg.prefillRate == 0) = false)
  /-- At the concurrency that fits the budget, the decode rate is no `NaN`, no `0 / 0` and no `inf / inf`. -/
  decode : ∀ c, cfg.decodeModel.maxConcurrencyForSlo cfg.decodeGpus cfg.slo cfg.scheduler.itlSafety = some c →
    c.isNaN = false ∧
      ((cfg.decodeModel.itlMs c cfg.decodeGpus).isNaN = false ∨ cfg.slo.itlMs.isNaN = false) ∧
      (cfg.workload.osl = 0 → (cfg.chargedItlMs c).isInf = false) ∧
      ¬ ((c == 0) = true ∧
        (cfg.decodeModel.slotSeconds c cfg.decodeGpus cfg.workload.osl cfg.slo == 0) = true) ∧
      ¬ (c.isInf = true ∧ (cfg.decodeModel.slotSeconds c cfg.decodeGpus cfg.workload.osl cfg.slo).isInf = true)
  /-- The bandwidth is a number, and not zero when there is nothing to move. -/
  transfer : cfg.topology.decodeTp = 0 ∨ cfg.calibration.kvXferGibS.isNaN = false ∧
    ((cfg.calibration.kvXferGibS == 0) = true →
      cfg.model.numLayers ≠ 0 ∧ cfg.model.numKvHeads ≠ 0 ∧ cfg.model.headDim ≠ 0 ∧ cfg.workload.isl ≠ 0)

end Config

theorem isSome_maxConcurrencyForSlo {cal : DecodeCalibration} {gpus : UInt32} {slo : Slo} {safety : Float} :
    (cal.maxConcurrencyForSlo gpus slo safety).isSome ↔ cal.itlSlopeMs ≤ 0 ∨ 1 ≤ cal.ceiling := by
  rw [DecodeCalibration.maxConcurrencyForSlo]
  split
  next flat => simp [flat]
  next steep => simp [isSome_clamp, steep]

/-- The GPUs that whole prefill workers use: none if their degree is zero, else all. -/
theorem exists_usedGpus {workers tp gpus : UInt32} (some_workers : workers ≠ 0)
    (product : Profile.debug.mul workers tp = some gpus) :
    ∃ used, Profile.debug.mul (checkedDiv gpus tp) tp = some used ∧ (used = 0 ↔ tp = 0) := by
  rw [checkedDiv_eq product]
  split
  next zero => exact ⟨0, by rw [zero]; rfl, by simp [zero]⟩
  next some_tp =>
    refine ⟨gpus, product, ?_⟩
    rw [← UInt32.toNat_inj, ← UInt32.toNat_inj, Profile.toNat_of_mul_debug product]
    have pos : workers.toNat ≠ 0 := fun zero => some_workers (UInt32.toNat.inj zero)
    simp [pos]

/-- The tokens resident on a worker are counted if its share of the concurrency at the full length fits. -/
theorem isSome_capacityModel {cfg : Config} (workers : cfg.topology.decodeWorkers ≠ 0) :
    (cfg.capacityModel .debug).isSome ↔
      cfg.workload.concurrency.toNat / cfg.topology.decodeWorkers.toNat * cfg.workload.maxSeqLen.toNat < 2 ^ 32 := by
  rw [Config.capacityModel, Option.isSome_map, Profile.isSome_mul_debug, max_one workers, UInt32.toNat_div]

theorem fields_of_capacityModel {profile : Profile} {cfg : Config} {model : CapacityModel}
    (asked : cfg.capacityModel profile = some model) :
    model.isl = cfg.workload.isl ∧ model.osl = cfg.workload.osl ∧ model.slo = cfg.slo ∧
      model.prefill = cfg.calibration.prefill ∧ model.decode = cfg.decodeModel ∧
      model.itlSafety = cfg.scheduler.itlSafety ∧ model.kvXferGibS = cfg.calibration.kvXferGibS ∧
      model.kvBytesPerToken =
        2 * cfg.model.numLayers.toFloat * cfg.model.numKvHeads.toFloat * cfg.model.headDim.toFloat := by
  obtain ⟨resident, -, rfl⟩ := Option.map_eq_some_iff.1 asked
  exact ⟨rfl, rfl, rfl, rfl, rfl, rfl, rfl, rfl⟩

/-- A bytes count of four moderate factors. -/
theorem kvBytesPerToken_moderate (model : ModelConfig) :
    Float.ZeroOrWithin 900 (2 * model.numLayers.toFloat * model.numKvHeads.toFloat * model.headDim.toFloat) ∧
      ((2 * model.numLayers.toFloat * model.numKvHeads.toFloat * model.headDim.toFloat == 0) = true ↔
        model.numLayers = 0 ∨ model.numKvHeads = 0 ∨ model.headDim = 0) := by
  have two : Float.ZeroOrWithin 31 2 := UInt32.zeroOrWithin_toFloat 2
  have layers := two.mul model.numLayers.zeroOrWithin_toFloat (by decide)
  have heads := layers.mul model.numKvHeads.zeroOrWithin_toFloat (by decide)
  have dim := heads.mul model.headDim.zeroOrWithin_toFloat (by decide)
  refine ⟨dim.mono (by decide), ?_⟩
  rw [Float.mul_beq_zero_iff heads model.headDim.zeroOrWithin_toFloat,
    Float.mul_beq_zero_iff layers model.numKvHeads.zeroOrWithin_toFloat,
    Float.mul_beq_zero_iff two model.numLayers.zeroOrWithin_toFloat, UInt32.toFloat_beq_zero,
    UInt32.toFloat_beq_zero, UInt32.toFloat_beq_zero]
  have some_two : ((2 : Float) == 0) = false := by decide +kernel
  simp [some_two, or_assoc]

/-- The topology of a valid configuration is evaluated under the conditions on sizing and on the three rates. -/
theorem isSome_evaluateTopology {cfg : Config} (valid : cfg.validate .debug = some (.ok ())) {model : CapacityModel}
    (asked : cfg.capacityModel .debug = some model) :
    (cfg.evaluateTopology .debug model).isSome ↔
      (cfg.prefillRate.isNaN = false ∧ (cfg.topology.prefillTp = 0 → cfg.prefillRate.isInf = false) ∧
        (cfg.workload.isl = 0 → cfg.topology.prefillTp ≠ 0 ∧ (cfg.prefillRate == 0) = false)) ∧
      (∃ c, cfg.decodeModel.maxConcurrencyForSlo cfg.decodeGpus cfg.slo cfg.scheduler.itlSafety = some c ∧
        (c / cfg.decodeModel.slotSeconds c cfg.decodeGpus cfg.workload.osl cfg.slo).isNaN = false) ∧
      (cfg.topology.decodeTp = 0 ∨ cfg.calibration.kvXferGibS.isNaN = false ∧
        ((cfg.calibration.kvXferGibS == 0) = true →
          cfg.model.numLayers ≠ 0 ∧ cfg.model.numKvHeads ≠ 0 ∧ cfg.model.headDim ≠ 0 ∧ cfg.workload.isl ≠ 0)) := by
  obtain ⟨prefillWorkers, decodeWorkers, ⟨prefillGpus, prefill⟩, decodeGpus, decode⟩ := of_validate valid
  obtain ⟨used, used_eq, used_zero⟩ := exists_usedGpus prefillWorkers prefill
  have gpus : decodeGpus = cfg.decodeGpus := by
    simp only [Profile.mul, true_and, Option.ite_none_left_eq_some, Option.some.injEq] at decode
    exact decode.2.symm
  have idle : (if cfg.topology.decodeTp = 0 then 0 else cfg.topology.decodeWorkers) = 0 ↔ cfg.topology.decodeTp = 0 := by
    split <;> simp [*]
  obtain ⟨moderate, bytes⟩ := kvBytesPerToken_moderate cfg.model
  have evaluates : cfg.evaluateTopology .debug model =
      model.evaluate .debug prefillGpus cfg.decodeGpus cfg.topology.prefillTp cfg.topology.decodeTp := by
    simp only [Config.evaluateTopology, prefill, decode, gpus, Option.bind_eq_bind, Option.bind_some]
  rw [evaluates, isSome_evaluate used_eq]
  obtain ⟨isl, osl, slo, prefill_cal, decode_cal, safety, bandwidth, kv⟩ := fields_of_capacityModel asked
  rw [← kv] at moderate bytes
  rw [isNaN_prefill_reqPerS, isNaN_transferReqS, ← gpus, checkedDiv_eq decode, idle, gpus, isNaN_transferMs moderate,
    ← Bool.not_eq_true (model.kvBytesPerToken == 0), bytes]
  simp only [isl, osl, slo, prefill_cal, decode_cal, safety, bandwidth, used_zero, Config.prefillRate, ne_eq, not_or,
    and_assoc]

/-- A validated configuration is built and evaluated without a panic exactly under the conditions. -/
theorem builds_iff_buildable {cfg : Config} (valid : cfg.validate .debug = some (.ok ())) :
    cfg.Builds ↔ cfg.Buildable := by
  obtain ⟨-, decodeWorkers, -⟩ := of_validate valid
  constructor
  · rintro ⟨simulator, controller, model, asked, evaluated⟩
    rw [isSome_new decodeWorkers, isSome_newDecodeScheduler] at simulator
    have resident := (isSome_capacityModel decodeWorkers).1 (by rw [asked]; rfl)
    obtain ⟨prefill, ⟨c, sized, decode⟩, transfer⟩ := (isSome_evaluateTopology valid asked).1 evaluated
    refine ⟨simulator.1.1, simulator.1.2, simulator.2, resident,
      (@isSome_maxConcurrencyForSlo cfg.decodeModel _ _ _).1 (by rw [sized]; rfl), prefill, ?_, transfer⟩
    intro c' sized'
    obtain rfl : c = c' := Option.some.inj (sized.symm.trans sized')
    exact isNaN_div_slotSeconds.1 decode
  · intro buildable
    have controller := isSome_newController.2 buildable.cap
    obtain ⟨model, asked⟩ := Option.isSome_iff_exists.1 ((isSome_capacityModel decodeWorkers).2 buildable.resident)
    refine ⟨?_, controller, model, asked, ?_⟩
    · rw [isSome_new decodeWorkers, isSome_newDecodeScheduler]
      exact ⟨⟨buildable.cap, buildable.draft⟩, buildable.ids⟩
    · rw [isSome_evaluateTopology valid asked]
      obtain ⟨c, sized⟩ := Option.isSome_iff_exists.1 ((@isSome_maxConcurrencyForSlo cfg.decodeModel
        cfg.decodeGpus cfg.slo cfg.scheduler.itlSafety).2 buildable.sized)
      exact ⟨buildable.prefill, ⟨c, sized, isNaN_div_slotSeconds.2 (buildable.decode c sized)⟩, buildable.transfer⟩

/-- The default configuration is valid and is built, so it meets the conditions. -/
theorem buildable_default : ({} : Config).Buildable := by
  have evaluated : ((({} : Config).capacityModel .debug).bind (({} : Config).evaluateTopology .debug)).isSome := by
    decide +kernel
  obtain ⟨split, split_eq⟩ := Option.isSome_iff_exists.1 evaluated
  obtain ⟨model, asked, evaluates⟩ := Option.bind_eq_some_iff.1 split_eq
  exact (builds_iff_buildable (by decide +kernel)).1
    ⟨by decide +kernel, by decide +kernel, model, asked, by rw [evaluates]; rfl⟩

/-- A cap of seven sequences is valid, and below the fixed minimum of the controller. -/
theorem seven_sequences_panic :
    ({ scheduler := { maxDecodeSeqs := 7 } } : Config).validate .debug = some (.ok ()) ∧
      ¬ ({ scheduler := { maxDecodeSeqs := 7 } } : Config).Builds :=
  ⟨by decide +kernel, fun builds => absurd builds.controller (by decide +kernel)⟩

end TrtLlm.Raw
