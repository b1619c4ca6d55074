import TrtLlm.Model.Raw.Search
import TrtLlm.ToMathlib.DedupAdjacent
import TrtLlm.ToMathlib.OptionMapM

/-! # What the search for topologies finds

The loop of each pair of degrees visits the multiples of the prefill degree that leave room for a decode worker, and
keeps those whose rest the decode degree divides: together, every realisable topology. Repeats of a degree list a
topology more than once. Its copies are tied, so the stable sort brings them together, unless another topology that is
tied with it stood between them.
-/

namespace TrtLlm.Raw

open scoped List

namespace CapacityModel

variable {profile : Profile} {model : CapacityModel} {totalGpus ptp dtp : UInt32} {prefillTps decodeTps : List UInt32}

/-! ### Realisable topologies -/

/-- A topology that the lists allow, that uses all GPUs in whole workers, and whose ranks have the memory. -/
structure Realisable (model : CapacityModel) (totalGpus : UInt32) (prefillTps decodeTps : List UInt32) (t : Topology) :
    Prop where
  prefill_listed : t.prefillTp ∈ prefillTps
  decode_listed : t.decodeTp ∈ decodeTps
  prefill_degree : t.prefillTp ≠ 0
  decode_degree : t.decodeTp ≠ 0
  prefill_fits : model.fits t.prefillTp .prefill
  decode_fits : model.fits t.decodeTp .decode
  prefill_positive : 0 < t.prefillGpus.toNat
  prefill_whole : t.prefillTp.toNat ∣ t.prefillGpus.toNat
  decode_positive : 0 < t.decodeGpus.toNat
  decode_whole : t.decodeTp.toNat ∣ t.decodeGpus.toNat
  all_used : t.prefillGpus.toNat + t.decodeGpus.toNat = totalGpus.toNat

/-- The evaluation of a topology. -/
def evaluateAt (profile : Profile) (model : CapacityModel) (t : Topology) : Option PdSplit :=
  model.evaluate profile t.prefillGpus t.decodeGpus t.prefillTp t.decodeTp

theorem topology_of_evaluateAt {t : Topology} {split : PdSplit} (made : model.evaluateAt profile t = some split) :
    split.topology = t := by
  simp only [evaluateAt, evaluate, Option.bind_eq_bind, Option.bind_eq_some_iff] at made
  obtain ⟨_, _, _, _, rates, _, made⟩ := made
  split at made
  · obtain rfl := Option.some.inj made
    rfl
  · cases made

/-! ### The loop -/

/-- Some prefill counts with the rest of the GPUs for decode. -/
def withRest (totalGpus ptp dtp : UInt32) (counts : List ℕ) : List Topology :=
  (counts.filter fun p => dtp.toNat ∣ totalGpus.toNat - p).map fun p =>
    ⟨.ofNat p, .ofNat (totalGpus.toNat - p), ptp, dtp⟩

theorem withRest_cons (p : ℕ) (counts : List ℕ) : withRest totalGpus ptp dtp (p :: counts) =
    if dtp.toNat ∣ totalGpus.toNat - p then
      ⟨.ofNat p, .ofNat (totalGpus.toNat - p), ptp, dtp⟩ :: withRest totalGpus ptp dtp counts
    else withRest totalGpus ptp dtp counts := by
  rw [withRest, List.filter_cons]
  simp only [decide_eq_true_eq]
  split <;> rfl

theorem toNat_ofNat_of_le {n : ℕ} (small : n ≤ totalGpus.toNat) : (UInt32.ofNat n).toNat = n :=
  UInt32.toNat_ofNat_of_lt' (Nat.lt_of_le_of_lt small totalGpus.toNat_lt)

theorem mem_withRest {counts : List ℕ} (small : ∀ p ∈ counts, p ≤ totalGpus.toNat) {t : Topology} :
    t ∈ withRest totalGpus ptp dtp counts ↔ t.prefillTp = ptp ∧ t.decodeTp = dtp ∧ t.prefillGpus.toNat ∈ counts ∧
      dtp.toNat ∣ t.decodeGpus.toNat ∧ t.prefillGpus.toNat + t.decodeGpus.toNat = totalGpus.toNat := by
  constructor
  · intro inside
    obtain ⟨p, counted, rfl⟩ := List.mem_map.mp inside
    obtain ⟨listed, divides⟩ := List.mem_filter.mp counted
    have whole := toNat_ofNat_of_le (small p listed)
    have rest := toNat_ofNat_of_le (Nat.sub_le totalGpus.toNat p)
    simp only [whole, rest]
    exact ⟨trivial, trivial, listed, of_decide_eq_true divides, Nat.add_sub_cancel' (small p listed)⟩
  · rintro ⟨rfl, rfl, listed, divides, all⟩
    have rest : totalGpus.toNat - t.prefillGpus.toNat = t.decodeGpus.toNat := by omega
    refine List.mem_map.mpr ⟨t.prefillGpus.toNat, List.mem_filter.mpr ⟨listed, ?_⟩, ?_⟩
    · rw [rest]
      exact decide_eq_true divides
    · rw [rest, UInt32.ofNat_toNat, UInt32.ofNat_toNat]

theorem nodup_withRest {counts : List ℕ} (small : ∀ p ∈ counts, p ≤ totalGpus.toNat) (nodup : counts.Nodup) :
    (withRest totalGpus ptp dtp counts).Nodup := by
  apply List.Nodup.map_on _ (nodup.filter _)
  intro p first q second same
  have counts := congrArg (fun t : Topology => t.prefillGpus.toNat) same
  simp only at counts
  rwa [toNat_ofNat_of_le (small p (List.mem_of_mem_filter first)),
    toNat_ofNat_of_le (small q (List.mem_of_mem_filter second))] at counts

theorem add_eq_some {a b : UInt32} (small : a.toNat + b.toNat < 2 ^ 32) : profile.add a b = some (a + b) := by
  rw [Profile.add, if_neg (by omega)]

/-- A round with no room for a decode worker is the last. -/
theorem splitsFrom_last {rounds : ℕ} {p : UInt32} (range : p.toNat + dtp.toNat < 2 ^ 32)
    (outside : totalGpus.toNat < p.toNat + dtp.toNat) :
    splitsFrom profile model totalGpus ptp dtp (rounds + 1) p = some [] := by
  have used := toNat_add_of_lt range
  have full : ¬p + dtp ≤ totalGpus := by
    rw [UInt32.le_iff_toNat_le, used]
    omega
  rw [splitsFrom, add_eq_some range, Option.bind_eq_bind, Option.bind_some, if_neg full]

/-- Any other round evaluates its split, if the rest of the GPUs makes whole decode workers, and goes on. -/
theorem splitsFrom_succ {rounds : ℕ} {p : UInt32} (multiple : ptp.toNat ∣ p.toNat)
    (range : p.toNat + ptp.toNat < 2 ^ 32) (inside : p.toNat + dtp.toNat ≤ totalGpus.toNat) (counts : List ℕ)
    (later : splitsFrom profile model totalGpus ptp dtp rounds (p + ptp) =
      (withRest totalGpus ptp dtp counts).mapM (model.evaluateAt profile)) :
    splitsFrom profile model totalGpus ptp dtp (rounds + 1) p =
      (withRest totalGpus ptp dtp (p.toNat :: counts)).mapM (model.evaluateAt profile) := by
  have small : p.toNat + dtp.toNat < 2 ^ 32 := Nat.lt_of_le_of_lt inside totalGpus.toNat_lt
  have fits : p + dtp ≤ totalGpus := by
    rw [UInt32.le_iff_toNat_le, toNat_add_of_lt small]
    exact inside
  have rest : (totalGpus - p).toNat = totalGpus.toNat - p.toNat :=
    UInt32.toNat_sub_of_le _ _ (UInt32.le_iff_toNat_le.mpr (by omega))
  have whole : ((totalGpus - p) % dtp = 0 ∧ p % ptp = 0) ↔ dtp.toNat ∣ totalGpus.toNat - p.toNat := by
    rw [← UInt32.toNat_inj, ← UInt32.toNat_inj, UInt32.toNat_mod, UInt32.toNat_mod, rest]
    exact ⟨fun both => Nat.dvd_of_mod_eq_zero both.1, fun divides =>
      ⟨Nat.mod_eq_zero_of_dvd divides, Nat.mod_eq_zero_of_dvd multiple⟩⟩
  have here : model.evaluateAt profile ⟨.ofNat p.toNat, .ofNat (totalGpus.toNat - p.toNat), ptp, dtp⟩ =
      model.evaluate profile p (totalGpus - p) ptp dtp := by
    rw [evaluateAt, ← rest, UInt32.ofNat_toNat, UInt32.ofNat_toNat]
  rw [splitsFrom, add_eq_some small, Option.bind_eq_bind, Option.bind_some, if_pos fits, add_eq_some range]
  simp only [Option.bind_eq_bind, Option.bind_some]
  rw [later, withRest_cons, splitHere]
  simp only [whole]
  split
  · rw [List.mapM_cons, here]
    cases model.evaluate profile p (totalGpus - p) ptp dtp <;> rfl
  · simp

/-- The loop evaluates the remaining multiples. -/
theorem splitsFrom_eq (range : totalGpus.toNat + ptp.toNat + dtp.toNat < 2 ^ 32) (n : ℕ) {rounds : ℕ}
    (enough : n < rounds) {p : UInt32} (multiple : ptp.toNat ∣ p.toNat) (reach : p.toNat ≤ totalGpus.toNat + ptp.toNat)
    (inside : ∀ i < n, p.toNat + i * ptp.toNat + dtp.toNat ≤ totalGpus.toNat)
    (outside : totalGpus.toNat < p.toNat + n * ptp.toNat + dtp.toNat) :
    splitsFrom profile model totalGpus ptp dtp rounds p =
      (withRest totalGpus ptp dtp (List.range' p.toNat n ptp.toNat)).mapM (model.evaluateAt profile) := by
  obtain ⟨rounds, rfl⟩ := Nat.exists_eq_succ_of_ne_zero (Nat.ne_zero_of_lt enough)
  induction n generalizing rounds p with
  | zero => exact splitsFrom_last (by omega) (by omega)
  | succ n ih =>
    have room := inside 0 n.succ_pos
    have next := toNat_add_of_lt (show p.toNat + ptp.toNat < 2 ^ 32 by omega)
    obtain ⟨rounds, rfl⟩ := Nat.exists_eq_succ_of_ne_zero (show rounds ≠ 0 by omega)
    rw [List.range'_succ, ← next]
    apply splitsFrom_succ multiple (by omega) (by omega)
    apply ih
    · rw [next]
      exact Nat.dvd_add_self_right.mpr multiple
    · omega
    · intro i below
      have bound := inside (i + 1) (by omega)
      rw [Nat.succ_mul] at bound
      omega
    · rw [Nat.succ_mul] at outside
      omega
    · omega

/-! ### The enumeration -/

/-- The topologies of one pair of degrees, by prefill GPUs. -/
def topologiesOf (model : CapacityModel) (totalGpus : UInt32) (degrees : UInt32 × UInt32) : List Topology :=
  let (ptp, dtp) := degrees
  if ptp ≠ 0 ∧ dtp ≠ 0 ∧ model.fits ptp .prefill ∧ model.fits dtp .decode then
    withRest totalGpus ptp dtp (List.range' ptp.toNat ((totalGpus.toNat - dtp.toNat) / ptp.toNat) ptp.toNat)
  else []

/-- The multiples that the loop visits. -/
theorem mem_multiples {step room n : ℕ} (positive : 0 < step) :
    n ∈ List.range' step (room / step) step ↔ 0 < n ∧ step ∣ n ∧ n ≤ room := by
  rw [List.mem_range']
  constructor
  · rintro ⟨i, below, rfl⟩
    have product := (Nat.le_div_iff_mul_le positive).mp below
    rw [Nat.succ_mul, Nat.mul_comm] at product
    exact ⟨by omega, ⟨1 + i, by rw [Nat.mul_add, Nat.mul_one]⟩, by omega⟩
  · rintro ⟨some, ⟨k, rfl⟩, within⟩
    obtain ⟨i, rfl⟩ := Nat.exists_eq_succ_of_ne_zero (Nat.ne_zero_of_lt (Nat.pos_of_mul_pos_left some))
    refine ⟨i, (Nat.le_div_iff_mul_le positive).mpr ?_, by rw [Nat.mul_succ, Nat.add_comm]⟩
    rwa [Nat.mul_comm]

theorem toNat_pos {a : UInt32} (some : a ≠ 0) : 0 < a.toNat :=
  Nat.pos_of_ne_zero fun zero => some (UInt32.toNat.inj zero)

theorem multiples_small (positive : 0 < ptp.toNat) :
    ∀ p ∈ List.range' ptp.toNat ((totalGpus.toNat - dtp.toNat) / ptp.toNat) ptp.toNat, p ≤ totalGpus.toNat :=
  fun _ visited => ((mem_multiples positive).mp visited).2.2.trans (Nat.sub_le _ _)

/-- The topologies of a pair of degrees are the realisable ones. -/
theorem mem_topologiesOf {t : Topology} :
    t ∈ model.topologiesOf totalGpus (ptp, dtp) ↔ model.Realisable totalGpus [ptp] [dtp] t := by
  rw [topologiesOf]
  split
  next allowed =>
    obtain ⟨prefill_degree, decode_degree, prefill_fits, decode_fits⟩ := allowed
    have positive := toNat_pos prefill_degree
    rw [mem_withRest (multiples_small positive), mem_multiples positive]
    constructor
    · rintro ⟨rfl, rfl, ⟨prefill_positive, prefill_whole, within⟩, decode_whole, all_used⟩
      have room := toNat_pos decode_degree
      have decode_positive : 0 < t.decodeGpus.toNat := by omega
      exact ⟨.head _, .head _, prefill_degree, decode_degree, prefill_fits, decode_fits, prefill_positive,
        prefill_whole, decode_positive, decode_whole, all_used⟩
    · intro realisable
      have prefill := List.mem_singleton.mp realisable.prefill_listed
      have decode := List.mem_singleton.mp realisable.decode_listed
      have least := Nat.le_of_dvd realisable.decode_positive realisable.decode_whole
      have all := realisable.all_used
      rw [decode] at least
      exact ⟨prefill, decode, ⟨realisable.prefill_positive, prefill ▸ realisable.prefill_whole, by omega⟩,
        decode ▸ realisable.decode_whole, all⟩
  next refused =>
    refine ⟨fun member => absurd member List.not_mem_nil, fun realisable => absurd ?_ refused⟩
    rw [← List.mem_singleton.mp realisable.prefill_listed, ← List.mem_singleton.mp realisable.decode_listed]
    exact ⟨realisable.prefill_degree, realisable.decode_degree, realisable.prefill_fits, realisable.decode_fits⟩

/-- All topologies in the order in which they are evaluated, with repeats. -/
def enumerated (model : CapacityModel) (totalGpus : UInt32) (prefillTps decodeTps : List UInt32) : List Topology :=
  (prefillTps ×ˢ decodeTps).flatMap (model.topologiesOf totalGpus)

theorem splitsOf_eq (range : totalGpus.toNat + ptp.toNat + dtp.toNat < 2 ^ 32) :
    splitsOf profile model totalGpus ptp dtp =
      (model.topologiesOf totalGpus (ptp, dtp)).mapM (model.evaluateAt profile) := by
  rw [splitsOf, topologiesOf]
  split
  next zero =>
    rw [if_neg (by tauto)]
    rfl
  next degrees =>
    rw [not_or] at degrees
    split
    next lacking =>
      rw [if_neg (by tauto)]
      rfl
    next room =>
      rw [not_or, not_not, not_not] at room
      have positive := toNat_pos degrees.1
      have counted := Nat.div_add_mod (totalGpus.toNat - dtp.toNat) ptp.toNat
      have rest := Nat.mod_lt (totalGpus.toNat - dtp.toNat) positive
      have bound := Nat.div_le_self (totalGpus.toNat - dtp.toNat) ptp.toNat
      rw [if_pos ⟨degrees.1, degrees.2, room⟩]
      apply splitsFrom_eq range _ (by omega) (dvd_refl _) (by omega)
      · intro i below
        have product : (i + 1) * ptp.toNat ≤ totalGpus.toNat - dtp.toNat := (Nat.le_div_iff_mul_le positive).mp below
        rw [Nat.succ_mul] at product
        omega
      · rw [Nat.mul_comm]
        omega

theorem search_eq (range : ∀ ptp ∈ prefillTps, ∀ dtp ∈ decodeTps, totalGpus.toNat + ptp.toNat + dtp.toNat < 2 ^ 32) :
    search profile model totalGpus prefillTps decodeTps =
      ((model.enumerated totalGpus prefillTps decodeTps).mapM (model.evaluateAt profile)).map fun out =>
        (out.insertionSort PdSplit.Before).destutter fun a b => a.topology ≠ b.topology := by
  have visited : (prefillTps ×ˢ decodeTps).mapM (fun degrees => splitsOf profile model totalGpus degrees.1 degrees.2) =
      (prefillTps ×ˢ decodeTps).mapM fun degrees =>
        (model.topologiesOf totalGpus degrees).mapM (model.evaluateAt profile) :=
    List.mapM_congr_mem fun degrees member =>
      splitsOf_eq (range _ (List.mem_product.mp member).1 _ (List.mem_product.mp member).2)
  rw [search, enumerated, List.mapM_flatMap, ← visited]
  cases (prefillTps ×ˢ decodeTps).mapM fun degrees => splitsOf profile model totalGpus degrees.1 degrees.2 <;> rfl

/-- The enumeration lists the realisable topologies. -/
theorem mem_enumerated {t : Topology} :
    t ∈ model.enumerated totalGpus prefillTps decodeTps ↔ model.Realisable totalGpus prefillTps decodeTps t := by
  rw [enumerated, List.mem_flatMap]
  constructor
  · rintro ⟨⟨ptp, dtp⟩, listed, inside⟩
    have realisable := mem_topologiesOf.mp inside
    obtain ⟨prefill_listed, decode_listed⟩ := List.mem_product.mp listed
    rw [← List.mem_singleton.mp realisable.prefill_listed] at prefill_listed
    rw [← List.mem_singleton.mp realisable.decode_listed] at decode_listed
    exact { realisable with prefill_listed, decode_listed }
  · intro realisable
    refine ⟨(t.prefillTp, t.decodeTp), List.mem_product.mpr ⟨realisable.prefill_listed, realisable.decode_listed⟩, ?_⟩
    exact mem_topologiesOf.mpr { realisable with prefill_listed := .head _, decode_listed := .head _ }

/-! ### The order of the result -/

end CapacityModel

namespace PdSplit

instance : Std.Total Before := ⟨fun a b => by
  rw [Before, Before]
  omega⟩

instance : IsTrans PdSplit Before := ⟨fun a b c => by
  rw [Before, Before, Before]
  omega⟩

/-- Neither goodput nor slack tells two topologies apart. -/
def Tied (a b : PdSplit) : Prop :=
  totalKey a.goodputReqS = totalKey b.goodputReqS ∧
    totalKey (a.prefillReqS + a.decodeReqS) = totalKey (b.prefillReqS + b.decodeReqS)

theorem tied_iff {a b : PdSplit} : a.Tied b ↔ a.Before b ∧ b.Before a := by
  rw [Tied, Before, Before]
  omega

end PdSplit

namespace CapacityModel

variable {profile : Profile} {model : CapacityModel} {totalGpus : UInt32} {prefillTps decodeTps : List UInt32}

/-- What a search is to find: every realisable topology once, with its evaluation, by falling goodput, and of equal
goodput, by falling slack. -/
structure Found (profile : Profile) (model : CapacityModel) (totalGpus : UInt32) (prefillTps decodeTps : List UInt32)
    (out : List PdSplit) : Prop where
  once : (out.map PdSplit.topology).Nodup
  realisable : ∀ t, t ∈ out.map PdSplit.topology ↔ model.Realisable totalGpus prefillTps decodeTps t
  evaluated : ∀ split ∈ out, model.evaluateAt profile split.topology = some split
  falling : out.Pairwise fun a b => totalKey b.goodputReqS ≤ totalKey a.goodputReqS ∧
    (totalKey b.goodputReqS = totalKey a.goodputReqS →
      totalKey (b.prefillReqS + b.decodeReqS) ≤ totalKey (a.prefillReqS + a.decodeReqS))

section Ranked

variable {listed : List Topology} {evaluated : List PdSplit}

theorem topologies_of_mapM (mapped : listed.mapM (model.evaluateAt profile) = some evaluated) :
    evaluated.map PdSplit.topology = listed ∧
      ∀ split ∈ evaluated, model.evaluateAt profile split.topology = some split := by
  have each := List.forall₂_of_mapM mapped
  clear mapped
  induction each with
  | nil => exact ⟨rfl, by simp⟩
  | cons here _ ih =>
    have named := topology_of_evaluateAt here
    refine ⟨by rw [List.map_cons, named, ih.1], ?_⟩
    rw [List.forall_mem_cons]
    exact ⟨named ▸ here, ih.2⟩

/-- The evaluations best first, without repeats of the neighbour. -/
def ranked (evaluated : List PdSplit) : List PdSplit :=
  (evaluated.insertionSort PdSplit.Before).destutter fun a b => a.topology ≠ b.topology

theorem map_ranked : (ranked evaluated).map PdSplit.topology =
    ((evaluated.insertionSort PdSplit.Before).map PdSplit.topology).destutter (· ≠ ·) :=
  List.map_destutter fun _ _ _ _ => Iff.rfl

theorem ranked_sublist : ranked evaluated <+ evaluated.insertionSort PdSplit.Before := List.destutter_sublist _ _

theorem mem_of_mem_sorted {split : PdSplit} (member : split ∈ evaluated.insertionSort PdSplit.Before) :
    split ∈ evaluated := (List.mem_insertionSort PdSplit.Before).mp member

section Own

variable (own : ∀ split ∈ evaluated, model.evaluateAt profile split.topology = some split)

include own

/-- A topology has one evaluation. -/
theorem eq_of_topology {x y : PdSplit} (first : x ∈ evaluated) (second : y ∈ evaluated)
    (same : x.topology = y.topology) : x = y := by
  have made := own x first
  rw [same, own y second] at made
  exact (Option.some.inj made).symm

/-- Copies survive exactly where two tied topologies alternate. -/
theorem nodup_ranked_iff : ((ranked evaluated).map PdSplit.topology).Nodup ↔
    ∀ x y, [x, y, x] <+ evaluated → x.Tied y → x.topology = y.topology := by
  rw [map_ranked, List.nodup_destutter_ne_iff]
  constructor
  · intro unique x y alternate tied
    have both := PdSplit.tied_iff.mp tied
    have kept := List.alternate_insertionSort_iff.mpr ⟨both.1, both.2, alternate⟩
    exact unique _ _ (kept.map PdSplit.topology)
  · intro unique a b alternate
    obtain ⟨x, y, z, sublist, rfl, rfl, same⟩ := List.exists_of_triple_sublist_map alternate
    have members := fun split inside => mem_of_mem_sorted (sublist.subset (a := split) inside)
    obtain rfl := eq_of_topology own (members z (by simp)) (members x (by simp)) same
    obtain ⟨before, after, inside⟩ := List.alternate_insertionSort_iff.mp sublist
    exact unique z y inside (PdSplit.tied_iff.mpr ⟨before, after⟩)

end Own

/-- What is ranked is what the search is to find, but for the copies. -/
theorem found_ranked_iff
    (mapped : (model.enumerated totalGpus prefillTps decodeTps).mapM (model.evaluateAt profile) = some evaluated) :
    model.Found profile totalGpus prefillTps decodeTps (ranked evaluated) ↔
      ∀ x y, [x, y, x] <+ evaluated → x.Tied y → x.topology = y.topology := by
  obtain ⟨topologies, own⟩ := topologies_of_mapM mapped
  rw [← nodup_ranked_iff own]
  refine ⟨Found.once, fun once => ⟨once, ?_, ?_, ?_⟩⟩
  · intro t
    rw [map_ranked, List.mem_destutter_ne, ← mem_enumerated, ← topologies]
    exact ((List.perm_insertionSort PdSplit.Before evaluated).map PdSplit.topology).mem_iff
  · intro split member
    exact own split (mem_of_mem_sorted (ranked_sublist.subset member))
  · have sorted := (List.pairwise_insertionSort PdSplit.Before evaluated).sublist ranked_sublist
    refine sorted.imp fun {a b} before => ?_
    rw [PdSplit.Before] at before
    omega

end Ranked

/-- No two different topologies that are tied come in turns in the enumeration. -/
def NoTiedTurns (profile : Profile) (model : CapacityModel) (totalGpus : UInt32)
    (prefillTps decodeTps : List UInt32) : Prop :=
  ∀ a b x y, [a, b, a] <+ model.enumerated totalGpus prefillTps decodeTps → model.evaluateAt profile a = some x →
    model.evaluateAt profile b = some y → x.Tied y → a = b

/-- The topologies of one pair of degrees differ. -/
theorem nodup_topologiesOf (degrees : UInt32 × UInt32) : (model.topologiesOf totalGpus degrees).Nodup := by
  rw [topologiesOf]
  split
  next allowed =>
    have positive := toNat_pos allowed.1
    exact nodup_withRest (multiples_small positive) (List.nodup_range' degrees.1.toNat positive)
  next => exact List.nodup_nil

/-- Without repeated degrees nothing is enumerated twice. -/
theorem noTiedTurns_of_nodup (prefills : prefillTps.Nodup) (decodes : decodeTps.Nodup) :
    model.NoTiedTurns profile totalGpus prefillTps decodeTps := by
  have once : (model.enumerated totalGpus prefillTps decodeTps).Nodup := by
    rw [enumerated, List.nodup_flatMap]
    refine ⟨fun degrees _ => nodup_topologiesOf degrees, (prefills.product decodes).imp ?_⟩
    intro degrees other apart t first second
    have own : ∀ degrees, t ∈ model.topologiesOf totalGpus degrees → (t.prefillTp, t.decodeTp) = degrees := by
      intro degrees inside
      have realisable := mem_topologiesOf.mp inside
      rw [List.mem_singleton.mp realisable.prefill_listed, List.mem_singleton.mp realisable.decode_listed]
    exact apart ((own degrees first).symm.trans (own other second))
  intro a b x y alternate _ _ _
  have copies : [a, a] <+ [a, b, a] := (List.sublist_cons_self b [a]).cons_cons a
  exact absurd (copies.trans alternate) (List.nodup_iff_sublist.mp once a)

/-- The search finds every realisable topology once, best first, exactly when the evaluation of none of them panics, and
no two that are tied come in turns in the enumeration. -/
theorem search_found_iff (profile : Profile) (model : CapacityModel) (totalGpus : UInt32)
    (prefillTps decodeTps : List UInt32)
    (range : ∀ ptp ∈ prefillTps, ∀ dtp ∈ decodeTps, totalGpus.toNat + ptp.toNat + dtp.toNat < 2 ^ 32) :
    (∃ out, search profile model totalGpus prefillTps decodeTps = some out ∧
        model.Found profile totalGpus prefillTps decodeTps out) ↔
      (∀ t, model.Realisable totalGpus prefillTps decodeTps t → (model.evaluateAt profile t).isSome) ∧
        model.NoTiedTurns profile totalGpus prefillTps decodeTps := by
  have safe : ((model.enumerated totalGpus prefillTps decodeTps).mapM (model.evaluateAt profile)).isSome ↔
      ∀ t, model.Realisable totalGpus prefillTps decodeTps t → (model.evaluateAt profile t).isSome := by
    rw [List.isSome_mapM_iff]
    exact forall_congr' fun t => by rw [mem_enumerated]
  rw [search_eq range, ← safe]
  cases mapped : (model.enumerated totalGpus prefillTps decodeTps).mapM (model.evaluateAt profile) with
  | none => simp
  | some evaluated =>
    obtain ⟨topologies, own⟩ := topologies_of_mapM mapped
    have turns : model.NoTiedTurns profile totalGpus prefillTps decodeTps ↔
        ∀ x y, [x, y, x] <+ evaluated → x.Tied y → x.topology = y.topology := by
      constructor
      · intro free x y alternate tied
        have listed := alternate.map PdSplit.topology
        rw [topologies] at listed
        have members := fun split inside => alternate.subset (a := split) inside
        exact free _ _ x y listed (own x (members x (by simp))) (own y (members y (by simp))) tied
      · intro free a b x y alternate made made' tied
        rw [← topologies] at alternate
        obtain ⟨x', y', z', sublist, rfl, rfl, same⟩ := List.exists_of_triple_sublist_map alternate
        have members := fun split inside => sublist.subset (a := split) inside
        obtain rfl := eq_of_topology own (members z' (by simp)) (members x' (by simp)) same
        obtain rfl := Option.some.inj ((own z' (members z' (by simp))).symm.trans made)
        obtain rfl := Option.some.inj ((own y' (members y' (by simp))).symm.trans made')
        exact free z' y' sublist tied
    rw [turns, ← found_ranked_iff mapped]
    simp [ranked]

theorem search_found_default :
    (∃ out, search .debug .default 16 [2] [4] = some out ∧ Found .debug .default 16 [2] [4] out) ↔
      (∀ t, Realisable .default 16 [2] [4] t → (evaluateAt .debug .default t).isSome) ∧
        NoTiedTurns .debug .default 16 [2] [4] :=
  search_found_iff .debug .default 16 [2] [4] (by simp)

/-- With the prefill degree 2 twice, 8 and 8 GPUs with decode degrees 4 and 8 are tied and come in turns: both are kept
twice. -/
theorem not_found_repeated : ¬∀ (profile : Profile) (model : CapacityModel) (totalGpus : UInt32)
    (prefillTps decodeTps : List UInt32),
    (∀ ptp ∈ prefillTps, ∀ dtp ∈ decodeTps, totalGpus.toNat + ptp.toNat + dtp.toNat < 2 ^ 32) →
      ∃ out, search profile model totalGpus prefillTps decodeTps = some out ∧
        model.Found profile totalGpus prefillTps decodeTps out := by
  intro finds
  obtain ⟨out, made, found⟩ := finds .debug .default 16 [2, 2] [4, 8] (by simp)
  have copied : (search .debug .default 16 [2, 2] [4, 8]).all fun out => ¬(out.map PdSplit.topology).Nodup := by
    decide +kernel
  rw [made] at copied
  exact absurd found.once (of_decide_eq_true copied)

end CapacityModel

end TrtLlm.Raw
