import TrtLlm.Model.Core.Stats
import TrtLlm.Model.PyExt.Shadow
import TrtLlm.Model.Sched.Decode
import TrtLlm.ToMathlib.NearestRank

/-! # Which sample the controller steers on

Three places take a ninetieth percentile of a sorted sample, each with its own position. The scored report rounds nine
tenths of the length up and is the nearest rank. The scheduler rounds nine tenths of the last position, which is one
short for lengths that end in 7, 8 or 9; the shim rounds nine tenths of the length down, which is one too far for
lengths that end in 0.
-/

namespace TrtLlm.Sched.DecodeScheduler

open PyExt.Shadow (pct round3)

variable {ages : List Millis}

/-- The position of the nearest-rank ninetieth percentile among `n` sorted samples. -/
def nearestRank (n : ℕ) : ℕ := n - n / 10 - 1

theorem nearestRank_lt {n : ℕ} (positive : 0 < n) : nearestRank n < n := by
  unfold nearestRank
  omega

theorem isNearestRank_iff (nonempty : ages ≠ []) (a : Millis) :
    ages.IsNearestRank (90 / 100) a ↔ (ages.insertionSort (· ≤ ·))[nearestRank ages.length]? = some a := by
  have sorted := List.pairwise_insertionSort (· ≤ ·) ages
  have size := List.length_insertionSort (· ≤ ·) ages
  have positive := List.length_pos_of_ne_nil nonempty
  rw [← (List.perm_insertionSort (· ≤ ·) ages).isNearestRank_iff]
  refine List.isNearestRank_iff_getElem? sorted (size.symm ▸ nearestRank_lt positive) ?_
  rw [size, Nat.ceil_nine_tenths, nearestRank]
  omega

/-- The scored report's percentile is the nearest rank. -/
theorem fromSamples_p90 (nonempty : ages ≠ []) :
    (ages.insertionSort (· ≤ ·))[nearestRank ages.length]? = some (LatencyStats.fromSamples ages).p90 := by
  have size := List.length_insertionSort (· ≤ ·) ages
  have positive := List.length_pos_of_ne_nil nonempty
  have held : (ages.insertionSort (· ≤ ·)).isEmpty = false := by
    rw [List.isEmpty_eq_false_iff, ← List.length_pos_iff, size]
    exact positive
  have place : min (max (ages.length - ages.length / 10) 1) ages.length - 1 = nearestRank ages.length := by
    unfold nearestRank
    omega
  rw [LatencyStats.fromSamples, if_neg (by simpa using nonempty)]
  simp only [percentile, held, Bool.false_eq_true, if_false, size, Nat.ceil_nine_tenths, place]
  rw [List.getD_eq_getElem?_getD, List.getElem?_eq_getElem (size.symm ▸ nearestRank_lt positive), Option.getD_some]

/-- The scheduler's position. -/
theorem steeringItlMs_eq (sched : DecodeScheduler) (now : Millis) (running : sched.runningSeqs ≠ []) :
    let ages := sched.runningSeqs.map (·.ageMs now)
    sched.steeringItlMs now = (ages.insertionSort (· ≤ ·))[
      if 7 ≤ ages.length % 10 then nearestRank ages.length - 1 else nearestRank ages.length]? := by
  intro ages
  have nonempty : ages ≠ [] := by simpa [ages] using running
  have place := Nat.round_nine_tenths_pred (List.length_pos_of_ne_nil nonempty)
  have isEmpty : ages.isEmpty = false := by simpa using nonempty
  change (if ages.isEmpty then none else _) = _
  rw [isEmpty, if_neg Bool.false_ne_true, place]
  unfold nearestRank
  rfl

/-- The shim's position. -/
theorem pct_eq (nonempty : ages ≠ []) :
    pct ages (90 / 100) = ((ages.insertionSort (· ≤ ·))[
      if ages.length % 10 = 0 then nearestRank ages.length + 1 else nearestRank ages.length]?).map round3 := by
  have size := List.length_insertionSort (· ≤ ·) ages
  have positive := List.length_pos_of_ne_nil nonempty
  have place : min (ages.length - 1)
      (if ages.length % 10 = 0 then ages.length - ages.length / 10 else ages.length - ages.length / 10 - 1) =
      if ages.length % 10 = 0 then nearestRank ages.length + 1 else nearestRank ages.length := by
    unfold nearestRank
    split <;> omega
  have inside : (if ages.length % 10 = 0 then nearestRank ages.length + 1 else nearestRank ages.length) <
      (ages.insertionSort (· ≤ ·)).length := by
    unfold nearestRank
    rw [size]
    split <;> omega
  rw [pct, if_neg nonempty]
  simp only [size, Nat.floor_nine_tenths, place]
  rw [List.getD_eq_getElem?_getD, List.getElem?_eq_getElem inside, Option.getD_some, Option.map_some]

/-- The steering signal is the smallest age that at least nine in ten running sequences do not exceed, as the scored
report takes it, and the shim's signal for the same ages is the same up to its rounding, exactly when, for a number of
sequences ending in 7, 8 or 9, the age at that place is no greater than the one before it, and for a number ending
in 0 the next age rounds to the same. -/
theorem steering_is_p90_iff (sched : DecodeScheduler) (now : Millis) (running : sched.runningSeqs ≠ []) :
    let ages := sched.runningSeqs.map (·.ageMs now)
    let sorted := ages.insertionSort (· ≤ ·)
    let rank := nearestRank ages.length
    (∃ a, sched.steeringItlMs now = some a ∧ ages.IsNearestRank (90 / 100) a ∧
        (LatencyStats.fromSamples ages).p90 = a ∧ pct ages (90 / 100) = some (round3 a)) ↔
      (7 ≤ ages.length % 10 → sorted[rank - 1]? = sorted[rank]?) ∧
        (ages.length % 10 = 0 → sorted[rank]?.map round3 = sorted[rank + 1]?.map round3) := by
  intro ages sorted rank
  have nonempty : ages ≠ [] := by simpa [ages] using running
  have steering : sched.steeringItlMs now = sorted[if 7 ≤ ages.length % 10 then rank - 1 else rank]? :=
    sched.steeringItlMs_eq now running
  have report : sorted[rank]? = some (LatencyStats.fromSamples ages).p90 := fromSamples_p90 nonempty
  have shim : pct ages (90 / 100) = (sorted[if ages.length % 10 = 0 then rank + 1 else rank]?).map round3 :=
    pct_eq nonempty
  have nearest : ∀ a, ages.IsNearestRank (90 / 100) a ↔ sorted[rank]? = some a := isNearestRank_iff nonempty
  rw [steering, shim]
  simp only [nearest, report, Option.some_inj]
  generalize (LatencyStats.fromSamples ages).p90 = p90 at report
  generalize ages.length % 10 = digit
  by_cases short : 7 ≤ digit
  · have nonzero : digit ≠ 0 := by omega
    rw [if_pos short, if_neg nonzero, report, Option.map_some]
    constructor
    · rintro ⟨a, found, rfl, -⟩
      exact ⟨fun _ => found, fun zero => absurd zero nonzero⟩
    · rintro ⟨found, -⟩
      exact ⟨p90, found short, rfl, rfl, rfl⟩
  · rw [if_neg short, report]
    by_cases zero : digit = 0
    · rw [if_pos zero, Option.map_some]
      constructor
      · rintro ⟨a, -, rfl, -, same⟩
        exact ⟨fun long => absurd long short, fun _ => same.symm⟩
      · rintro ⟨-, same⟩
        exact ⟨p90, rfl, rfl, rfl, (same zero).symm⟩
    · rw [if_neg zero, report, Option.map_some]
      refine iff_of_true ⟨p90, rfl, rfl, rfl, rfl⟩ ?_
      exact ⟨fun long => absurd long short, fun other => absurd other zero⟩

/-- Ten sequences of one age. -/
def alignedTen : DecodeScheduler :=
  (List.range 10).foldl (fun sched i => sched.admitAt (.new i 0 100) 5) (new 20 (.new 20 64 1 64))

theorem alignedTen_is_p90 :
    let ages := alignedTen.runningSeqs.map (·.ageMs 100)
    ∃ a, alignedTen.steeringItlMs 100 = some a ∧ ages.IsNearestRank (90 / 100) a ∧
      (LatencyStats.fromSamples ages).p90 = a ∧ pct ages (90 / 100) = some (round3 a) :=
  (steering_is_p90_iff alignedTen 100 (by decide +kernel)).mpr (by decide +kernel)

/-- Seven sequences admitted at seven different times. -/
def staggered : DecodeScheduler :=
  (List.range 7).foldl (fun sched i => sched.admitAt (.new i 0 100) i) (new 20 (.new 20 64 1 64))

/-- With seven staggered sequences the signal is the second longest wait, which only six of seven do not exceed. -/
theorem staggered_below_p90 :
    ¬∀ (sched : DecodeScheduler) (now : Millis), sched.runningSeqs ≠ [] →
      let ages := sched.runningSeqs.map (·.ageMs now)
      ∃ a, sched.steeringItlMs now = some a ∧ ages.IsNearestRank (90 / 100) a ∧
        (LatencyStats.fromSamples ages).p90 = a ∧ pct ages (90 / 100) = some (round3 a) := by
  intro always
  obtain ⟨a, found, nearest, -⟩ := always staggered 100 (by decide +kernel)
  have second : staggered.steeringItlMs 100 = some 99 := by decide +kernel
  obtain rfl := Option.some.inj (second.symm.trans found)
  exact absurd nearest.2.1 (by decide +kernel)

end TrtLlm.Sched.DecodeScheduler
