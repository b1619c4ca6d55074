import Mathlib.Algebra.BigOperators.Group.List.Basic
import Mathlib.Tactic.FieldSimp
import Mathlib.Tactic.Linarith
import Mathlib.Tactic.Ring
import TrtLlm.Model.Core.Request
import TrtLlm.Model.PyExt.Decide
import TrtLlm.Model.Sched.Decode

/-! # The tolerance is the scored criterion

A sequence keeps its mean latency inside the budget exactly when its remaining gaps stay inside the tolerance on
average. The admission decision computes the same number from the fields the runtime hands over.
-/

namespace TrtLlm

/-- The mean of a finished request of at least two tokens is inside the budget when the whole span is. -/
theorem RequestOutcome.meanItlMs_le_iff {outcome : RequestOutcome} (budgetMs : Millis) (many : 1 < outcome.outputTokens) :
    outcome.meanItlMs ≤ budgetMs ↔
      outcome.lastTokenMs - outcome.firstTokenMs ≤ budgetMs * (outcome.outputTokens - 1 : ℕ) := by
  have gaps : (0 : ℚ) < (outcome.outputTokens - 1 : ℕ) := Nat.cast_pos.mpr (by omega)
  rw [meanItlMs, if_neg (by omega), div_le_iff₀ gaps]

namespace Sched.RunningSeq

/-- Book the next token after a gap. -/
def next (seq : RunningSeq) (gap : Millis) : RunningSeq := seq.advance 1 (seq.lastTokenMs + gap)

/-- Book one token after each gap. -/
def follow (seq : RunningSeq) (gaps : List Millis) : RunningSeq := gaps.foldl next seq

/-- What a finished sequence is scored by. -/
def outcome (seq : RunningSeq) (arrivalMs : Millis) (promptTokens : ℕ) : RequestOutcome where
  id := seq.id
  arrivalMs
  firstTokenMs := seq.firstTokenMs
  lastTokenMs := seq.lastTokenMs
  promptTokens
  outputTokens := seq.tokensEmitted
  requestedTokens := seq.requestedTokens

variable {seq : RunningSeq}

theorem next_eq (gap : Millis) (unfinished : seq.tokensEmitted < seq.requestedTokens) :
    seq.next gap = { seq with tokensEmitted := seq.tokensEmitted + 1, lastTokenMs := seq.lastTokenMs + gap } := by
  rw [next, advance, min_eq_left (Nat.succ_le_of_lt unfinished)]

/-- Following some gaps moves the last token by their sum and books one token for each. -/
theorem follow_eq (gaps : List Millis) (within : seq.tokensEmitted + gaps.length ≤ seq.requestedTokens) :
    seq.follow gaps =
      { seq with tokensEmitted := seq.tokensEmitted + gaps.length, lastTokenMs := seq.lastTokenMs + gaps.sum } := by
  induction gaps generalizing seq with
  | nil => simp [follow]
  | cons gap gaps ih =>
    rw [List.length_cons] at within
    have booked := next_eq gap (show seq.tokensEmitted < seq.requestedTokens by omega)
    change (seq.next gap).follow gaps = _
    rw [ih (by rw [booked]; simp only; omega), booked]
    simp only [List.length_cons, List.sum_cons]
    congr 1
    · ring
    · omega

theorem remainingTokens_eq_zero : seq.remainingTokens = 0 ↔ seq.requestedTokens ≤ seq.tokensEmitted :=
  Nat.sub_eq_zero_iff_le

/-- With tokens left, the tolerance is what the gaps to come may take together, shared among them. -/
theorem remaining_mul_tolerable (budgetMs : Millis) (unfinished : seq.tokensEmitted < seq.requestedTokens) :
    ∃ tolerance : ℚ, seq.tolerableItlMs budgetMs = tolerance ∧
      seq.remainingTokens * tolerance = budgetMs * (seq.requestedTokens - 1 : ℕ) - seq.elapsedMs := by
  have left : seq.remainingTokens ≠ 0 := fun none => absurd (remainingTokens_eq_zero.mp none) (by omega)
  refine ⟨_, by rw [tolerableItlMs, if_neg left], ?_⟩
  exact mul_div_cancel₀ _ (Nat.cast_ne_zero.mpr left)

/-- The budget is met when the remaining gaps take no more than the tolerance leaves them. -/
theorem meanItlMs_follow_le_iff (budgetMs : Millis) (arrivalMs : Millis) (promptTokens : ℕ)
    (booked : 1 ≤ seq.tokensEmitted) (unfinished : seq.tokensEmitted < seq.requestedTokens) {gaps : List Millis}
    (count : gaps.length = seq.remainingTokens) :
    ((seq.follow gaps).outcome arrivalMs promptTokens).meanItlMs ≤ budgetMs ↔
      gaps.sum ≤ budgetMs * (seq.requestedTokens - 1 : ℕ) - seq.elapsedMs := by
  have all : seq.tokensEmitted + gaps.length = seq.requestedTokens := by
    rw [count, remainingTokens]
    omega
  rw [RequestOutcome.meanItlMs_le_iff budgetMs (by rw [follow_eq gaps all.le, outcome]; simp only; omega),
    follow_eq gaps all.le]
  simp only [outcome, all, elapsedMs]
  constructor <;> intro bound <;> linarith

/-- The admission decision's tolerance of a running sequence. -/
theorem tolerableItlMs_eq (budgetMs : Millis) (booked : 1 ≤ seq.tokensEmitted)
    (forward : seq.firstTokenMs ≤ seq.lastTokenMs) :
    PyExt.tolerableItlMs seq.lastTokenMs seq.firstTokenMs seq.tokensEmitted seq.requestedTokens budgetMs =
      seq.tolerableItlMs budgetMs := by
  by_cases left : seq.requestedTokens ≤ seq.tokensEmitted
  · have none : ((seq.requestedTokens - 1 : ℕ) : ℚ) - (seq.tokensEmitted - 1 : ℕ) ≤ 0 :=
      sub_nonpos.mpr (Nat.cast_le.mpr (by omega))
    rw [PyExt.tolerableItlMs, if_pos none, tolerableItlMs, if_pos (remainingTokens_eq_zero.mpr left)]
  · have remaining : ((seq.requestedTokens - 1 : ℕ) : ℚ) - (seq.tokensEmitted - 1 : ℕ) = seq.remainingTokens := by
      rw [← Nat.cast_sub (by omega), remainingTokens]
      congr 1
      omega
    have some : seq.remainingTokens ≠ 0 := fun none => left (remainingTokens_eq_zero.mp none)
    have positive : ¬(seq.remainingTokens : ℚ) ≤ 0 := by simpa using some
    rw [PyExt.tolerableItlMs, remaining, if_neg positive, tolerableItlMs, if_neg some, max_eq_left (sub_nonneg.mpr forward),
      elapsedMs]

/-- The tolerance is exact for the scored mean, and the admission decision computes the same one. -/
theorem tolerance_exact_and_shared (seq : RunningSeq) (budgetMs : Millis) (booked : 1 ≤ seq.tokensEmitted) :
    (seq.tokensEmitted < seq.requestedTokens →
      ∃ tolerance : ℚ, seq.tolerableItlMs budgetMs = tolerance ∧
        ∀ gaps : List Millis, gaps.length = seq.requestedTokens - seq.tokensEmitted → ∀ arrivalMs promptTokens,
          (((seq.follow gaps).outcome arrivalMs promptTokens).meanItlMs ≤ budgetMs ↔
            gaps.sum ≤ (seq.requestedTokens - seq.tokensEmitted : ℕ) * tolerance)) ∧
      (∀ now arrivalMs generated maxNew, now = seq.lastTokenMs → arrivalMs = seq.firstTokenMs → arrivalMs ≤ now →
        generated = seq.tokensEmitted → maxNew = seq.requestedTokens →
          PyExt.tolerableItlMs now arrivalMs generated maxNew budgetMs = seq.tolerableItlMs budgetMs ∧
            (maxNew ≤ generated → seq.tolerableItlMs budgetMs = ⊤)) := by
  refine ⟨fun unfinished => ?_, ?_⟩
  · obtain ⟨tolerance, same, share⟩ := remaining_mul_tolerable budgetMs unfinished
    refine ⟨tolerance, same, fun gaps count arrivalMs promptTokens => ?_⟩
    have total := share
    rw [remainingTokens] at total
    rw [total]
    exact meanItlMs_follow_le_iff budgetMs arrivalMs promptTokens booked unfinished count
  · rintro _ _ _ _ rfl rfl forward rfl rfl
    refine ⟨tolerableItlMs_eq budgetMs booked forward, fun finished => ?_⟩
    rw [tolerableItlMs, if_pos (remainingTokens_eq_zero.mpr finished)]

/-- Half a request in, ahead of its budget. -/
theorem tolerance_exact_and_shared_ahead :
    (⟨1, 0, 0, 30, 3, 5⟩ : RunningSeq).tolerableItlMs 20 = (25 : ℚ) ∧
      (((⟨1, 0, 0, 30, 3, 5⟩ : RunningSeq).follow [20, 30]).outcome 0 4).meanItlMs ≤ 20 ∧
      PyExt.tolerableItlMs 30 0 3 5 20 = (25 : ℚ) := by
  obtain ⟨exact, shared⟩ := tolerance_exact_and_shared ⟨1, 0, 0, 30, 3, 5⟩ 20 (by decide)
  obtain ⟨tolerance, same, score⟩ := exact (by decide)
  obtain ⟨agreed, -⟩ := shared 30 0 3 5 rfl rfl (by norm_num) rfl rfl
  have value : (⟨1, 0, 0, 30, 3, 5⟩ : RunningSeq).tolerableItlMs 20 = (25 : ℚ) := by decide +kernel
  have fits : tolerance = 25 := WithTop.coe_injective (same.symm.trans value)
  refine ⟨value, (score [20, 30] rfl 0 4).mpr ?_, agreed.trans value⟩
  rw [fits]
  norm_num

end Sched.RunningSeq

end TrtLlm
