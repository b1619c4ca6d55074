import Mathlib.Tactic.Linarith
import TrtLlm.Model.Sched.Decode

/-! # The concurrency cap over a run

One lemma says what an observation can do to the cap and to the give-up flag; both the floor of the cap and the
fate of the full cap follow from it. Observations keep the cap at its maximum while the flag is set. What
lowers it then is a refusal noted from outside, since `back_off` does not look at the flag.
-/

namespace TrtLlm.Sched

namespace ItlController

variable {c : ItlController}

theorem smooth_frame (c : ItlController) (itlMs : Millis) :
    (c.smooth itlMs).cap = c.cap ∧ (c.smooth itlMs).minCap = c.minCap ∧ (c.smooth itlMs).maxCap = c.maxCap ∧
      (c.smooth itlMs).concurrencyNotBinding = c.concurrencyNotBinding := ⟨rfl, rfl, rfl, rfl⟩

/-- Below the low water mark the flag is gone; the cap is not touched. -/
theorem resume_frame (c : ItlController) :
    c.resume.cap = c.cap ∧ c.resume.minCap = c.minCap ∧ c.resume.maxCap = c.maxCap ∧
      (c.resume.concurrencyNotBinding = true → c.concurrencyNotBinding = true) ∧
      (c.resume.ewmaMs < c.resume.targetMs * lowWater → c.resume.concurrencyNotBinding = false) := by
  unfold resume
  split
  next => exact ⟨rfl, rfl, rfl, fun set => (nomatch set), fun _ => rfl⟩
  next stays =>
    refine ⟨rfl, rfl, rfl, id, fun low => ?_⟩
    rw [← Bool.not_eq_true]
    exact fun set => stays ⟨set, low⟩

theorem probe_frame (c : ItlController) :
    c.openProbe.renewProbe.cap = c.cap ∧ c.openProbe.renewProbe.minCap = c.minCap ∧
      c.openProbe.renewProbe.maxCap = c.maxCap ∧
      c.openProbe.renewProbe.concurrencyNotBinding = c.concurrencyNotBinding ∧ c.openProbe.maxCap = c.maxCap ∧
      c.openProbe.minCap = c.minCap := by
  unfold renewProbe openProbe
  split <;> split <;> exact ⟨rfl, rfl, rfl, rfl, rfl, rfl⟩

/-- What a change of the controller can be: nothing for the cap, giving up, a step down to no less than the
floor, or a step up to no more than the ceiling. Only the first two may leave the flag set. -/
def Moved (before after : ItlController) : Prop :=
  after.minCap = before.minCap ∧ after.maxCap = before.maxCap ∧
    (after.cap = before.cap ∧ (after.concurrencyNotBinding = true → before.concurrencyNotBinding = true) ∨
      after.cap = before.maxCap ∨
      after.concurrencyNotBinding = false ∧
        ((∃ lowered, after.cap = max lowered before.minCap) ∨ after.cap = min (before.cap + increaseStep) before.maxCap))

theorem decrease_moved (unset : c.concurrencyNotBinding = false) (concurrency : ℕ) :
    c.Moved (c.decrease concurrency) := by
  unfold decrease
  generalize (if 0 < concurrency then min c.cap concurrency else c.cap) = binding
  simp only
  split
  next => exact ⟨rfl, rfl, .inr (.inl rfl)⟩
  next => exact ⟨rfl, rfl, .inr (.inr ⟨unset, .inl ⟨_, rfl⟩⟩)⟩

theorem steer_moved (gone : c.ewmaMs < c.targetMs * lowWater → c.concurrencyNotBinding = false) (concurrency : ℕ) :
    c.Moved (c.steer concurrency) := by
  have unmoved : c.Moved c := ⟨rfl, rfl, .inl ⟨rfl, id⟩⟩
  obtain ⟨cap, minCap, maxCap, flag, probedMax, probedMin⟩ := probe_frame c
  unfold steer
  split
  next =>
    split
    next => exact unmoved
    next unset =>
      simp only
      split
      next => exact ⟨probedMin, probedMax, .inr (.inl probedMax)⟩
      next =>
        obtain ⟨low, high, moved⟩ := decrease_moved (flag.trans (Bool.eq_false_iff.mpr unset)) concurrency
        rw [Moved, ← minCap, ← maxCap, ← cap, ← flag]
        exact ⟨low, high, moved⟩
  next =>
    split
    next low => exact ⟨rfl, rfl, .inr (.inr ⟨gone low.1, .inr rfl⟩)⟩
    next => exact unmoved

theorem observe_moved (c : ItlController) (itlMs : Millis) (concurrency : ℕ) : c.Moved (c.observe itlMs concurrency) := by
  obtain ⟨cap, low, high, flag⟩ := c.smooth_frame itlMs
  unfold observe
  simp only
  split
  next => exact ⟨low, high, .inl ⟨cap, flag ▸ id⟩⟩
  next =>
    obtain ⟨resumedCap, resumedLow, resumedHigh, kept, gone⟩ := (c.smooth itlMs).resume_frame
    obtain ⟨steeredLow, steeredHigh, moved⟩ := steer_moved gone concurrency
    rw [resumedCap, resumedHigh, resumedLow, cap, low, high] at moved
    refine ⟨steeredLow.trans (resumedLow.trans low), steeredHigh.trans (resumedHigh.trans high), ?_⟩
    rcases moved with ⟨same, still⟩ | rest
    · exact .inl ⟨same, fun set => flag ▸ kept (still set)⟩
    · exact .inr rest

/-- The cap is not below its floor, and the floor not above the ceiling. -/
structure Ranged (low high : ℚ) (c : ItlController) : Prop where
  minCap : c.minCap = low
  maxCap : c.maxCap = high
  floor : low ≤ c.cap

variable {low high : ℚ}

theorem ranged_new (targetMs : Millis) (initialCap low high : ℚ) : (new targetMs initialCap low high).Ranged low high :=
  ⟨rfl, rfl, le_max_left _ _⟩

theorem Ranged.moved (ranged : c.Ranged low high) (order : low ≤ high) {after : ItlController} (moved : c.Moved after) :
    after.Ranged low high := by
  obtain ⟨minCap, maxCap, change⟩ := moved
  refine ⟨minCap.trans ranged.minCap, maxCap.trans ranged.maxCap, ?_⟩
  rcases change with ⟨same, _⟩ | full | ⟨_, ⟨lowered, down⟩ | up⟩
  · exact ranged.floor.trans same.ge
  · rw [full, ranged.maxCap]
    exact order
  · rw [down, ranged.minCap]
    exact le_max_right _ _
  · rw [up, ranged.maxCap]
    refine le_min (ranged.floor.trans ?_) order
    rw [increaseStep]
    linarith

theorem Ranged.observe (ranged : c.Ranged low high) (order : low ≤ high) (itlMs : Millis) (concurrency : ℕ) :
    (c.observe itlMs concurrency).Ranged low high := ranged.moved order (c.observe_moved itlMs concurrency)

theorem Ranged.backOff (ranged : c.Ranged low high) : c.backOff.Ranged low high :=
  ⟨ranged.minCap, ranged.maxCap, ranged.minCap ▸ le_max_right _ _⟩

end ItlController

namespace DecodeScheduler

variable {sched : DecodeScheduler}

theorem advance_controller (now : Millis) (sched : DecodeScheduler) (id : RequestId) :
    (advance now sched id).controller = sched.controller := by
  unfold advance
  split <;> rfl

theorem retire_controller (finished : List RequestId) (sched : DecodeScheduler) :
    (retire finished sched).2.controller = sched.controller := by
  induction finished generalizing sched with
  | nil => rfl
  | cons id finished ih =>
    rw [retire]
    split
    · exact ih _
    · exact ih _

theorem flagDone_controller (sched : DecodeScheduler) (seq : RunningSeq) :
    (sched.flagDone seq).controller = sched.controller := by
  unfold flagDone
  split <;> rfl

/-- A step feeds one observation to the controller and does nothing else to it. -/
theorem onStep_controller (sched : DecodeScheduler) (now stepMs : Millis) (advanced finished : List RequestId) :
    (sched.onStep now stepMs advanced finished).2.controller =
      sched.controller.observe ((sched.steeringItlMs now).getD stepMs) sched.concurrency := by
  have flagged : ∀ (seqs : List RunningSeq) (s : DecodeScheduler), (seqs.foldl flagDone s).controller = s.controller := by
    intro seqs
    induction seqs with
    | nil => exact fun _ => rfl
    | cons seq seqs ih => exact fun s => (ih _).trans (flagDone_controller s seq)
  have booked : ∀ (ids : List RequestId) (s : DecodeScheduler), (ids.foldl (advance now) s).controller = s.controller := by
    intro ids
    induction ids with
    | nil => exact fun _ => rfl
    | cons id ids ih => exact fun s => (ih _).trans (advance_controller now s id)
  unfold onStep
  simp only
  rw [flagged, retire_controller, booked]

theorem note_ranged {low high : ℚ} (ranged : sched.controller.Ranged low high) (decision : AdmitDecision) :
    (sched.note decision).controller.Ranged low high := by
  cases decision with
  | wouldSpoilRunning => exact ranged.backOff
  | admitSeq => exact ranged
  | atCap => exact ranged
  | noKvHeadroom => exact ranged

/-! ### The full cap after giving up -/

/-- What callers do with a scheduler. -/
inductive SchedOp where
  | consult (kvHeadroom : Bool)
  | note (decision : AdmitDecision)
  | admitSeq (seq : RunningSeq)
  | admitAt (seq : RunningSeq) (now : Millis)
  | onStep (now stepMs : Millis) (advanced finished : List RequestId)
  | remove (id : RequestId)

def apply (sched : DecodeScheduler) : SchedOp → DecodeScheduler
  | .consult kvHeadroom => sched.note (sched.canAdmit kvHeadroom)
  | .note decision => sched.note decision
  | .admitSeq seq => sched.admitSeq seq
  | .admitAt seq now => sched.admitAt seq now
  | .onStep now stepMs advanced finished => (sched.onStep now stepMs advanced finished).2
  | .remove id => (sched.remove id).2

/-- The scheduler after a list of calls. -/
def after (sched : DecodeScheduler) (ops : List SchedOp) : DecodeScheduler := ops.foldl apply sched

/-- A controller that has given up steering leaves its cap at the maximum. -/
def FullCap (sched : DecodeScheduler) : Prop :=
  sched.controller.concurrencyNotBinding = true → sched.controller.cap = sched.controller.maxCap

/-- The call notes a refusal for the sake of the running sequences. -/
def Spoils (sched : DecodeScheduler) : SchedOp → Prop
  | .consult kvHeadroom => sched.canAdmit kvHeadroom = .wouldSpoilRunning
  | .note decision => decision = .wouldSpoilRunning
  | _ => False

/-- No such refusal is noted while the flag is set, or a step down from the maximum ends at the maximum. -/
def Harmless (sched : DecodeScheduler) (op : SchedOp) : Prop :=
  sched.controller.concurrencyNotBinding = true → sched.Spoils op →
    max (sched.controller.maxCap * ItlController.decreaseFactor) sched.controller.minCap = sched.controller.maxCap

theorem note_controller {decision : AdmitDecision} (other : decision ≠ .wouldSpoilRunning) :
    (sched.note decision).controller = sched.controller := by
  cases decision with
  | wouldSpoilRunning => exact absurd rfl other
  | admitSeq => rfl
  | atCap => rfl
  | noKvHeadroom => rfl

/-- What a call does to the controller: it steps down, observes, or leaves it alone. -/
theorem apply_controller (sched : DecodeScheduler) (op : SchedOp) :
    sched.Spoils op ∧ (sched.apply op).controller = sched.controller.backOff ∨
      ¬sched.Spoils op ∧ sched.controller.Moved (sched.apply op).controller := by
  have still : sched.controller.Moved sched.controller := ⟨rfl, rfl, .inl ⟨rfl, id⟩⟩
  have noted : ∀ decision, decision = .wouldSpoilRunning ∧ (sched.note decision).controller = sched.controller.backOff ∨
      decision ≠ .wouldSpoilRunning ∧ sched.controller.Moved (sched.note decision).controller := by
    intro decision
    by_cases spoils : decision = .wouldSpoilRunning
    · subst spoils
      exact .inl ⟨rfl, rfl⟩
    · rw [note_controller spoils]
      exact .inr ⟨spoils, still⟩
  cases op with
  | consult kvHeadroom => exact noted _
  | note decision => exact noted decision
  | admitSeq seq => exact .inr ⟨not_false, still⟩
  | admitAt seq now => exact .inr ⟨not_false, still⟩
  | onStep now stepMs advanced finished =>
    refine .inr ⟨not_false, ?_⟩
    rw [apply, onStep_controller]
    exact ItlController.observe_moved _ _ _
  | remove id => exact .inr ⟨not_false, still⟩

/-- From a state with the full cap, a call keeps it exactly when the call is harmless. -/
theorem FullCap.apply_iff (full : sched.FullCap) (op : SchedOp) : (sched.apply op).FullCap ↔ sched.Harmless op := by
  rcases sched.apply_controller op with ⟨spoils, lowered⟩ | ⟨calm, _, maxCap, change⟩
  · rw [FullCap, lowered]
    simp only [Harmless, spoils, forall_true_left, ItlController.backOff]
    refine forall_congr' fun set => ?_
    rw [full set]
  · refine iff_of_true (fun set => ?_) fun _ spoils => absurd spoils calm
    rw [maxCap]
    rcases change with ⟨same, before⟩ | up | ⟨unset, _⟩
    · rw [same, full (before set)]
    · exact up
    · rw [unset] at set
      cases set

/-- The cap is at its maximum in every state of a run with the flag set exactly when every call was harmless. -/
theorem full_cap_iff_harmless (itlBudgetMs targetMs : Millis) (initialCap minCap maxCap : ℚ)
    (ops : List SchedOp) :
    let start := new itlBudgetMs (.new targetMs initialCap minCap maxCap)
    (∀ front, front <+: ops → (start.after front).FullCap) ↔
      ∀ front op, front ++ [op] <+: ops → (start.after front).Harmless op := by
  intro start
  have snoc : ∀ front op, start.after (front ++ [op]) = (start.after front).apply op := fun front op =>
    List.foldl_concat _ _ _ _
  constructor
  · intro full front op within
    rw [← (full front ((List.prefix_append _ _).trans within)).apply_iff, ← snoc]
    exact full _ within
  · intro harmless front
    induction front using List.reverseRecOn with
    | nil => exact fun _ set => nomatch set
    | append_singleton front op ih =>
      intro within
      rw [snoc]
      exact ((ih ((List.prefix_append _ _).trans within)).apply_iff op).mpr (harmless front op within)

/-- One sequence waits a long time, the controller gives up at its floor, and then `can_admit` refuses a newcomer
for the sake of that sequence. -/
def spoiledRun : List SchedOp :=
  .admitSeq (.new 1 0 1000) :: List.replicate 8 (.onStep 100 100 [] []) ++ [.consult true]

/-- Noting that refusal lowers the cap although the controller has given up. -/
theorem refusal_lowers_full_cap :
    ¬∀ (itlBudgetMs targetMs : Millis) (initialCap minCap maxCap : ℚ) (ops : List SchedOp), minCap ≤ maxCap →
      ((new itlBudgetMs (.new targetMs initialCap minCap maxCap)).after ops).FullCap := by
  intro always
  have full := always 20 10 4 1 4 spoiledRun (by norm_num)
  exact absurd (full (by decide +kernel)) (by decide +kernel)

end DecodeScheduler

end TrtLlm.Sched
