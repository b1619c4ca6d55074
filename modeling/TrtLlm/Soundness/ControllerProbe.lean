import TrtLlm.Soundness.ControllerRuns

/-! # Giving up takes evidence

The probe counter of the controller never runs ahead of the back-offs that a run shows: since the last raise of the
cap and the last clearing of the flag, at least as many observations as it counts were above the high water mark
and left the cap a tenth under what was running. So a controller that gives up has either come down to its floor in
that call, or has backed off a whole window long.
-/

namespace TrtLlm.Sched.ItlController

open Machine (trail)

variable {c : ItlController} {targetMs low high : ℚ}

/-! ### What a call shows -/

/-- The call raises the cap or clears the flag. -/
def StartsOver (call : ItlController × ControllerOp) : Prop :=
  call.1.cap < (call.1.apply call.2).cap ∨
    call.1.concurrencyNotBinding = true ∧ (call.1.apply call.2).concurrencyNotBinding = false

/-- An observation above the high water mark that leaves the cap a tenth under what was running, or at the floor. -/
def PullsLever (targetMs low : ℚ) (call : ItlController × ControllerOp) : Prop :=
  match call.2 with
  | .observe _ concurrency =>
    98 / 100 * targetMs < (call.1.apply call.2).ewmaMs ∧
      (call.1.apply call.2).cap ≤ max low (9 / 10 * min call.1.cap concurrency)
  | .backOff => False

instance (targetMs low : ℚ) : DecidablePred (PullsLever targetMs low) := fun call =>
  match call with
  | (_, .observe _ _) => inferInstanceAs (Decidable (_ ∧ _))
  | (_, .backOff) => inferInstanceAs (Decidable False)

/-- The last calls pulled the lever at least `n` times and did not start over. -/
def Pulled (targetMs low : ℚ) (calls : List (ItlController × ControllerOp)) (n : ℕ) : Prop :=
  ∃ old recent, calls = old ++ recent ∧ (∀ call ∈ recent, ¬StartsOver call) ∧
    n ≤ recent.countP fun call => PullsLever targetMs low call

variable {calls : List (ItlController × ControllerOp)} {call : ItlController × ControllerOp} {n m : ℕ}

theorem pulled_zero (calls : List (ItlController × ControllerOp)) : Pulled targetMs low calls 0 :=
  ⟨calls, [], (List.append_nil _).symm, fun _ member => absurd member List.not_mem_nil, Nat.zero_le _⟩

/-- A call that does not start over counts if it pulls. -/
theorem Pulled.concat_count (pulled : Pulled targetMs low calls n) (goesOn : ¬StartsOver call)
    (less : m ≤ n + if PullsLever targetMs low call then 1 else 0) : Pulled targetMs low (calls ++ [call]) m := by
  obtain ⟨old, recent, rfl, quiet, counted⟩ := pulled
  refine ⟨old, recent ++ [call], List.append_assoc _ _ _, fun other member => ?_, ?_⟩
  · rcases List.mem_append.mp member with earlier | last
    · exact quiet other earlier
    · rw [List.mem_singleton.mp last]
      exact goesOn
  · rw [List.countP_append, List.countP_singleton]
    simp only [decide_eq_true_eq]
    omega

theorem Pulled.concat (pulled : Pulled targetMs low calls n) (goesOn : ¬StartsOver call) (less : m ≤ n) :
    Pulled targetMs low (calls ++ [call]) m := pulled.concat_count goesOn (less.trans (Nat.le_add_right _ _))

theorem Pulled.concat_lever (pulled : Pulled targetMs low calls n) (goesOn : ¬StartsOver call)
    (lever : PullsLever targetMs low call) (less : m ≤ n + 1) : Pulled targetMs low (calls ++ [call]) m := by
  refine pulled.concat_count goesOn ?_
  rwa [if_pos lever]

/-! ### The probe counter -/

theorem not_startsOver {op : ControllerOp} {after : ItlController} (applied : c.apply op = after)
    (cap : after.cap ≤ c.cap) (flag : c.concurrencyNotBinding = true → after.concurrencyNotBinding = true) :
    ¬StartsOver (c, op) := by
  subst applied
  rintro (raised | ⟨set, unset⟩)
  · exact raised.not_ge cap
  · exact absurd (unset.symm.trans (flag set)) Bool.false_ne_true

/-- An observation keeps the counter behind the pulls. -/
theorem Pulled.observe (pulled : Pulled targetMs low calls c.observationsSinceDecrease)
    (tuned : c.Tuned targetMs low high) (positive : 0 < targetMs) (floor : 0 < low) (itlMs : Millis)
    {concurrency : ℕ} (running : 1 ≤ concurrency) :
    Pulled targetMs low (calls ++ [(c, .observe itlMs concurrency)])
      (c.observe itlMs concurrency).observationsSinceDecrease := by
  have exit := observe_exit (tuned.steers positive) itlMs concurrency
  have applied : c.apply (.observe itlMs concurrency) = c.observe itlMs concurrency := rfl
  generalize c.observe itlMs concurrency = after at exit applied
  cases exit with
  | warmUp => exact pulled.concat (not_startsOver applied le_rfl id) le_rfl
  | held => exact pulled.concat (not_startsOver applied le_rfl id) le_rfl
  | futile => exact pulled_zero _
  | floored => exact pulled_zero _
  | stepDown high unset ewmaAtDecrease count counted =>
    refine pulled.concat_lever (not_startsOver applied (lowered_le tuned floor) id) ?_ counted
    rw [PullsLever, applied]
    refine ⟨?_, (lowered_of_running tuned running).le⟩
    rw [High, tuned.target, mul_comm] at high
    exact high
  | stepUp => exact pulled_zero _
  | cleared => exact pulled_zero _
  | kept => exact pulled.concat (not_startsOver applied le_rfl id) le_rfl

theorem Pulled.backOff (pulled : Pulled targetMs low calls c.observationsSinceDecrease)
    (tuned : c.Tuned targetMs low high) (floor : 0 < low) :
    Pulled targetMs low (calls ++ [(c, .backOff)]) c.backOff.observationsSinceDecrease := by
  have above := tuned.floor
  have less : c.backOff.cap ≤ c.cap := by
    unfold ItlController.backOff decreaseFactor
    rw [tuned.minCap]
    refine max_le ?_ above
    linarith
  exact pulled.concat (not_startsOver rfl less id) le_rfl

theorem pulled_of_run (positive : 0 < targetMs) (floor : 0 < low) (order : low ≤ high) (initialCap : ℚ)
    {ops : List ControllerOp} (running : ∀ itlMs concurrency, .observe itlMs concurrency ∈ ops → 1 ≤ concurrency) :
    Pulled targetMs low (trail apply (new targetMs initialCap low high) ops)
      (ops.foldl apply (new targetMs initialCap low high)).observationsSinceDecrease := by
  induction ops using List.reverseRecOn with
  | nil => exact pulled_zero _
  | append_singleton ops op ih =>
    have tuned := tuned_of_run positive initialCap floor order ops
    have pulled := ih fun itlMs concurrency member => running itlMs concurrency (List.mem_append_left _ member)
    rw [Machine.trail_concat, List.foldl_concat]
    cases op with
    | observe itlMs concurrency =>
      have busy := running itlMs concurrency (List.mem_append_right _ (List.mem_singleton_self _))
      exact pulled.observe tuned positive floor itlMs busy
    | backOff => exact pulled.backOff tuned floor

/-- The flag is set by a call that backs off to the floor, or by one that has a whole window behind it. -/
theorem Exit.givesUp {itlMs : Millis} {concurrency : ℕ} {after : ItlController} (exit : c.Exit itlMs concurrency after)
    (unset : c.concurrencyNotBinding = false) (set : after.concurrencyNotBinding = true) :
    c.BacksOffToFloor itlMs concurrency ∨ probeWindow ≤ c.observationsSinceDecrease + 1 := by
  have stays : (c.smooth itlMs).concurrencyNotBinding ≠ true := (unset.trans_ne Bool.false_ne_true : _)
  cases exit with
  | warmUp => exact absurd set stays
  | held => exact absurd set stays
  | futile _ _ window => exact .inr window
  | floored _ _ floor => exact .inl floor
  | stepDown => exact absurd set stays
  | stepUp => cases set
  | cleared => cases set
  | kept => exact absurd set stays

/-- A controller gives up only in a call that itself backed off to within a hundredth of the floor, or when, since the
cap last rose and the flag was last cleared, fourteen earlier observations above the high water mark each left the
cap a tenth under what was running. -/
theorem gives_up_after_backing_off (positive : 0 < targetMs) (floor : 0 < low) (order : low ≤ high) (initialCap : ℚ)
    (ops : List ControllerOp) (running : ∀ itlMs concurrency, .observe itlMs concurrency ∈ ops → 1 ≤ concurrency)
    (itlMs : Millis) (concurrency : ℕ)
    (unset : (ops.foldl apply (new targetMs initialCap low high)).concurrencyNotBinding = false)
    (set :
      ((ops.foldl apply (new targetMs initialCap low high)).observe itlMs concurrency).concurrencyNotBinding = true) :
    (ops.foldl apply (new targetMs initialCap low high)).BacksOffToFloor itlMs concurrency ∨
      ∃ old recent, trail apply (new targetMs initialCap low high) ops = old ++ recent ∧
        (∀ call ∈ recent, ¬StartsOver call) ∧ 14 ≤ recent.countP fun call => PullsLever targetMs low call := by
  have tuned := tuned_of_run positive initialCap floor order ops
  have exit := observe_exit (tuned.steers positive) itlMs concurrency
  refine (exit.givesUp unset set).imp_right fun window => ?_
  obtain ⟨old, recent, split, quiet, counted⟩ := pulled_of_run positive floor order initialCap running
  rw [probeWindow] at window
  exact ⟨old, recent, split, quiet, by omega⟩

/-- The warm-up and fourteen more steps, all five times over the target, with a hundred running. -/
def overloadedRun : List ControllerOp := .replicate 21 (.observe 100 100)

theorem overloadedRun_pulled :
    let start := new 20 1000 1 1000
    ((overloadedRun.foldl apply start).observe 100 100).concurrencyNotBinding = true ∧
      ∃ old recent, trail apply start overloadedRun = old ++ recent ∧ (∀ call ∈ recent, ¬StartsOver call) ∧
        14 ≤ recent.countP fun call => PullsLever 20 1 call := by
  intro start
  have running : ∀ itlMs concurrency, .observe itlMs concurrency ∈ overloadedRun → 1 ≤ concurrency := by
    intro itlMs concurrency member
    cases List.eq_of_mem_replicate member
    decide
  have set : ((overloadedRun.foldl apply start).observe 100 100).concurrencyNotBinding = true := by decide +kernel
  have evidence := @gives_up_after_backing_off 20 1 1000 (by decide) (by decide) (by decide) 1000 overloadedRun running
    100 100 (by decide +kernel) set
  refine ⟨set, evidence.resolve_left ?_⟩
  unfold BacksOffToFloor
  decide +kernel

end TrtLlm.Sched.ItlController
