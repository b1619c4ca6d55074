import Mathlib.Algebra.BigOperators.Group.List.Basic
import Mathlib.Tactic.Linarith
import TrtLlm.Soundness.PrefillPlan

/-! # When Moore-Hodgson accepts anything

The walk goes through the jobs by deadline. While it has accepted real work, its clock is within every deadline
still to come, so it never gives all of it up again; and a job that would be on time if it ran alone is
accepted when nothing else has been. Jobs without work count for nothing.
-/

namespace TrtLlm.Sched

/-- Jobs with something to do. -/
def Job.Works (job : Job) : Prop := 0 < job.serviceMs

instance : DecidablePred Job.Works := fun job => inferInstanceAs (Decidable (0 < job.serviceMs))

/-- The job would finish in time if it ran alone from `now`. -/
def Job.Feasible (now : Millis) (job : Job) : Prop := now + job.serviceMs ≤ job.deadlineMs

theorem longest_ne_none {jobs : List Job} (nonempty : jobs ≠ []) : longest jobs ≠ none := by
  cases jobs with
  | nil => exact absurd rfl nonempty
  | cons job jobs =>
    rw [longest]
    cases longest jobs with
    | none => simp
    | some best =>
      simp only
      split <;> simp

theorem longest_max {jobs : List Job} {i : ℕ} {best : Job} (found : longest jobs = some (i, best)) :
    ∀ job ∈ jobs, job.evictionKey ≤ best.evictionKey := by
  induction jobs generalizing i best with
  | nil => cases found
  | cons first jobs ih =>
    rw [longest] at found
    cases rest : longest jobs with
    | none =>
      have empty : jobs = [] := by
        by_contra nonempty
        exact longest_ne_none nonempty rest
      rw [rest] at found
      obtain ⟨-, rfl⟩ := Prod.mk.inj (Option.some.inj found)
      simp [empty]
    | some last =>
      obtain ⟨k, later⟩ := last
      rw [rest] at found
      simp only at found
      split at found
      next behind =>
        obtain ⟨-, rfl⟩ := Prod.mk.inj (Option.some.inj found)
        intro job member
        rcases List.mem_cons.mp member with rfl | inside
        · exact behind
        · exact ih rest job inside
      next ahead =>
        obtain ⟨-, rfl⟩ := Prod.mk.inj (Option.some.inj found)
        intro job member
        rcases List.mem_cons.mp member with rfl | inside
        · exact le_rfl
        · exact (ih rest job inside).trans (not_le.mp ahead).le

theorem service_le_of_evictionKey {a b : Job} (le : a.evictionKey ≤ b.evictionKey) : a.serviceMs ≤ b.serviceMs := by
  rcases Prod.Lex.toLex_le_toLex.mp le with less | ⟨same, _⟩
  · exact less.le
  · exact same.le

theorem deadline_le_of_deadlineLe {a b : Job} (le : a.deadlineLe b) : a.deadlineMs ≤ b.deadlineMs := by
  rcases Prod.Lex.toLex_le_toLex.mp le with less | ⟨same, _⟩
  · exact less.le
  · exact same.le

theorem sorted_by_deadline (jobs : List Job) :
    (jobs.insertionSort Job.deadlineLe).Pairwise fun a b => a.deadlineMs ≤ b.deadlineMs := by
  have total : Std.Total Job.deadlineLe := ⟨fun a b => le_total _ _⟩
  have trans : IsTrans Job Job.deadlineLe := ⟨fun a b c => le_trans⟩
  exact (List.pairwise_insertionSort Job.deadlineLe jobs).imp deadline_le_of_deadlineLe

/-- What one visit does: the job fits, or the longest job accepted so far, which may be the new one, leaves. -/
theorem Walk.visit_cases (walk : Walk) (job : Job) :
    (walk.clock + job.serviceMs ≤ job.deadlineMs ∧
      walk.visit job = ⟨walk.accepted ++ [job], walk.demoted, walk.clock + job.serviceMs⟩) ∨
    ∃ removed kept, job.deadlineMs < walk.clock + job.serviceMs ∧
      (removed :: kept).Perm (walk.accepted ++ [job]) ∧
      (∀ other ∈ walk.accepted ++ [job], other.serviceMs ≤ removed.serviceMs) ∧
      walk.visit job = ⟨kept, walk.demoted ++ [removed], walk.clock + job.serviceMs - removed.serviceMs⟩ := by
  unfold Walk.visit
  simp only
  split
  next late =>
    cases found : longest (walk.accepted ++ [job]) with
    | none => exact absurd found (longest_ne_none (List.append_ne_nil_of_right_ne_nil _ (List.cons_ne_nil _ _)))
    | some best =>
      obtain ⟨victim, removed⟩ := best
      obtain ⟨inside, value⟩ := List.getElem?_eq_some_iff.mp (longest_getElem found)
      refine .inr ⟨removed, (walk.accepted ++ [job]).eraseIdx victim, late, ?_, ?_, rfl⟩
      · rw [← value]
        exact List.getElem_cons_eraseIdx_perm inside
      · exact fun other member => service_le_of_evictionKey (longest_max found other member)
  next early => exact .inl ⟨not_lt.mp early, rfl⟩

/-- The state of the walk before a list of jobs: its clock books the accepted work, and once there is real work
among it, the clock is within every deadline to come. -/
structure Walk.Timely (now : Millis) (walk : Walk) (jobs : List Job) : Prop where
  clock : walk.clock = now + (walk.accepted.map (·.serviceMs)).sum
  service : ∀ job ∈ walk.accepted, 0 ≤ job.serviceMs
  ahead : (∃ job ∈ walk.accepted, job.Works) → ∀ job ∈ jobs, walk.clock ≤ job.deadlineMs

theorem sum_service_eq_zero {jobs : List Job} (service : ∀ job ∈ jobs, 0 ≤ job.serviceMs)
    (idle : ¬∃ job ∈ jobs, job.Works) : (jobs.map (·.serviceMs)).sum = 0 := by
  refine List.sum_eq_zero fun ms member => ?_
  obtain ⟨job, inside, rfl⟩ := List.mem_map.mp member
  exact le_antisymm (not_lt.mp fun works => idle ⟨job, inside, works⟩) (service job inside)

/-- Real work is accepted exactly when it was before, or when the visited job is feasible alone. -/
theorem Walk.Timely.visit {now : Millis} {walk : Walk} {job : Job} {jobs : List Job}
    (timely : walk.Timely now (job :: jobs)) (service : 0 ≤ job.serviceMs)
    (sorted : ∀ later ∈ jobs, job.deadlineMs ≤ later.deadlineMs) :
    (walk.visit job).Timely now jobs ∧ ((∃ other ∈ (walk.visit job).accepted, other.Works) ↔
      (∃ other ∈ walk.accepted, other.Works) ∨ job.Works ∧ job.Feasible now) := by
  have all : ∀ other ∈ walk.accepted ++ [job], 0 ≤ other.serviceMs := by
    intro other member
    rcases List.mem_append.mp member with before | last
    · exact timely.service other before
    · rw [List.mem_singleton.mp last]
      exact service
  have works : (∃ other ∈ walk.accepted ++ [job], other.Works) ↔ (∃ other ∈ walk.accepted, other.Works) ∨ job.Works := by
    simp [or_and_right, exists_or]
  rcases walk.visit_cases job with ⟨fits, after⟩ | ⟨removed, kept, late, dealt, longest, after⟩
  · rw [after]
    refine ⟨⟨?_, all, fun _ later member => fits.trans (sorted later member)⟩, ?_⟩
    · simp only [List.map_append, List.sum_append, List.map_singleton, List.sum_singleton]
      rw [timely.clock, add_assoc]
    · refine works.trans ⟨?_, fun either => either.imp_right And.left⟩
      rintro (before | real)
      · exact .inl before
      · by_cases before : ∃ other ∈ walk.accepted, other.Works
        · exact .inl before
        · refine .inr ⟨real, ?_⟩
          rw [timely.clock, sum_service_eq_zero timely.service before, add_zero] at fits
          exact fits
  · rw [after]
    have total : removed.serviceMs + (kept.map (·.serviceMs)).sum =
        (walk.accepted.map (·.serviceMs)).sum + job.serviceMs := by
      have sums := (dealt.map (·.serviceMs)).sum_eq
      simpa using sums
    have counts : kept.countP (·.Works) + (if removed.Works then 1 else 0) =
        walk.accepted.countP (·.Works) + (if job.Works then 1 else 0) := by
      have both := dealt.countP_eq (·.Works)
      simpa [List.countP_cons, List.countP_append] using both
    have longer : job.Works → removed.Works := fun real =>
      lt_of_lt_of_le real (longest job (List.mem_append_right _ (.head _)))
    have some_works : ∀ list : List Job, (∃ other ∈ list, other.Works) ↔ 0 < list.countP (·.Works) := by
      intro list
      simp [List.countP_pos_iff]
    have timing : walk.clock + job.serviceMs - removed.serviceMs = now + (kept.map (·.serviceMs)).sum := by
      rw [timely.clock]
      linarith
    have kept_service : ∀ other ∈ kept, 0 ≤ other.serviceMs := fun other member =>
      all other (dealt.mem_iff.mp (.tail _ member))
    by_cases before : ∃ other ∈ walk.accepted, other.Works
    · -- The clock was within this deadline, so the new job brought real work, and one of at least two jobs leaves.
      have within := timely.ahead before
      have real : job.Works := by
        have bound := within job (.head _)
        change 0 < job.serviceMs
        linarith
      have stays : ∃ other ∈ kept, other.Works := by
        rw [some_works] at before ⊢
        rw [if_pos real, if_pos (longer real)] at counts
        omega
      refine ⟨⟨timing, kept_service, fun _ later member => ?_⟩, iff_of_true stays (.inl before)⟩
      have bound := within later (.tail _ member)
      have shorter := longest job (List.mem_append_right _ (.head _))
      change walk.clock + job.serviceMs - removed.serviceMs ≤ _
      linarith
    · have none : ¬∃ other ∈ kept, other.Works := by
        rw [some_works] at before ⊢
        by_cases real : job.Works
        · rw [if_pos real, if_pos (longer real)] at counts
          omega
        · rw [if_neg real] at counts
          omega
      refine ⟨⟨timing, kept_service, fun some => absurd some none⟩, iff_of_false none ?_⟩
      rintro (some | ⟨_, alone⟩)
      · exact before some
      · rw [timely.clock, sum_service_eq_zero timely.service before, add_zero] at late
        exact absurd alone (not_le.mpr late)

end TrtLlm.Sched
