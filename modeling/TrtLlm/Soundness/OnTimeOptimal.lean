import TrtLlm.Machine.OneMachine
import TrtLlm.Soundness.MooreHodgson

/-! # Moore-Hodgson keeps as many jobs on time as can be

The walk over the jobs is the selection of the one-machine library: it takes the jobs by deadline and gives up the
longest one when the last is late. Its clock is the work it has accepted, and it never reorders what it accepts.
-/

namespace TrtLlm.Sched

open Machine (OnTime Selected work)

variable {now : Millis} {job : Job} {done : List Job}

/-! ### The walk selects -/

theorem Walk.visit_accepted_sublist (walk : Walk) (job : Job) :
    (walk.visit job).accepted.Sublist (walk.accepted ++ [job]) := by
  unfold Walk.visit
  simp only
  split
  next =>
    cases longest (walk.accepted ++ [job]) with
    | none => exact List.Sublist.refl _
    | some best => exact List.eraseIdx_sublist _ _
  next => exact List.Sublist.refl _

/-- The walk has selected from the jobs visited so far, in their order, and its clock shows the selected work. -/
structure Walk.Selects (now : Millis) (done : List Job) (walk : Walk) : Prop where
  selected : Selected Job.serviceMs Job.deadlineMs now done walk.accepted
  clock : walk.clock = now + work Job.serviceMs walk.accepted
  sublist : walk.accepted.Sublist done

variable {walk : Walk}

theorem Walk.Selects.visit (selects : walk.Selects now done) (service : ∀ other ∈ done ++ [job], 0 ≤ other.serviceMs)
    (latest : ∀ other ∈ done, other.deadlineMs ≤ job.deadlineMs) : (walk.visit job).Selects now (done ++ [job]) := by
  have seen : ((done ++ [job] : List Job) : Multiset Job) = job ::ₘ (done : Multiset Job) := by
    rw [Multiset.cons_coe, Multiset.coe_eq_coe]
    exact List.perm_append_singleton _ _
  have offered : ((walk.accepted ++ [job] : List Job) : Multiset Job) = job ::ₘ (walk.accepted : Multiset Job) := by
    rw [Multiset.cons_coe, Multiset.coe_eq_coe]
    exact List.perm_append_singleton _ _
  have nonneg : ∀ other ∈ job ::ₘ (done : Multiset Job), 0 ≤ other.serviceMs := by
    rw [← seen]
    exact service
  have order := (walk.visit_accepted_sublist job).trans (selects.sublist.append_right [job])
  rcases walk.visit_cases job with ⟨fits, after⟩ | ⟨removed, kept, late, dealt, longest, after⟩
  · rw [selects.clock] at fits
    rw [after] at order ⊢
    refine ⟨?_, ?_, order⟩
    · rw [seen, offered]
      exact selects.selected.accept nonneg latest fits
    · rw [offered, Machine.work_cons, selects.clock, add_comm job.serviceMs, add_assoc]
  · have whole : removed ::ₘ (kept : Multiset Job) = job ::ₘ (walk.accepted : Multiset Job) := by
      rw [← offered, Multiset.cons_coe, Multiset.coe_eq_coe]
      exact dealt
    have left : (kept : Multiset Job) = (job ::ₘ (walk.accepted : Multiset Job)).erase removed := by
      rw [← whole, Multiset.erase_cons_head]
    rw [selects.clock] at late
    rw [after] at order ⊢
    refine ⟨?_, ?_, order⟩
    · rw [seen, left]
      refine selects.selected.evict nonneg latest late (whole ▸ Multiset.mem_cons_self _ _) fun other member => ?_
      exact longest other (Multiset.mem_coe.mp (offered ▸ member))
    · have total := congrArg (work Job.serviceMs) whole
      rw [Machine.work_cons, Machine.work_cons] at total
      rw [selects.clock]
      dsimp only
      linarith

theorem Walk.Selects.foldl {jobs : List Job} (selects : walk.Selects now done)
    (service : ∀ job ∈ done ++ jobs, 0 ≤ job.serviceMs)
    (sorted : (done ++ jobs).Pairwise fun a b => a.deadlineMs ≤ b.deadlineMs) :
    (jobs.foldl Walk.visit walk).Selects now (done ++ jobs) := by
  induction jobs generalizing walk done with
  | nil => rwa [List.append_nil]
  | cons job jobs ih =>
    have shift : done ++ job :: jobs = done ++ [job] ++ jobs := by simp
    rw [shift] at service sorted ⊢
    obtain ⟨front, -, -⟩ := List.pairwise_append.mp sorted
    have latest : ∀ other ∈ done, other.deadlineMs ≤ job.deadlineMs := fun other member =>
      (List.pairwise_append.mp front).2.2 other member job (.head _)
    exact ih (selects.visit (fun other member => service other (List.mem_append_left _ member)) latest) service sorted

/-- The whole walk over jobs without negative service times. -/
theorem selects_of_jobs (jobs : List Job) (now : Millis) (service : ∀ job ∈ jobs, 0 ≤ job.serviceMs) :
    ((jobs.insertionSort Job.deadlineLe).foldl Walk.visit ⟨[], [], now⟩).Selects now
      (jobs.insertionSort Job.deadlineLe) := by
  have start : Walk.Selects now [] ⟨[], [], now⟩ := ⟨Machine.selected_zero, by simp, List.Sublist.refl _⟩
  exact start.foldl (fun job member => service job ((List.mem_insertionSort _).mp member)) (sorted_by_deadline jobs)

/-- Moore-Hodgson deals every job out once, into two lists by deadline and id; the first can be run on time back to
back, and no selection of more jobs can be, in any order. -/
theorem mooreHodgson_optimal (now : Millis) (jobs : List Job) (distinct : (jobs.map (·.id)).Nodup)
    (service : ∀ job ∈ jobs, 0 ≤ job.serviceMs) :
    let ordering := orderJobs jobs now .mooreHodgson
    (ordering.onTime ++ ordering.demoted).Nodup ∧
      ∃ onTime demoted : List Job, ordering.onTime = onTime.map (·.id) ∧ ordering.demoted = demoted.map (·.id) ∧
        (onTime ++ demoted).Perm jobs ∧ onTime.Pairwise Job.deadlineLe ∧ demoted.Pairwise Job.deadlineLe ∧
        OnTime Job.serviceMs Job.deadlineMs now onTime ∧
        ∀ other, other.Subperm jobs → OnTime Job.serviceMs Job.deadlineMs now other → other.length ≤ onTime.length := by
  intro ordering
  have total : Std.Total Job.deadlineLe := ⟨fun a b => le_total _ _⟩
  have trans : IsTrans Job Job.deadlineLe := ⟨fun a b c => le_trans⟩
  have dealt := orderJobs_perm jobs now .mooreHodgson
  have selects := selects_of_jobs jobs now service
  have walked := walk_perm (jobs.insertionSort Job.deadlineLe) ⟨[], [], now⟩
  refine ⟨dealt.nodup_iff.mpr distinct, _, _, rfl, rfl, ?_, ?_, List.pairwise_insertionSort _ _, ?_, ?_⟩
  · refine ((List.perm_insertionSort _ _).append_left _).trans (walked.trans ?_)
    rw [List.append_nil, List.append_nil]
    exact List.perm_insertionSort _ _
  · exact (List.pairwise_insertionSort Job.deadlineLe jobs).sublist selects.sublist
  · refine selects.selected.feasible.onTime ?_ fun job member => service job ?_
    · exact (sorted_by_deadline jobs).sublist selects.sublist
    · exact (List.mem_insertionSort _).mp (selects.sublist.subset member)
  · intro other within onTime
    have early := onTime.feasible fun job member => service job (within.subset member)
    have seen : (other : Multiset Job) ≤ (jobs.insertionSort Job.deadlineLe : List Job) :=
      Multiset.coe_le.mpr (within.trans (List.perm_insertionSort _ jobs).symm.subperm)
    obtain ⟨chosen, less, card, -⟩ := selects.selected.covers other seen early
    rw [← Multiset.coe_card other, ← card]
    exact Multiset.card_le_card less

/-- The long first job is given up for the two that follow it. -/
def hogJobs : List Job := [⟨1, 0, 100, 90⟩, ⟨2, 0, 110, 20⟩, ⟨3, 0, 120, 20⟩]

theorem hogJobs_optimal :
    (orderJobs hogJobs 0 .mooreHodgson).onTime = [2, 3] ∧
      ∀ other, other.Subperm hogJobs → OnTime Job.serviceMs Job.deadlineMs 0 other → other.length ≤ 2 := by
  have kept : (orderJobs hogJobs 0 .mooreHodgson).onTime = [2, 3] := by decide +kernel
  obtain ⟨-, onTime, demoted, ids, -, -, -, -, -, most⟩ := mooreHodgson_optimal 0 hogJobs (by decide) (by decide)
  have two : onTime.length = 2 := by
    rw [← List.length_map (f := Job.id), ← ids, kept]
    rfl
  rw [two] at most
  exact ⟨kept, most⟩

end TrtLlm.Sched
