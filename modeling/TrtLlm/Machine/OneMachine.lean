import Mathlib.Algebra.BigOperators.Group.Multiset.Basic
import Mathlib.Algebra.Order.BigOperators.Group.Multiset
import Mathlib.Algebra.Order.Field.Basic
import Mathlib.Tactic.Linarith

/-! # Deadlines on one machine

Jobs with a service time and a deadline run back to back. Whether some order finishes all of them in time is a matter
of the work due by each instant, so it does not depend on the order, and going by deadline is as good as any
order. A largest set of jobs that can be on time is found by taking the jobs by deadline and giving up the longest one
whenever the last does not fit: no on-time set has more jobs, and none as large has less work.
-/

namespace Machine

variable {J K : Type*} [Field K] {service deadline : J → K} {now instant : K} {job : J} {order : List J}
  {jobs part seen accepted : Multiset J}

/-- The time a set of jobs takes. -/
def work (service : J → K) (jobs : Multiset J) : K := (jobs.map service).sum

@[simp]
theorem work_zero : work service 0 = 0 := rfl

@[simp]
theorem work_cons (job : J) (jobs : Multiset J) : work service (job ::ₘ jobs) = service job + work service jobs := by
  simp [work]

theorem work_add (jobs part : Multiset J) : work service (jobs + part) = work service jobs + work service part := by
  simp [work]

section Deadlines

variable [LinearOrder K] (service deadline)

/-- The jobs run in this order from `now`, and each finishes by its deadline. -/
def OnTime (now : K) : List J → Prop
  | [] => True
  | job :: jobs => now + service job ≤ deadline job ∧ OnTime (now + service job) jobs

/-- The time taken by the jobs due by an instant. -/
def workDue (jobs : Multiset J) (instant : K) : K := work service (jobs.filter fun job => deadline job ≤ instant)

/-- By every instant at which something is due, all that is due can be done. -/
def Feasible (now : K) (jobs : Multiset J) : Prop :=
  ∀ instant, (∃ job ∈ jobs, deadline job ≤ instant) → now + workDue service deadline jobs instant ≤ instant

/-- Every feasible part of what was seen has a counterpart of its size, and no more work, in what was accepted. -/
structure Selected (now : K) (seen accepted : Multiset J) : Prop where
  within : accepted ≤ seen
  feasible : Feasible service deadline now accepted
  covers : ∀ part ≤ seen, Feasible service deadline now part →
    ∃ chosen ≤ accepted, chosen.card = part.card ∧ work service chosen ≤ work service part

variable {service deadline}

theorem workDue_of_forall_le (due : ∀ job ∈ jobs, deadline job ≤ instant) :
    workDue service deadline jobs instant = work service jobs := by
  rw [workDue, Multiset.filter_eq_self.mpr due]

theorem workDue_cons_of_le (due : deadline job ≤ instant) :
    workDue service deadline (job ::ₘ jobs) instant = service job + workDue service deadline jobs instant := by
  simp [workDue, due]

theorem workDue_cons_of_lt (later : instant < deadline job) :
    workDue service deadline (job ::ₘ jobs) instant = workDue service deadline jobs instant := by
  simp [workDue, later.not_ge]

theorem onTime_append (before after : List J) :
    OnTime service deadline now (before ++ after) ↔
      OnTime service deadline now before ∧ OnTime service deadline (now + work service before) after := by
  induction before generalizing now with
  | nil => simp [OnTime]
  | cons job before ih =>
    rw [List.cons_append, OnTime, OnTime, ih, and_assoc, ← Multiset.cons_coe, work_cons, add_assoc]

theorem selected_zero : Selected service deadline now 0 0 where
  within := le_rfl
  feasible _ some := absurd some.choose_spec.1 (Multiset.notMem_zero _)
  covers part empty _ := ⟨part, empty, rfl, le_rfl⟩

theorem Selected.deadline_le (selected : Selected service deadline now seen accepted)
    (latest : ∀ other ∈ seen, deadline other ≤ instant) : ∀ other ∈ accepted, deadline other ≤ instant :=
  fun other member => latest other (Multiset.mem_of_le selected.within member)

/-- What was accepted can be done by any instant by which all of it is due. -/
theorem Selected.clock_le (selected : Selected service deadline now seen accepted)
    (latest : ∀ other ∈ seen, deadline other ≤ instant) (some : accepted ≠ 0) :
    now + work service accepted ≤ instant := by
  obtain ⟨other, member⟩ := Multiset.exists_mem_of_ne_zero some
  have due := selected.deadline_le latest
  rw [← workDue_of_forall_le due]
  exact selected.feasible instant ⟨other, member, due other member⟩

end Deadlines

variable [LinearOrder K] [IsStrictOrderedRing K]

theorem work_nonneg (nonneg : ∀ job ∈ jobs, 0 ≤ service job) : 0 ≤ work service jobs := by
  refine Multiset.sum_nonneg fun time member => ?_
  obtain ⟨job, inside, rfl⟩ := Multiset.mem_map.mp member
  exact nonneg job inside

theorem work_le_of_le (within : part ≤ jobs) (nonneg : ∀ job ∈ jobs, 0 ≤ service job) :
    work service part ≤ work service jobs := by
  obtain ⟨rest, rfl⟩ := Multiset.le_iff_exists_add.mp within
  have more := work_nonneg fun job member => nonneg job (Multiset.mem_add.mpr (.inr member))
  rw [work_add]
  linarith

theorem Feasible.mono (feasible : Feasible service deadline now jobs) (within : part ≤ jobs)
    (nonneg : ∀ job ∈ jobs, 0 ≤ service job) : Feasible service deadline now part := by
  rintro instant ⟨job, member, due⟩
  have all := feasible instant ⟨job, Multiset.mem_of_le within member, due⟩
  have less : workDue service deadline part instant ≤ workDue service deadline jobs instant :=
    work_le_of_le (Multiset.filter_le_filter _ within) fun job member => nonneg job (Multiset.mem_of_mem_filter member)
  linarith

/-! ### Orders -/

/-- Whatever the order, a job due by an instant finishes after all the others due by then that ran before it. -/
theorem OnTime.feasible (onTime : OnTime service deadline now order) (nonneg : ∀ job ∈ order, 0 ≤ service job) :
    Feasible service deadline now order := by
  induction order generalizing now with
  | nil =>
    rintro instant ⟨job, member, -⟩
    exact absurd member (Multiset.notMem_zero job)
  | cons job order ih =>
    have positive := nonneg job (.head _)
    have rest := ih onTime.2 fun other member => nonneg other (.tail _ member)
    intro instant some
    rw [← Multiset.cons_coe]
    by_cases later : ∃ other ∈ order, deadline other ≤ instant
    · have due := rest instant later
      by_cases here : deadline job ≤ instant
      · rw [workDue_cons_of_le here]
        linarith
      · rw [workDue_cons_of_lt (not_le.mp here)]
        linarith
    · have here : deadline job ≤ instant := by
        obtain ⟨other, member, due⟩ := some
        rcases List.mem_cons.mp (Multiset.mem_coe.mp member) with rfl | tail
        · exact due
        · exact absurd ⟨other, tail, due⟩ later
      have nothing : (order : Multiset J).filter (fun other => deadline other ≤ instant) = 0 :=
        Multiset.filter_eq_nil.mpr fun other member due => later ⟨other, Multiset.mem_coe.mp member, due⟩
      rw [workDue_cons_of_le here, workDue, nothing, work_zero, add_zero]
      exact onTime.1.trans here

/-- By deadline, what is feasible is on time. -/
theorem Feasible.onTime (feasible : Feasible service deadline now order)
    (sorted : order.Pairwise fun a b => deadline a ≤ deadline b) (nonneg : ∀ job ∈ order, 0 ≤ service job) :
    OnTime service deadline now order := by
  induction order using List.reverseRecOn with
  | nil => trivial
  | append_singleton order last ih =>
    obtain ⟨front, -, ahead⟩ := List.pairwise_append.mp sorted
    have within : (order : Multiset J) ≤ (order ++ [last] : List J) :=
      Multiset.coe_le.mpr (List.sublist_append_left _ _).subperm
    have due : ∀ job ∈ ((order ++ [last] : List J) : Multiset J), deadline job ≤ deadline last := by
      intro job member
      rcases List.mem_append.mp (Multiset.mem_coe.mp member) with before | same
      · exact ahead job before last (.head _)
      · rw [List.mem_singleton.mp same]
    have total := feasible (deadline last) ⟨last, Multiset.mem_coe.mpr (by simp), le_rfl⟩
    rw [workDue_of_forall_le due, ← Multiset.coe_add, work_add, Multiset.coe_singleton, ← Multiset.cons_zero,
      work_cons, work_zero, add_zero, ← add_assoc] at total
    refine (onTime_append _ _).mpr ⟨ih (feasible.mono within nonneg) front fun job member => ?_, total, trivial⟩
    exact nonneg job (List.mem_append_left _ member)

/-! ### Taking jobs by deadline -/

variable {removed : J}

/-- A feasible part of what was seen and one more job has a counterpart among what was accepted and that job. -/
theorem Selected.covers_cons (selected : Selected service deadline now seen accepted) (job : J)
    (nonneg : ∀ other ∈ job ::ₘ seen, 0 ≤ service other) (within : part ≤ job ::ₘ seen)
    (feasible : Feasible service deadline now part) :
    ∃ chosen ≤ job ::ₘ accepted, chosen.card = part.card ∧ work service chosen ≤ work service part := by
  by_cases member : job ∈ part
  · obtain ⟨rest, rfl⟩ := Multiset.exists_cons_of_mem member
    have smaller : Feasible service deadline now rest :=
      feasible.mono (Multiset.le_cons_self _ _) fun other inside => nonneg other (Multiset.mem_of_le within inside)
    obtain ⟨chosen, less, card, total⟩ := selected.covers rest ((Multiset.cons_le_cons_iff _).mp within) smaller
    refine ⟨job ::ₘ chosen, (Multiset.cons_le_cons_iff _).mpr less, ?_, ?_⟩
    · rw [Multiset.card_cons, Multiset.card_cons, card]
    · rw [work_cons, work_cons]
      linarith
  · obtain ⟨chosen, less, card, total⟩ := selected.covers part ((Multiset.le_cons_of_notMem member).mp within) feasible
    exact ⟨chosen, less.trans (Multiset.le_cons_self _ _), card, total⟩

/-- A job that fits behind all that was accepted is accepted. -/
theorem Selected.accept (selected : Selected service deadline now seen accepted)
    (nonneg : ∀ other ∈ job ::ₘ seen, 0 ≤ service other) (latest : ∀ other ∈ seen, deadline other ≤ deadline job)
    (fits : now + work service accepted + service job ≤ deadline job) :
    Selected service deadline now (job ::ₘ seen) (job ::ₘ accepted) where
  within := (Multiset.cons_le_cons_iff _).mpr selected.within
  feasible := by
    rintro instant ⟨other, member, due⟩
    by_cases here : deadline job ≤ instant
    · have all := selected.deadline_le fun other inside => (latest other inside).trans here
      rw [workDue_cons_of_le here, workDue_of_forall_le all]
      linarith
    · rw [workDue_cons_of_lt (not_le.mp here)]
      refine selected.feasible instant ⟨other, (Multiset.mem_cons.mp member).resolve_left ?_, due⟩
      rintro rfl
      exact here due
  covers _ within feasible := selected.covers_cons job nonneg within feasible

variable [DecidableEq J]

/-- Removing a job from a set that leaves another one out costs nothing if it is the longest. -/
theorem exists_exchange {chosen : Multiset J} (within : chosen ≤ jobs) (proper : chosen ≠ jobs)
    (longest : ∀ job ∈ jobs, service job ≤ service removed) :
    ∃ other ≤ jobs.erase removed, other.card = chosen.card ∧ work service other ≤ work service chosen := by
  by_cases member : removed ∈ chosen
  · obtain ⟨rest, rfl⟩ := Multiset.le_iff_exists_add.mp within
    have spare : rest ≠ 0 := fun empty => proper (by rw [empty, add_zero])
    obtain ⟨job, left⟩ := Multiset.exists_mem_of_ne_zero spare
    obtain ⟨chosen, rfl⟩ := Multiset.exists_cons_of_mem member
    refine ⟨job ::ₘ chosen, ?_, by rw [Multiset.card_cons, Multiset.card_cons], ?_⟩
    · rw [Multiset.cons_add, Multiset.erase_cons_head, ← Multiset.singleton_add, add_comm]
      exact add_le_add_right (Multiset.singleton_le.mpr left) _
    · have shorter := longest job (Multiset.mem_add.mpr (.inr left))
      rw [work_cons, work_cons]
      linarith
  · refine ⟨chosen, ?_, rfl, le_rfl⟩
    rw [← Multiset.erase_of_notMem member]
    exact Multiset.erase_le_erase _ within

/-- When the job does not fit, a longest one leaves. -/
theorem Selected.evict (selected : Selected service deadline now seen accepted)
    (nonneg : ∀ other ∈ job ::ₘ seen, 0 ≤ service other) (latest : ∀ other ∈ seen, deadline other ≤ deadline job)
    (late : deadline job < now + work service accepted + service job) (member : removed ∈ job ::ₘ accepted)
    (longest : ∀ other ∈ job ::ₘ accepted, service other ≤ service removed) :
    Selected service deadline now (job ::ₘ seen) ((job ::ₘ accepted).erase removed) where
  within := (Multiset.erase_le _ _).trans ((Multiset.cons_le_cons_iff _).mpr selected.within)
  feasible := by
    have total : service removed + work service ((job ::ₘ accepted).erase removed) =
        service job + work service accepted := by
      rw [← work_cons, Multiset.cons_erase member, work_cons]
    rintro instant ⟨other, kept, due⟩
    have inside := Multiset.mem_cons.mp (Multiset.mem_of_mem_erase kept)
    by_cases here : deadline job ≤ instant
    · have some : accepted ≠ 0 := by
        rintro rfl
        rw [Multiset.cons_zero, Multiset.mem_singleton] at member
        rw [member, Multiset.erase_cons_head] at kept
        exact absurd kept (Multiset.notMem_zero other)
      have early := selected.clock_le (fun other before => (latest other before).trans here) some
      have all : ∀ left ∈ (job ::ₘ accepted).erase removed, deadline left ≤ instant := by
        intro left stays
        rcases Multiset.mem_cons.mp (Multiset.mem_of_mem_erase stays) with rfl | before
        · exact here
        · exact selected.deadline_le (fun other before => (latest other before).trans here) left before
      have longer := longest job (Multiset.mem_cons_self _ _)
      rw [workDue_of_forall_le all]
      linarith
    · have before := inside.resolve_left fun same => here (same ▸ due)
      have early := selected.feasible instant ⟨other, before, due⟩
      have less : workDue service deadline ((job ::ₘ accepted).erase removed) instant ≤
          workDue service deadline (job ::ₘ accepted) instant := by
        refine work_le_of_le (Multiset.filter_le_filter _ (Multiset.erase_le _ _)) fun left stays => nonneg left ?_
        exact Multiset.mem_of_le ((Multiset.cons_le_cons_iff _).mpr selected.within) (Multiset.mem_of_mem_filter stays)
      rw [workDue_cons_of_lt (not_le.mp here)] at less
      linarith
  covers part within feasible := by
    obtain ⟨chosen, less, card, total⟩ := selected.covers_cons job nonneg within feasible
    have proper : chosen ≠ job ::ₘ accepted := by
      rintro rfl
      -- A set as large as this one is not empty, so its work is done by the last deadline, which this one misses.
      have some : part ≠ 0 := by
        rintro rfl
        simp at card
      obtain ⟨other, inside⟩ := Multiset.exists_mem_of_ne_zero some
      have due : ∀ other ∈ part, deadline other ≤ deadline job := by
        intro other inside
        rcases Multiset.mem_cons.mp (Multiset.mem_of_le within inside) with rfl | before
        · exact le_rfl
        · exact latest other before
      have early := feasible (deadline job) ⟨other, inside, due other inside⟩
      rw [workDue_of_forall_le due] at early
      rw [work_cons] at total
      linarith
    obtain ⟨other, inside, same, smaller⟩ := exists_exchange less proper longest
    exact ⟨other, inside, same.trans card, smaller.trans total⟩

end Machine
