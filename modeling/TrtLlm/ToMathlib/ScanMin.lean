import Mathlib.Algebra.Order.Group.Defs
import Mathlib.Data.List.Induction
import Mathlib.Data.List.Pairwise
import Mathlib.Tactic.Linarith

/-! # Scans with a running best

A scan keeps one item and replaces it whenever a later one is better. Comparing up to a tolerance is not transitive;
a scan that only replaces what a later item undercuts by more than the tolerance still ends below everything before its
choice and within one tolerance of everything after it. A scan for a maximum in a total preorder ends at one.
-/

namespace List

variable {α K : Type*}

section Tolerance

variable [Field K] [LinearOrder K] [IsStrictOrderedRing K] {tolerance : K} {value : α → K} {better : α → α → Bool}

/-- Where a scan stands: its choice undercuts all that came before it, and nothing since undercut it by more than the
tolerance. -/
structure Scanned (tolerance : K) (value : α → K) (items : List α) (best : α) : Prop where
  split : ∃ before after, items = before ++ best :: after ∧ (∀ item ∈ before, value best < value item) ∧
    ∀ item ∈ after, value best ≤ value item + tolerance

theorem Scanned.concat {items : List α} {best item : α} (nonneg : 0 ≤ tolerance)
    (scanned : Scanned tolerance value items best)
    (replaces : better item best = true ↔ value item < value best - tolerance) :
    Scanned tolerance value (items ++ [item]) (if better item best then item else best) := by
  obtain ⟨before, after, rfl, below, within⟩ := scanned.split
  split
  next replaced =>
    have undercut := replaces.mp replaced
    refine ⟨before ++ best :: after, [], rfl, fun other member => ?_, by simp⟩
    rcases mem_append.mp member with earlier | later
    · linarith [below other earlier]
    · rcases mem_cons.mp later with rfl | later
      · linarith
      · linarith [within other later]
  next kept =>
    have close := not_lt.mp fun undercut => kept (replaces.mpr undercut)
    refine ⟨before, after ++ [item], by simp, below, fun other member => ?_⟩
    rcases mem_append.mp member with earlier | last
    · exact within other earlier
    · rw [mem_singleton.mp last]
      linarith

/-- The scan of a list in which every later item is better exactly when it undercuts by more than the tolerance. -/
theorem scanned_foldl (nonneg : 0 ≤ tolerance) (first : α) (items : List α)
    (replaces : (first :: items).Pairwise fun earlier later =>
      (better later earlier = true ↔ value later < value earlier - tolerance)) :
    Scanned tolerance value (first :: items)
      (items.foldl (fun best item => if better item best then item else best) first) := by
  induction items using List.reverseRecOn with
  | nil => exact ⟨[], [], rfl, by simp, by simp⟩
  | append_singleton items item ih =>
    rw [← cons_append, pairwise_append] at replaces
    have scanned := ih replaces.1
    rw [foldl_append]
    refine scanned.concat nonneg (replaces.2.2 _ ?_ item (mem_singleton_self item))
    obtain ⟨before, after, same, -⟩ := scanned.split
    rw [same]
    exact mem_append_right _ (mem_cons_self ..)

/-- The choice is within the tolerance of every item. -/
theorem Scanned.le {items : List α} {best : α} (nonneg : 0 ≤ tolerance) (scanned : Scanned tolerance value items best)
    {item : α} (member : item ∈ items) : value best ≤ value item + tolerance := by
  obtain ⟨before, after, rfl, below, within⟩ := scanned.split
  rcases mem_append.mp member with earlier | later
  · linarith [below item earlier]
  · rcases mem_cons.mp later with rfl | later
    · linarith
    · exact within item later

end Tolerance

/-- A scan that replaces its choice by everything at least as large ends at a largest item. -/
theorem le_foldl_of_total {le : α → α → Prop} [DecidableRel le] [IsTrans α le] [Std.Total le] (first : α)
    (items : List α) :
    ∀ item ∈ first :: items, le item (items.foldl (fun best item => if le best item then item else best) first) := by
  induction items generalizing first with
  | nil =>
    intro item member
    rw [mem_singleton.mp member]
    exact refl_of le first
  | cons next items ih =>
    rw [foldl_cons]
    have last := ih (if le first next then next else first)
    generalize foldl _ (if le first next then next else first) items = result at last ⊢
    have chosen := last _ (mem_cons_self ..)
    intro item member
    rcases mem_cons.mp member with rfl | member
    · split at chosen
      next ahead => exact trans_of le ahead chosen
      next => exact chosen
    · rcases mem_cons.mp member with rfl | member
      · split at chosen
        next => exact chosen
        next behind => exact trans_of le ((total_of le first item).resolve_left behind) chosen
      · exact last item (mem_cons_of_mem _ member)

end List
