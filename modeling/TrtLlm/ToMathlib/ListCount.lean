import Mathlib.Algebra.BigOperators.Group.Finset.Basic
import Mathlib.Algebra.Order.BigOperators.Group.Finset
import Mathlib.Data.List.AList
import Mathlib.Data.List.Count

/-! # Counting in unions of lists

How the multiplicity of an element changes when one member of a family of lists is replaced, its multiplicity
among the keys of a finite map, and what happens to it when a list is poured into a set.
-/

open scoped BigOperators in
/-- Replacing one member of a finite family changes a total by the difference at that member. -/
theorem Finset.sum_update_add {ι α : Type*} [Fintype ι] [DecidableEq ι] (f : α → ℕ) (g : ι → α) (i : ι) (a : α) :
    (∑ j, f (Function.update g i a j)) + f (g i) = (∑ j, f (g j)) + f a := by
  have others : ∑ j ∈ Finset.univ.erase i, f (Function.update g i a j) = ∑ j ∈ Finset.univ.erase i, f (g j) := by
    refine Finset.sum_congr rfl fun j member => ?_
    rw [Function.update_of_ne (Finset.ne_of_mem_erase member)]
  rw [← Finset.add_sum_erase Finset.univ (fun j => f (Function.update g i a j)) (Finset.mem_univ i),
    ← Finset.add_sum_erase Finset.univ (fun j => f (g j)) (Finset.mem_univ i), others, Function.update_self]
  omega

theorem List.count_flatMap_set {α β : Type*} [BEq β] (f : α → List β) (b : β) {xs : List α} {i : ℕ} {old : α}
    (found : xs[i]? = some old) (new : α) :
    ((xs.set i new).flatMap f).count b + (f old).count b = (xs.flatMap f).count b + (f new).count b := by
  induction xs generalizing i with
  | nil => cases found
  | cons x xs ih =>
    cases i with
    | zero =>
      obtain rfl := Option.some.inj found
      simp only [List.set_cons_zero, List.flatMap_cons, List.count_append]
      omega
    | succ i =>
      have rest := ih found
      simp only [List.set_cons_succ, List.flatMap_cons, List.count_append]
      omega

/-- A member of a list with one place replaced is the new one or sits at another place. -/
theorem List.eq_or_getElem?_of_mem_set {α : Type*} {xs : List α} {i : ℕ} {x y : α} (member : y ∈ xs.set i x) :
    y = x ∨ ∃ k ≠ i, xs[k]? = some y := by
  obtain ⟨k, found⟩ := List.mem_iff_getElem?.mp member
  by_cases same : k = i
  · subst same
    have bound := (List.getElem?_eq_some_iff.mp found).1
    rw [List.length_set] at bound
    rw [List.getElem?_set_self bound] at found
    exact .inl (Option.some.inj found).symm
  · rw [List.getElem?_set_ne (Ne.symm same)] at found
    exact .inr ⟨k, same, found⟩

theorem List.count_le_flatMap {α β : Type*} [BEq β] (f : α → List β) (b : β) {xs : List α} {i : ℕ} {x : α}
    (found : xs[i]? = some x) : (f x).count b ≤ (xs.flatMap f).count b := by
  induction xs generalizing i with
  | nil => cases found
  | cons first xs ih =>
    rw [List.flatMap_cons, List.count_append]
    cases i with
    | zero =>
      obtain rfl := Option.some.inj found
      omega
    | succ i =>
      have rest := ih found
      omega

theorem List.count_eq_ite_of_nodup {α : Type*} [DecidableEq α] {xs : List α} (distinct : xs.Nodup) (a : α) :
    xs.count a = if a ∈ xs then 1 else 0 := by
  split
  next member => exact List.count_eq_one_of_mem distinct member
  next absent => exact List.count_eq_zero.mpr absent

theorem AList.count_keys {α : Type*} {β : α → Type*} [DecidableEq α] (map : AList β) (a : α) :
    map.keys.count a = if a ∈ map then 1 else 0 := by
  rw [List.count_eq_ite_of_nodup map.keys_nodup a]
  exact if_congr AList.mem_keys.symm rfl rfl

/-- Adding an element to a set counts it at most once, and exactly once if it was not counted twice before. -/
theorem ite_or_count {p q : Prop} [Decidable p] [Decidable q] {n : ℕ} (member : p ↔ 0 < n ∨ q) :
    (if p then 1 else 0) ≤ n + (if q then 1 else 0) ∧
      (n + (if q then 1 else 0) ≤ 1 → (if p then 1 else 0) = n + (if q then 1 else 0)) := by
  by_cases inside : q
  · rw [if_pos inside, if_pos (member.mpr (.inr inside))]
    omega
  · rw [if_neg inside]
    split
    next present =>
      have positive := (member.mp present).resolve_right inside
      omega
    next absent =>
      have zero : ¬0 < n := fun positive => absent (member.mpr (.inl positive))
      omega
