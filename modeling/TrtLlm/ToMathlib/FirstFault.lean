import Mathlib.Data.List.Basic

/-! # Checks that stop at the first fault

A check whose verdict is known in advance is `Except.checked`: it yields its value unless there is a fault. Sequences
of such checks are checks again, and their fault is the first one.
-/

namespace Except

universe u v

variable {ε : Type u} {α β : Type v}

/-- The value, unless there is a fault. -/
def checked (fault : Option ε) (value : α) : Except ε α :=
  match fault with
  | some fault => .error fault
  | none => .ok value

@[simp] theorem checked_none (value : α) : checked (none : Option ε) value = .ok value := rfl

theorem ok_bind (a : α) (f : α → Except ε β) : .ok a >>= f = f a := rfl

theorem bind_eq_ok {x : Except ε α} {f : α → Except ε β} {b : β} :
    x >>= f = .ok b ↔ ∃ a, x = .ok a ∧ f a = .ok b := by
  cases x with
  | error fault =>
    refine ⟨fun bound => ?_, ?_⟩
    · cases bound
    · rintro ⟨a, same, _⟩
      cases same
  | ok a =>
    refine ⟨fun bound => ⟨a, rfl, bound⟩, ?_⟩
    rintro ⟨a, same, applied⟩
    cases same
    exact applied

theorem map_eq_ok {x : Except ε α} {f : α → β} {b : β} : f <$> x = .ok b ↔ ∃ a, x = .ok a ∧ f a = b := by
  cases x with
  | error fault =>
    refine ⟨fun mapped => ?_, ?_⟩
    · cases mapped
    · rintro ⟨a, same, _⟩
      cases same
  | ok a =>
    refine ⟨fun mapped => ⟨a, rfl, Except.ok.inj mapped⟩, ?_⟩
    rintro ⟨a, same, applied⟩
    cases same
    exact congrArg Except.ok applied

/-- Two checks in a row. -/
theorem checked_bind (first second : Option ε) (a : α) (f : α → Except ε β) (b : β)
    (next : f a = checked second b) : checked first a >>= f = checked (first.or second) b := by
  cases first with
  | none => exact next
  | some fault => rfl

theorem map_checked (fault : Option ε) (f : α → β) (a : α) : f <$> checked fault a = checked fault (f a) := by
  cases fault <;> rfl

end Except

namespace List

universe u v w

variable {ε : Type u} {α : Type w} {β : Type v} {f : α → Except ε β} {l : List α}

theorem findSome?_cons_or (g : α → Option ε) (a : α) (l : List α) :
    (a :: l).findSome? g = (g a).or (l.findSome? g) := by
  rw [findSome?_cons]
  cases g a <;> rfl

/-- A list of checks fails with the fault of the first that fails. -/
theorem mapM_checked {verdicts : List (Option ε × β)}
    (each : Forall₂ (fun a verdict => f a = .checked verdict.1 verdict.2) l verdicts) :
    l.mapM f = .checked (verdicts.findSome? Prod.fst) (verdicts.map Prod.snd) := by
  induction each with
  | nil => rfl
  | @cons a verdict l verdicts here _ ih =>
    rw [mapM_cons, here, ih, findSome?_cons, map_cons]
    cases verdict.1 with
    | some found => rfl
    | none => cases verdicts.findSome? Prod.fst <;> rfl

/-- The elements of the result, one for each of the list. -/
theorem forall₂_of_mapM_ok {out : List β} (mapped : l.mapM f = .ok out) : Forall₂ (fun a b => f a = .ok b) l out := by
  induction l generalizing out with
  | nil =>
    cases mapped
    exact .nil
  | cons a l ih =>
    rw [mapM_cons] at mapped
    obtain ⟨b, here, mapped⟩ := Except.bind_eq_ok.mp mapped
    obtain ⟨rest, later, same⟩ := Except.bind_eq_ok.mp mapped
    cases same
    exact .cons here (ih later)

end List
