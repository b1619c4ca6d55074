import TrtLlm.ToMathlib.AListLookup

/-! # Two association lists that undo each other

A map and an index of it by value. Binding a key to a value keeps the two inverse once the binding the key had is
gone from the index, provided the value is not bound to another key; that proviso is needed.
-/

universe u v

variable {α : Type u} {β : Type v} [DecidableEq α] [DecidableEq β]

namespace AList

/-- The first map binds a key to a value exactly when the second binds the value to the key. -/
def Inverse (f : AList fun _ : α => β) (g : AList fun _ : β => α) : Prop :=
  ∀ a b, f.lookup a = some b ↔ g.lookup b = some a

variable {f : AList fun _ : α => β} {g : AList fun _ : β => α} {a : α} {b : β}

theorem inverse_empty : Inverse (∅ : AList fun _ : α => β) (∅ : AList fun _ : β => α) := fun a b => by simp

theorem Inverse.erase (inverse : Inverse f g) (bound : f.lookup a = some b) : Inverse (f.erase a) (g.erase b) := by
  intro a' b'
  rw [lookup_erase_eq_ite, lookup_erase_eq_ite]
  by_cases key : a' = a
  · subst key
    by_cases value : b' = b
    · simp [value]
    · rw [if_pos rfl, if_neg value, ← inverse, bound]
      simpa using Ne.symm value
  · rw [if_neg key]
    by_cases value : b' = b
    · subst value
      rw [if_pos rfl, inverse, (inverse _ _).mp bound]
      simpa using Ne.symm key
    · rw [if_neg value]
      exact inverse a' b'

/-- Take the value a key is bound to out of the index, unless it is the given one. -/
def dropPrevious (f : AList fun _ : α => β) (g : AList fun _ : β => α) (a : α) (b : β) : AList fun _ : β => α :=
  match f.lookup a with
  | some previous => if previous ≠ b then g.erase previous else g
  | none => g

theorem lookup_dropPrevious (other : β) :
    (dropPrevious f g a b).lookup other = if f.lookup a = some other ∧ other ≠ b then none else g.lookup other := by
  unfold dropPrevious
  cases found : f.lookup a with
  | none => simp
  | some previous =>
    simp only [Option.some.injEq]
    by_cases same : previous = b
    · subst same
      by_cases here : other = previous
      · simp [here]
      · simp [Ne.symm here]
    · rw [if_pos same, lookup_erase_eq_ite]
      by_cases here : other = previous
      · subst here
        simp [same]
      · simp [here, Ne.symm here]

/-- Rebinding a key keeps the maps inverse exactly when the value was bound to no other key. -/
theorem Inverse.insert_iff (inverse : Inverse f g) :
    Inverse (f.insert a b) ((dropPrevious f g a b).insert b a) ↔ ∀ key, g.lookup b = some key → key = a := by
  constructor
  · intro still key bound
    by_contra other
    have stale := still key b
    rw [lookup_insert_eq_ite, lookup_insert_eq_ite, if_neg other, if_pos rfl, (inverse _ _).mpr bound] at stale
    exact other (Option.some.inj (stale.mp rfl)).symm
  · intro only a' b'
    rw [lookup_insert_eq_ite, lookup_insert_eq_ite, lookup_dropPrevious]
    by_cases key : a' = a <;> by_cases value : b' = b
    · simp [key, value]
    · subst key
      rw [if_pos rfl, if_neg value]
      refine iff_of_false (by simpa using Ne.symm value) ?_
      split
      · simp
      next kept =>
        intro bound
        exact kept ⟨(inverse _ _).mpr bound, value⟩
    · subst value
      rw [if_neg key, if_pos rfl]
      refine iff_of_false ?_ (by simpa using Ne.symm key)
      exact fun bound => key (only a' ((inverse _ _).mp bound))
    · rw [if_neg key, if_neg value]
      split
      next gone =>
        refine iff_of_false ?_ (by simp)
        intro bound
        have twice := ((inverse _ _).mp bound).symm.trans ((inverse _ _).mp gone.1)
        exact key (Option.some.inj twice)
      next => exact inverse a' b'

end AList
