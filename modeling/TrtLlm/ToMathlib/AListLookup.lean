import Mathlib.Data.List.AList

/-! # Lookups after insertions and erasures

One equation for each operation on a map whose values all have one type, by the key that is looked up. Erasing many
keys in turn is the same whatever their order and however often each occurs.
-/

namespace AList

variable {α β : Type*} [DecidableEq α]

theorem mem_iff_exists_lookup {a : α} {s : AList fun _ : α => β} : a ∈ s ↔ ∃ b, s.lookup a = some b := by
  rw [← lookup_isSome, Option.isSome_iff_exists]

theorem lookup_insert_eq_ite (a key : α) (value : β) (s : AList fun _ : α => β) :
    (s.insert key value).lookup a = if a = key then some value else s.lookup a := by
  split
  next here =>
    subst here
    exact lookup_insert s
  next other => exact lookup_insert_ne other

theorem lookup_erase_eq_ite (a key : α) (s : AList fun _ : α => β) :
    (s.erase key).lookup a = if a = key then none else s.lookup a := by
  split
  next here =>
    subst here
    exact lookup_erase _ _
  next other => exact lookup_erase_ne other

/-- What is found after an erasure was there before. -/
theorem lookup_of_erase {a key : α} {b : β} {s : AList fun _ : α => β} (found : (s.erase key).lookup a = some b) :
    s.lookup a = some b := by
  rw [lookup_erase_eq_ite] at found
  split at found
  next => cases found
  next => exact found

theorem lookup_foldl_erase (a : α) (keys : List α) (s : AList fun _ : α => β) :
    (keys.foldl (fun t key => t.erase key) s).lookup a = if a ∈ keys then none else s.lookup a := by
  induction keys generalizing s with
  | nil => simp
  | cons key keys ih =>
    rw [List.foldl_cons, ih, lookup_erase_eq_ite]
    by_cases here : a = key
    · simp [here]
    · simp [here]

end AList
