import Mathlib.Data.List.AList

/-! # Rewriting or dropping every entry of an association list

`AList.retain` visits each entry once; the visitor keeps it with a new value or drops it.
-/

universe u v

variable {α : Type u} {β : α → Type v}

namespace List

/-- Apply a visitor to every entry, keeping the entries it answers for. -/
def retainEntries (visit : (a : α) → β a → Option (β a)) (l : List (Sigma β)) : List (Sigma β) :=
  l.filterMap fun e => (visit e.1 e.2).map (Sigma.mk e.1)

theorem keys_retainEntries_sublist (visit : (a : α) → β a → Option (β a)) (l : List (Sigma β)) :
    (l.retainEntries visit).keys.Sublist l.keys := by
  induction l with
  | nil => exact .slnil
  | cons e l ih =>
    rw [retainEntries, filterMap_cons]
    cases visit e.1 e.2 with
    | none => exact ih.cons _
    | some b => exact ih.cons_cons _

theorem dlookup_retainEntries [DecidableEq α] (visit : (a : α) → β a → Option (β a)) {l : List (Sigma β)}
    (distinct : l.NodupKeys) (a : α) : (l.retainEntries visit).dlookup a = (l.dlookup a).bind (visit a) := by
  induction l with
  | nil => rfl
  | cons e l ih =>
    obtain ⟨key, value⟩ := e
    rw [nodupKeys_cons] at distinct
    have rest := ih distinct.2
    by_cases here : a = key
    · subst here
      rw [dlookup_cons_eq, Option.bind_some, retainEntries, filterMap_cons]
      cases answer : visit a value with
      | none =>
        have gone : l.dlookup a = none := dlookup_eq_none.mpr distinct.1
        change (l.retainEntries visit).dlookup a = none
        rw [rest, gone]
        rfl
      | some b => exact dlookup_cons_eq _ _ _
    · rw [dlookup_cons_ne _ _ here, ← rest, retainEntries, filterMap_cons]
      cases visit key value with
      | none => rfl
      | some b => exact dlookup_cons_ne _ _ here

end List

namespace AList

/-- Visit every entry; keep it with the value the visitor answers, or drop it. -/
def retain (visit : (a : α) → β a → Option (β a)) (s : AList β) : AList β where
  entries := s.entries.retainEntries visit
  nodupKeys := List.Nodup.sublist (List.keys_retainEntries_sublist visit s.entries) s.nodupKeys

theorem lookup_retain [DecidableEq α] (visit : (a : α) → β a → Option (β a)) (s : AList β) (a : α) :
    (s.retain visit).lookup a = (s.lookup a).bind (visit a) :=
  List.dlookup_retainEntries visit s.nodupKeys a

end AList
