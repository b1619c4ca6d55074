import Mathlib.Data.List.Forall2

/-! # Maps that may fail

`mapM` in `Option`: it succeeds where each element does, and depends only on the elements.
-/

namespace List

variable {α β γ : Type*} {f g : α → Option β} {l : List α}

theorem mapM_congr_mem (same : ∀ a ∈ l, f a = g a) : l.mapM f = l.mapM g := by
  induction l with
  | nil => rfl
  | cons a l ih => rw [mapM_cons, mapM_cons, same a (.head _), ih fun b member => same b (.tail _ member)]

theorem mapM_singleton (f : α → Option β) (a : α) : [a].mapM f = (f a).map fun b => [b] := by
  rw [mapM_cons, mapM_nil]
  cases f a <;> rfl

theorem mapM_flatMap (f : α → List β) (g : β → Option γ) (l : List α) :
    (l.flatMap f).mapM g = (l.mapM fun a => (f a).mapM g).map flatten := by
  induction l with
  | nil => rfl
  | cons a l ih =>
    rw [flatMap_cons, mapM_append, ih, mapM_cons]
    cases (f a).mapM g with
    | none => rfl
    | some here => cases l.mapM fun a => (f a).mapM g <;> rfl

/-- The elements of the result, one for each of the list. -/
theorem forall₂_of_mapM {out : List β} (mapped : l.mapM f = some out) : Forall₂ (fun a b => f a = some b) l out := by
  induction l generalizing out with
  | nil =>
    obtain rfl := Option.some.inj mapped
    exact .nil
  | cons a l ih =>
    rw [mapM_cons] at mapped
    obtain ⟨b, here, mapped⟩ := Option.bind_eq_some_iff.mp mapped
    obtain ⟨rest, later, same⟩ := Option.bind_eq_some_iff.mp mapped
    obtain rfl := Option.some.inj same
    exact .cons here (ih later)

/-- Every element of the result comes from one of the list. -/
theorem exists_of_mem_mapM {out : List β} {b : β} (mapped : l.mapM f = some out) (member : b ∈ out) :
    ∃ a ∈ l, f a = some b := by
  obtain ⟨i, bound, rfl⟩ := getElem_of_mem member
  have matched := forall₂_iff_get.mp (forall₂_of_mapM mapped)
  have bound' : i < l.length := matched.1 ▸ bound
  exact ⟨l[i], getElem_mem bound', matched.2 i bound' bound⟩

theorem isSome_mapM_iff : (l.mapM f).isSome ↔ ∀ a ∈ l, (f a).isSome := by
  induction l with
  | nil => simp
  | cons a l ih =>
    rw [mapM_cons, forall_mem_cons, ← ih]
    cases f a with
    | none => simp
    | some b => cases l.mapM f <;> simp

end List
