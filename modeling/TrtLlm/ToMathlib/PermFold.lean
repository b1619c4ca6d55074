import Mathlib.Data.List.Perm.Basic

/-! # Folding over a rearranged list

Two folds over permutations of one list end in related states when each step respects the relation and two steps may be
swapped. The relation need not be reflexive, so it may carry an invariant of the states it relates.
-/

namespace List

variable {α β : Type*} {R : β → β → Prop} {f : β → α → β}

theorem Perm.foldl_rel {D : α → α → Prop} (trans : ∀ {a b c}, R a b → R b c → R a c)
    (right : ∀ {a b}, R a b → R b b) (symm : ∀ {x y}, D x y → D y x)
    (step : ∀ {s t} x, R s t → R (f s x) (f t x))
    (swap : ∀ {s t} x y, D x y → R s t → R (f (f s x) y) (f (f t y) x)) {l l' : List α} (perm : l.Perm l')
    (apart : l.Pairwise D) {s t : β} (related : R s t) : R (l.foldl f s) (l'.foldl f t) := by
  induction perm generalizing s t with
  | nil => exact related
  | cons x _ ih => exact ih (pairwise_cons.mp apart).2 (step x related)
  | swap x y l =>
    have here : D y x := (pairwise_cons.mp apart).1 x (.head _)
    exact List.foldl_rel (swap y x here related) fun z _ _ _ => step z
  | trans first _ ih ih' =>
    exact trans (ih apart related) (ih' ((first.pairwise_iff symm).mp apart) (right related))

end List
