import Mathlib.Data.List.Find
import Mathlib.Data.List.Nodup
import TrtLlm.ToMathlib.ListIndex

/-! # Lists rearranged by position

One order of positions applied to several lists of one length permutes each of them, and keeps the entries of one
position together. What is looked up by a key that occurs once does not depend on the order.
-/

namespace List

variable {α β : Type*} {l l' : List α} {order : List ℕ}

/-- The entries at some positions. -/
def rearrange (l : List α) (order : List ℕ) : List α := order.filterMap (l[·]?)

theorem rearrange_perm (perm : order.Perm (range l.length)) : (l.rearrange order).Perm l := by
  have whole := perm.filterMap (l[·]?)
  rwa [filterMap_getElem?_range] at whole

theorem map_rearrange (f : α → β) (order : List ℕ) (l : List α) :
    (l.rearrange order).map f = (l.map f).rearrange order := by
  rw [rearrange, rearrange, map_filterMap]
  exact filterMap_congr fun i _ => by rw [getElem?_map]

theorem zip_rearrange {m : List β} (same : l.length = m.length) (order : List ℕ) :
    (l.rearrange order).zip (m.rearrange order) = (l.zip m).rearrange order := by
  have left : (l.zip m).map Prod.fst = l := map_fst_zip (Nat.le_of_eq same)
  have right : (l.zip m).map Prod.snd = m := map_snd_zip (Nat.le_of_eq same.symm)
  calc (l.rearrange order).zip (m.rearrange order)
    _ = (((l.zip m).rearrange order).map Prod.fst).zip (((l.zip m).rearrange order).map Prod.snd) := by
      rw [map_rearrange, map_rearrange, left, right]
    _ = (l.zip m).rearrange order := by
      rw [← unzip_fst, ← unzip_snd, zip_unzip]

/-! ### Looking up -/

/-- The first entry with an accepted key is the first one with that key. -/
theorem find?_comp_key (key : α → β) [DecidableEq β] (q : β → Bool) (l : List α) :
    l.find? (fun a => q (key a)) = ((l.map key).find? q).bind fun k => l.find? fun a => key a = k := by
  induction l with
  | nil => rfl
  | cons a l ih =>
    rw [map_cons]
    cases accepted : q (key a) with
    | true =>
      rw [find?_cons_of_pos (p := q) accepted, find?_cons_of_pos (p := fun a => q (key a)) accepted, Option.bind_some,
        find?_cons_of_pos (by simp)]
    | false =>
      rw [find?_cons_of_neg (p := q) (by simp [accepted]), find?_cons_of_neg (by simp [accepted]), ih]
      cases found : (l.map key).find? q with
      | none => rfl
      | some k =>
        have other : key a ≠ k := fun same => by
          have held := find?_some found
          rw [← same, accepted] at held
          cases held
        rw [Option.bind_some, Option.bind_some, find?_cons_of_neg (by simpa using other)]

/-- Looking up by keys that do not repeat. -/
theorem Perm.find?_comp_key [DecidableEq β] {key : α → β} (perm : l.Perm l') (nodup : (l.map key).Nodup) {q : β → Bool}
    (same : (l.map key).find? q = (l'.map key).find? q) :
    l.find? (fun a => q (key a)) = l'.find? fun a => q (key a) := by
  rw [List.find?_comp_key key, List.find?_comp_key key, same]
  refine congrArg _ (funext fun k => find?_eq_find?_of_perm perm fun a first b second => ?_)
  have equal : key a = key b := (of_decide_eq_true first.2).trans (of_decide_eq_true second.2).symm
  exact inj_on_of_nodup_map nodup first.1 second.1 equal

end List
