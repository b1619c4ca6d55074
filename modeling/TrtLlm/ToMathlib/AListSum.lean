import Mathlib.Algebra.BigOperators.Group.List.Basic
import TrtLlm.ToMathlib.AListLookup

/-! # Sums over the entries of a finite map

Maps with the same lookups have the same entries up to order, so a sum over the entries only depends on the
lookups. It splits off the entry of one key.
-/

namespace AList

variable {α : Type*} {β : α → Type*} {M : Type*} [AddCommMonoid M]

/-- Add up a value over all entries. -/
def sum (f : (a : α) → β a → M) (s : AList β) : M := (s.entries.map fun entry => f entry.1 entry.2).sum

theorem sum_empty (f : (a : α) → β a → M) : (∅ : AList β).sum f = 0 := rfl

variable [DecidableEq α]

theorem perm_of_lookup {s t : AList β} (same : ∀ a, s.lookup a = t.lookup a) : s.entries.Perm t.entries :=
  List.lookup_ext s.nodupKeys t.nodupKeys fun a b => by
    change b ∈ s.lookup a ↔ b ∈ t.lookup a
    rw [same a]

theorem sum_congr_lookup (f : (a : α) → β a → M) {s t : AList β} (same : ∀ a, s.lookup a = t.lookup a) :
    s.sum f = t.sum f := ((perm_of_lookup same).map _).sum_eq

theorem sum_insert (f : (a : α) → β a → M) (s : AList β) (a : α) (b : β a) :
    (s.insert a b).sum f = f a b + (s.erase a).sum f := by
  rw [sum, entries_insert, List.map_cons, List.sum_cons]
  rfl

/-- Splitting off the entry of a key. -/
theorem sum_of_lookup (f : (a : α) → β a → M) {s : AList β} {a : α} {b : β a} (found : s.lookup a = some b) :
    s.sum f = f a b + (s.erase a).sum f := by
  rw [← sum_insert]
  refine sum_congr_lookup f fun other => ?_
  by_cases same : other = a
  · subst same
    rw [lookup_insert, found]
  · rw [lookup_insert_ne same]

theorem erase_of_notMem {s : AList β} {a : α} (absent : a ∉ s) : s.erase a = s :=
  AList.ext (List.kerase_of_notMem_keys absent)

theorem sum_insert_of_notMem (f : (a : α) → β a → M) {s : AList β} {a : α} (absent : a ∉ s) (b : β a) :
    (s.insert a b).sum f = f a b + s.sum f := by
  rw [sum_insert, erase_of_notMem absent]

theorem length_insert_of_notMem {s : AList β} {a : α} (absent : a ∉ s) (b : β a) :
    (s.insert a b).entries.length = s.entries.length + 1 := by
  rw [entries_insert_of_notMem absent, List.length_cons]

omit [DecidableEq α] in
/-- Maps with the same keys have the same size. -/
theorem length_congr {s t : AList β} (same : ∀ a, a ∈ s ↔ a ∈ t) : s.entries.length = t.entries.length := by
  have keys : s.keys.Perm t.keys := (List.perm_ext_iff_of_nodup s.keys_nodup t.keys_nodup).mpr same
  simpa [AList.keys, List.keys] using keys.length_eq

theorem length_erase_of_mem {s : AList β} {a : α} (member : a ∈ s) :
    (s.erase a).entries.length + 1 = s.entries.length := by
  obtain ⟨b, found⟩ := Option.isSome_iff_exists.mp (lookup_isSome.mpr member)
  have gone : a ∉ s.erase a := fun still => (mem_erase.mp still).1 rfl
  rw [← length_insert_of_notMem gone b]
  refine length_congr fun other => ?_
  rw [mem_insert, mem_erase]
  by_cases same : other = a <;> simp [same, member]

/-- The same sum over any distinct keys that include those of the map. -/
theorem sum_eq_of_keys (f : (a : α) → β a → M) {s : AList β} {keys : List α} (distinct : keys.Nodup)
    (within : ∀ a ∈ s, a ∈ keys) : s.sum f = (keys.map fun a => ((s.lookup a).map (f a)).getD 0).sum := by
  induction keys generalizing s with
  | nil =>
    have same : ∀ a, s.lookup a = (∅ : AList β).lookup a := fun a =>
      AList.lookup_eq_none.mpr fun member => List.not_mem_nil (within a member)
    rw [sum_congr_lookup f same, sum_empty]
    rfl
  | cons a keys ih =>
    obtain ⟨first, distinct⟩ := List.nodup_cons.mp distinct
    have rest := ih distinct (s := s.erase a) fun other member =>
      (List.mem_cons.mp (within other (AList.mem_erase.mp member).2)).resolve_left (AList.mem_erase.mp member).1
    have others : (keys.map fun b => (((s.erase a).lookup b).map (f b)).getD 0) =
        keys.map fun b => ((s.lookup b).map (f b)).getD 0 := by
      refine List.map_congr_left fun b member => ?_
      rw [lookup_erase_ne fun same : b = a => first (same ▸ member)]
    rw [List.map_cons, List.sum_cons, ← others, ← rest]
    cases found : s.lookup a with
    | none => rw [erase_of_notMem (AList.lookup_eq_none.mp found), Option.map_none, Option.getD_none, zero_add]
    | some b => exact sum_of_lookup f found

end AList
