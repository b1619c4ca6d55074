import Mathlib.Data.Multiset.AddSub
import Mathlib.Data.Multiset.Count

/-! # A pool of slots with a waiting line

Jobs with a target each take one of a number of slots, or wait in line for one. A new batch of jobs joins the line, a
job that ends frees its slot, and after either the line moves up. The pool knows nothing of targets; the question
answered here is when a job waits only because its own target's jobs hold all the slots.
-/

namespace Machine

/-- The targets of the jobs that hold a slot, and of those in line. -/
structure SlotPool (α : Type*) where
  flying : Multiset α
  waiting : List α

namespace SlotPool

variable {α : Type*} {cap : ℕ} {pool : SlotPool α}

/-- The head of the line takes the free slots. -/
def drain (cap : ℕ) (pool : SlotPool α) : SlotPool α where
  flying := pool.flying + (pool.waiting.take (cap - pool.flying.card) : List α)
  waiting := pool.waiting.drop (cap - pool.flying.card)

def offer (cap : ℕ) (jobs : List α) (pool : SlotPool α) : SlotPool α :=
  drain cap { pool with waiting := pool.waiting ++ jobs }

def land [DecidableEq α] (cap : ℕ) (target : α) (pool : SlotPool α) : SlotPool α :=
  drain cap { pool with flying := pool.flying.erase target }

/-- Nobody waits for a free slot. -/
structure Settled (cap : ℕ) (pool : SlotPool α) : Prop where
  slots : pool.flying.card ≤ cap
  waiting : pool.waiting ≠ [] → pool.flying.card = cap

/-- Whoever waits, waits for jobs of the same target. -/
def Dedicated [DecidableEq α] (cap : ℕ) (pool : SlotPool α) : Prop :=
  ∀ target ∈ pool.waiting, pool.flying.count target = cap

theorem settled_drain (slots : pool.flying.card ≤ cap) : (pool.drain cap).Settled cap := by
  refine ⟨?_, fun waiting => ?_⟩
  · simp only [drain, Multiset.card_add, Multiset.coe_card, List.length_take]
    omega
  · rw [drain, ne_eq, List.drop_eq_nil_iff] at waiting
    simp only [drain, Multiset.card_add, Multiset.coe_card, List.length_take]
    omega

theorem Settled.offer (settled : pool.Settled cap) (jobs : List α) : (pool.offer cap jobs).Settled cap :=
  settled_drain settled.slots

/-- Nobody in line can move up. -/
theorem Settled.offer_nil (settled : pool.Settled cap) : pool.offer cap [] = pool := by
  obtain ⟨flying, waiting⟩ := pool
  rw [SlotPool.offer, drain, List.append_nil]
  by_cases empty : waiting = []
  · simp [empty]
  · have full : flying.card = cap := settled.waiting empty
    simp [full]

/-- Draining does not change who is there. -/
theorem mem_drain {target : α} :
    target ∈ (pool.drain cap).flying ∨ target ∈ (pool.drain cap).waiting ↔
      target ∈ pool.flying ∨ target ∈ pool.waiting := by
  have parts := List.take_append_drop (cap - pool.flying.card) pool.waiting
  rw [drain, Multiset.mem_add, Multiset.mem_coe, or_assoc, ← List.mem_append, parts]

theorem one_target_drain {target : α} :
    ((∀ other ∈ (pool.drain cap).flying, other = target) ∧ ∀ other ∈ (pool.drain cap).waiting, other = target) ↔
      (∀ other ∈ pool.flying, other = target) ∧ ∀ other ∈ pool.waiting, other = target := by
  have same : (∀ other, other ∈ (pool.drain cap).flying ∨ other ∈ (pool.drain cap).waiting → other = target) ↔
      ∀ other, other ∈ pool.flying ∨ other ∈ pool.waiting → other = target :=
    forall_congr' fun _ => imp_congr_left mem_drain
  simpa only [or_imp, forall_and] using same

variable [DecidableEq α]

theorem Settled.land (settled : pool.Settled cap) (target : α) : (pool.land cap target).Settled cap :=
  settled_drain ((Multiset.card_le_card (Multiset.erase_le _ _)).trans settled.slots)

theorem Settled.dedicated_iff (settled : pool.Settled cap) (slot : 0 < cap) :
    pool.Dedicated cap ↔ pool.waiting = [] ∨ ∃ target, (∀ other ∈ pool.flying, other = target) ∧
      ∀ other ∈ pool.waiting, other = target := by
  constructor
  · intro dedicated
    rw [or_iff_not_imp_left]
    intro waiting
    obtain ⟨target, member⟩ := List.exists_mem_of_ne_nil _ waiting
    have full := settled.waiting waiting
    have held (other : α) (waits : other ∈ pool.waiting) : ∀ flies ∈ pool.flying, other = flies :=
      Multiset.count_eq_card.mp ((dedicated other waits).trans full.symm)
    obtain ⟨some, flies⟩ := Multiset.card_pos_iff_exists_mem.mp (full ▸ slot)
    refine ⟨target, fun other flying => (held target member other flying).symm, fun other waits => ?_⟩
    exact (held other waits some flies).trans (held target member some flies).symm
  · rintro (empty | ⟨target, flying, waiting⟩) other member
    · exact absurd (empty ▸ member) List.not_mem_nil
    · rw [← settled.waiting (List.ne_nil_of_mem member), Multiset.count_eq_card, waiting other member]
      exact fun flies inside => (flying flies inside).symm

/-- A batch keeps the pool dedicated exactly when everybody finds a slot or all go to one target. -/
theorem Settled.dedicated_offer_iff (settled : pool.Settled cap) (slot : 0 < cap) (jobs : List α) :
    (pool.offer cap jobs).Dedicated cap ↔
      pool.flying.card + pool.waiting.length + jobs.length ≤ cap ∨
        ∃ target, (∀ other ∈ pool.flying, other = target) ∧ ∀ other ∈ pool.waiting ++ jobs, other = target := by
  rw [(settled.offer jobs).dedicated_iff slot, SlotPool.offer]
  refine or_congr ?_ (exists_congr fun target => one_target_drain)
  have slots := settled.slots
  rw [drain, List.drop_eq_nil_iff, List.length_append]
  dsimp only
  omega

/-- A job that ends keeps the pool dedicated. -/
theorem Settled.dedicated_land (settled : pool.Settled cap) (slot : 0 < cap) (dedicated : pool.Dedicated cap)
    (target : α) : (pool.land cap target).Dedicated cap := by
  rw [(settled.land target).dedicated_iff slot]
  rcases (settled.dedicated_iff slot).mp dedicated with empty | ⟨common, flying, waiting⟩
  · left
    rw [SlotPool.land, drain, empty, List.drop_nil]
  · refine .inr ⟨common, one_target_drain.mpr ⟨fun other member => ?_, waiting⟩⟩
    exact flying other (Multiset.mem_of_mem_erase member)

end SlotPool

end Machine
