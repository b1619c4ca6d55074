import Mathlib.Data.List.Nodup
import Mathlib.Data.Rat.Cast.Defs
import TrtLlm.Model.Transfer.Reshard

/-! # When a reshard plan lands on real ranks

An accepted plan is correct exactly when each side either divides the heads evenly or replicates them. The
check of `plan` covers replication only, and an uneven split runs past the last rank.
-/

namespace TrtLlm.Transfer

/-- Rank `rank` of `ranks` holds `head`. -/
def Owns (heads ranks rank head : ℕ) : Prop :=
  if ranks ≤ heads then rank * heads / ranks ≤ head ∧ head < (rank + 1) * heads / ranks
  else head = rank / (ranks / heads)

instance (heads ranks rank head : ℕ) : Decidable (Owns heads ranks rank head) :=
  inferInstanceAs (Decidable (ite _ _ _))

/-- How often a plan sends a head to a destination rank. -/
def ReshardPlan.received (plan : ReshardPlan) (rank head : ℕ) : ℕ :=
  plan.edges.countP fun edge => edge.head = head ∧ edge.dstRank = rank

/-- A complete plan between real ranks. -/
structure ReshardPlan.Correct (plan : ReshardPlan) : Prop where
  ranks : ∀ edge ∈ plan.edges, edge.srcRank < plan.reshard.srcTp ∧ edge.dstRank < plan.reshard.dstTp
  source : ∀ edge ∈ plan.edges, Owns plan.reshard.numKvHeads plan.reshard.srcTp edge.srcRank edge.head
  destination : ∀ edge ∈ plan.edges, Owns plan.reshard.numKvHeads plan.reshard.dstTp edge.dstRank edge.head
  exact : ∀ rank < plan.reshard.dstTp, ∀ head,
    plan.received rank head = if Owns plan.reshard.numKvHeads plan.reshard.dstTp rank head then 1 else 0

/-! ## Blocks of heads -/

section Blocks

variable {heads ranks rank head : ℕ}

theorem owns_split (positive : 0 < heads) (even : ranks ∣ heads) :
    Owns heads ranks rank head ↔ head / (heads / ranks) = rank := by
  have fits : ranks ≤ heads := Nat.le_of_dvd positive even
  obtain ⟨size, rfl⟩ := even
  have nonzero : 0 < ranks := Nat.pos_of_mul_pos_right positive
  have block : 0 < size := Nat.pos_of_mul_pos_left positive
  have start (rank : ℕ) : rank * (ranks * size) / ranks = rank * size := by
    rw [Nat.mul_left_comm, Nat.mul_div_cancel_left _ nonzero]
  rw [Owns, if_pos fits, start, start, Nat.mul_div_cancel_left _ nonzero, Nat.div_eq_iff block, Nat.succ_mul]
  omega

theorem owns_replicated (more : heads < ranks) :
    Owns heads ranks rank head ↔ rank / (ranks / heads) = head := by
  rw [Owns, if_neg (Nat.not_le.mpr more), eq_comm]

theorem split_lt (positive : 0 < heads) (even : ranks ∣ heads) :
    head / (heads / ranks) < ranks ↔ head < heads := by
  obtain ⟨size, rfl⟩ := even
  have nonzero : 0 < ranks := Nat.pos_of_mul_pos_right positive
  have block : 0 < size := Nat.pos_of_mul_pos_left positive
  rw [Nat.mul_div_cancel_left _ nonzero, Nat.div_lt_iff_lt_mul block]

theorem replicated_lt (positive : 0 < heads) (more : heads < ranks) (even : heads ∣ ranks) :
    rank / (ranks / heads) < heads ↔ rank < ranks := by
  rw [split_lt (by omega) even]

/-- The last head of an uneven split goes past the last rank. -/
theorem uneven_split (nonzero : 0 < ranks) (fits : ranks ≤ heads) (uneven : ¬ ranks ∣ heads) :
    ranks ≤ (heads - 1) / (heads / ranks) := by
  have block : 0 < heads / ranks := Nat.div_pos fits nonzero
  have rest : 0 < heads % ranks := Nat.pos_of_ne_zero fun zero => uneven (Nat.dvd_of_mod_eq_zero zero)
  rw [Nat.le_div_iff_mul_le block]
  have total := Nat.div_add_mod heads ranks
  omega

end Blocks

/-! ## The edges of a plan -/

namespace Reshard

variable {layout : Reshard} {plan : ReshardPlan}

theorem plan_ok (accepted : layout.plan = .ok plan) :
    0 < layout.numKvHeads ∧ 0 < layout.srcTp ∧ 0 < layout.dstTp ∧
      (layout.numKvHeads < layout.srcTp → layout.numKvHeads ∣ layout.srcTp) ∧
      (layout.numKvHeads < layout.dstTp → layout.numKvHeads ∣ layout.dstTp) ∧
      plan = ⟨layout, (List.range layout.numKvHeads).flatMap layout.edgesOf⟩ := by
  rw [Reshard.plan] at accepted
  split at accepted
  next => cases accepted
  next nonzero =>
    split at accepted
    next => cases accepted
    next source =>
      split at accepted
      next => cases accepted
      next destination =>
        cases accepted
        refine ⟨by omega, by omega, by omega, fun more => ?_, fun more => ?_, rfl⟩
        · exact Nat.dvd_of_mod_eq_zero (by omega)
        · exact Nat.dvd_of_mod_eq_zero (by omega)

/-- The rule by which the loop sends a head to a rank. -/
def Sends (layout : Reshard) (head rank : ℕ) : Prop :=
  if layout.dstTp ≤ layout.numKvHeads then head / (layout.numKvHeads / layout.dstTp) = rank
  else rank / (layout.dstTp / layout.numKvHeads) = head

theorem mem_edgesOf (positive : 0 < layout.numKvHeads) {head : ℕ} {edge : ReshardEdge} :
    edge ∈ layout.edgesOf head ↔
      edge.head = head ∧ edge.srcRank = layout.srcRank head ∧ layout.Sends head edge.dstRank := by
  obtain ⟨own, source, rank⟩ := edge
  rw [edgesOf, Sends]
  split
  next => simp [eq_comm]
  next more =>
    have copies : 0 < layout.dstTp / layout.numKvHeads := Nat.div_pos (by omega) positive
    have range : rank / (layout.dstTp / layout.numKvHeads) = head ↔
        ∃ r < layout.dstTp / layout.numKvHeads, head * (layout.dstTp / layout.numKvHeads) + r = rank := by
      rw [Nat.div_eq_iff copies]
      refine ⟨fun bounds => ⟨rank - head * (layout.dstTp / layout.numKvHeads), by omega, by omega⟩, ?_⟩
      rintro ⟨r, bound, rfl⟩
      omega
    rw [range]
    simp only [List.mem_map, List.mem_range, ReshardEdge.mk.injEq]
    constructor
    · rintro ⟨r, bound, rfl, rfl, rfl⟩
      exact ⟨rfl, rfl, r, bound, rfl⟩
    · rintro ⟨rfl, rfl, r, bound, rfl⟩
      exact ⟨r, bound, rfl, rfl, rfl⟩

theorem nodup_edgesOf (layout : Reshard) (head : ℕ) : (layout.edgesOf head).Nodup := by
  rw [edgesOf]
  split
  next => exact List.nodup_singleton _
  next =>
    refine List.Nodup.map (fun r s same => ?_) List.nodup_range
    simp only [ReshardEdge.mk.injEq] at same
    omega

variable (accepted : layout.plan = .ok plan)
include accepted

theorem plan_reshard : plan.reshard = layout := by rw [(plan_ok accepted).2.2.2.2.2]

theorem mem_edges {edge : ReshardEdge} :
    edge ∈ plan.edges ↔ edge.head < layout.numKvHeads ∧ edge.srcRank = layout.srcRank edge.head ∧
      layout.Sends edge.head edge.dstRank := by
  obtain ⟨positive, -, -, -, -, rfl⟩ := plan_ok accepted
  simp only [List.mem_flatMap, List.mem_range, mem_edgesOf positive]
  constructor
  · rintro ⟨head, inside, rfl, source, sends⟩
    exact ⟨inside, source, sends⟩
  · rintro ⟨inside, source, sends⟩
    exact ⟨edge.head, inside, rfl, source, sends⟩

theorem nodup_edges : plan.edges.Nodup := by
  obtain ⟨positive, -, -, -, -, rfl⟩ := plan_ok accepted
  refine List.nodup_flatMap.mpr ⟨fun head _ => layout.nodup_edgesOf head, ?_⟩
  refine List.Pairwise.imp (fun {a b} apart => ?_) List.nodup_range
  intro edge first second
  exact apart (((mem_edgesOf positive).mp first).1.symm.trans ((mem_edgesOf positive).mp second).1)

/-- A pair of head and rank fixes its edge, and no edge is listed twice. -/
theorem received_eq (rank head : ℕ) :
    plan.received rank head = if (⟨head, layout.srcRank head, rank⟩ : ReshardEdge) ∈ plan.edges then 1 else 0 := by
  rw [← (nodup_edges accepted).count, ReshardPlan.received, List.count]
  refine List.countP_congr fun edge member => ?_
  obtain ⟨-, source, -⟩ := (mem_edges accepted).mp member
  obtain ⟨own, reads, lands⟩ := edge
  simp only at source
  subst source
  simp only [decide_eq_true_eq, beq_iff_eq, ReshardEdge.mk.injEq]
  constructor
  · rintro ⟨rfl, rfl⟩
    exact ⟨rfl, rfl, rfl⟩
  · rintro ⟨rfl, -, rfl⟩
    exact ⟨rfl, rfl⟩

/-- The first destination rank of a head. -/
theorem sends_first {head : ℕ} :
    layout.Sends head (if layout.dstTp ≤ layout.numKvHeads then head / (layout.numKvHeads / layout.dstTp)
      else head * (layout.dstTp / layout.numKvHeads)) := by
  obtain ⟨positive, -, -, -, -, -⟩ := plan_ok accepted
  rw [Sends]
  split
  next => rfl
  next more => exact Nat.mul_div_cancel _ (Nat.div_pos (by omega) positive)

theorem exists_edge {head : ℕ} (inside : head < layout.numKvHeads) :
    ∃ edge ∈ plan.edges, edge.head = head ∧ edge.srcRank = layout.srcRank head :=
  ⟨⟨head, layout.srcRank head, _⟩, (mem_edges accepted).mpr ⟨inside, rfl, sends_first accepted⟩, rfl, rfl⟩

theorem sends_iff_owns (even : layout.dstTp ≤ layout.numKvHeads → layout.dstTp ∣ layout.numKvHeads) {head rank : ℕ} :
    layout.Sends head rank ↔ Owns layout.numKvHeads layout.dstTp rank head := by
  obtain ⟨positive, -, -, -, -, -⟩ := plan_ok accepted
  rw [Sends]
  split
  next fits => rw [owns_split positive (even fits)]
  next more => rw [owns_replicated (by omega)]

theorem owns_lt (even : layout.dstTp ≤ layout.numKvHeads → layout.dstTp ∣ layout.numKvHeads) {head rank : ℕ}
    (owns : Owns layout.numKvHeads layout.dstTp rank head) :
    head < layout.numKvHeads ↔ rank < layout.dstTp := by
  obtain ⟨positive, -, -, -, replicated, -⟩ := plan_ok accepted
  by_cases fits : layout.dstTp ≤ layout.numKvHeads
  · rw [owns_split positive (even fits)] at owns
    rw [← owns, split_lt positive (even fits)]
  · rw [owns_replicated (by omega)] at owns
    rw [← owns, replicated_lt positive (by omega) (replicated (by omega))]

theorem srcRank_owns (even : layout.srcTp ≤ layout.numKvHeads → layout.srcTp ∣ layout.numKvHeads) {head : ℕ}
    (inside : head < layout.numKvHeads) :
    layout.srcRank head < layout.srcTp ∧ Owns layout.numKvHeads layout.srcTp (layout.srcRank head) head := by
  obtain ⟨positive, -, -, replicated, -, -⟩ := plan_ok accepted
  rw [srcRank]
  split
  next fits => exact ⟨(split_lt positive (even fits)).mpr inside, (owns_split positive (even fits)).mpr rfl⟩
  next more =>
    have copies : 0 < layout.srcTp / layout.numKvHeads := Nat.div_pos (by omega) positive
    have holds : head * (layout.srcTp / layout.numKvHeads) / (layout.srcTp / layout.numKvHeads) = head :=
      Nat.mul_div_cancel _ copies
    refine ⟨?_, (owns_replicated (by omega)).mpr holds⟩
    rw [← replicated_lt positive (by omega) (replicated (by omega)), holds]
    exact inside

/-- Every head is sent to as many ranks as it is replicated on. -/
theorem amplification_eq : plan.amplification = layout.dstReplication := by
  obtain ⟨positive, -, nonzero, -, -, rfl⟩ := plan_ok accepted
  have copies (head : ℕ) : (layout.edgesOf head).length = layout.dstReplication := by
    rw [edgesOf, dstReplication, if_neg (show layout.numKvHeads ≠ 0 by omega)]
    split
    next fits =>
      have once : layout.dstTp / layout.numKvHeads ≤ 1 := by
        calc layout.dstTp / layout.numKvHeads ≤ layout.numKvHeads / layout.numKvHeads := Nat.div_le_div_right fits
          _ = 1 := Nat.div_self positive
      exact (max_eq_right once).symm
    next more =>
      have several : 1 ≤ layout.dstTp / layout.numKvHeads := Nat.div_pos (by omega) positive
      rw [List.length_map, List.length_range, max_eq_left several]
  have total : ((List.range layout.numKvHeads).flatMap layout.edgesOf).length =
      layout.numKvHeads * layout.dstReplication := by
    simp only [List.length_flatMap, copies, List.map_const', List.length_range, List.sum_replicate_nat]
  have heads : (layout.numKvHeads : ℚ) ≠ 0 := Nat.cast_ne_zero.mpr (by omega)
  rw [ReshardPlan.amplification, total, max_eq_left (show 1 ≤ layout.numKvHeads from positive), Nat.cast_mul,
    mul_div_cancel_left₀ _ heads]

/-- An accepted plan is correct exactly when each degree that is at most the number of heads divides it. -/
theorem plan_correct_iff : plan.Correct ↔
    (layout.srcTp ≤ layout.numKvHeads → layout.srcTp ∣ layout.numKvHeads) ∧
      (layout.dstTp ≤ layout.numKvHeads → layout.dstTp ∣ layout.numKvHeads) := by
  have reads := plan_reshard accepted
  obtain ⟨positive, source, destination, -, -, -⟩ := plan_ok accepted
  constructor
  · intro correct
    obtain ⟨edge, member, last, reader⟩ := exists_edge accepted (Nat.sub_lt positive Nat.one_pos)
    have ranks := correct.ranks edge member
    rw [reads] at ranks
    refine ⟨fun fits => ?_, fun fits => ?_⟩
    · by_contra uneven
      have beyond := uneven_split source fits uneven
      rw [reader, srcRank, if_pos fits] at ranks
      omega
    · by_contra uneven
      have beyond := uneven_split destination fits uneven
      have sends := ((mem_edges accepted).mp member).2.2
      rw [Sends, if_pos fits, last] at sends
      omega
  · rintro ⟨sourceEven, destinationEven⟩
    refine ⟨fun edge member => ?_, fun edge member => ?_, fun edge member => ?_, fun rank inside head => ?_⟩
    · obtain ⟨inside, reader, sends⟩ := (mem_edges accepted).mp member
      have owns := (sends_iff_owns accepted destinationEven).mp sends
      rw [reads, reader]
      exact ⟨(srcRank_owns accepted sourceEven inside).1, (owns_lt accepted destinationEven owns).mp inside⟩
    · obtain ⟨inside, reader, -⟩ := (mem_edges accepted).mp member
      rw [reads, reader]
      exact (srcRank_owns accepted sourceEven inside).2
    · obtain ⟨-, -, sends⟩ := (mem_edges accepted).mp member
      rw [reads]
      exact (sends_iff_owns accepted destinationEven).mp sends
    · rw [reads] at inside ⊢
      rw [received_eq accepted]
      refine if_congr ?_ rfl rfl
      rw [mem_edges accepted, sends_iff_owns accepted destinationEven]
      refine ⟨fun edge => edge.2.2, fun owns => ⟨?_, rfl, owns⟩⟩
      exact (owns_lt accepted destinationEven owns).mpr inside

end Reshard

/-- Four heads from TP2 to TP8, the layout of the 4P1D topology: head 3 goes from rank 1 to ranks 6 and 7. -/
theorem plan_correct_at_tp8 :
    ∃ plan, (⟨4, 2, 8⟩ : Reshard).plan = .ok plan ∧ ⟨3, 1, 6⟩ ∈ plan.edges ∧ ⟨3, 1, 7⟩ ∈ plan.edges ∧ plan.Correct := by
  let layout : Reshard := ⟨4, 2, 8⟩
  have accepted : layout.plan = .ok ⟨layout, (List.range 4).flatMap layout.edgesOf⟩ := by decide
  refine ⟨_, accepted, by decide, by decide, ?_⟩
  exact (Reshard.plan_correct_iff accepted).mpr ⟨fun _ => by decide, fun fits => absurd fits (by decide)⟩

/-- Four heads split over three ranks: head 3 is read from rank 3, which does not exist. -/
theorem uneven_plan_incorrect :
    ∃ plan, (⟨4, 3, 4⟩ : Reshard).plan = .ok plan ∧ ¬ plan.Correct := by
  refine ⟨⟨⟨4, 3, 4⟩, [⟨0, 0, 0⟩, ⟨1, 1, 1⟩, ⟨2, 2, 2⟩, ⟨3, 3, 3⟩]⟩, by decide, fun correct => ?_⟩
  exact absurd (correct.ranks ⟨3, 3, 3⟩ (by decide)).1 (by decide)

end TrtLlm.Transfer
