import Mathlib.Data.Finset.Card
import TrtLlm.Machine.Path
import TrtLlm.Soundness.ControllerCap
import TrtLlm.Soundness.DecodeRound
import TrtLlm.ToMathlib.AListInverse
import TrtLlm.ToMathlib.ListEraseDups

/-! # The scheduler books what the engine reports

The history of a scheduler is the list of stays: one for each admission, closed when the sequence is retired or
removed, and marked once a step leaves it running with its whole budget booked. The running map, the flags and the
disagreement count are read off the history; what a step does to each sequence is read off the engine's two lists.
-/

namespace TrtLlm.Sched

/-- Some token is booked and no more than requested. -/
def RunningSeq.WellBooked (seq : RunningSeq) : Prop := 1 ≤ seq.tokensEmitted ∧ seq.tokensEmitted ≤ seq.requestedTokens

theorem RunningSeq.wellBooked_new (id : RequestId) (firstTokenMs : Millis) {requestedTokens : ℕ}
    (some : 1 ≤ requestedTokens) : (new id firstTokenMs requestedTokens).WellBooked := ⟨le_rfl, some⟩

/-- Booking the tokens of several mentions. -/
def RunningSeq.advanceTimes (perStep : ℕ) (now : Millis) : ℕ → RunningSeq → RunningSeq
  | 0, seq => seq
  | mentions + 1, seq => advanceTimes perStep now mentions (seq.advance perStep now)

theorem RunningSeq.advanceTimes_frame (perStep : ℕ) (now : Millis) (mentions : ℕ) (seq : RunningSeq) :
    (advanceTimes perStep now mentions seq).id = seq.id ∧
      (advanceTimes perStep now mentions seq).requestedTokens = seq.requestedTokens ∧
        (seq.tokensEmitted ≤ seq.requestedTokens →
          seq.tokensEmitted ≤ (advanceTimes perStep now mentions seq).tokensEmitted ∧
          (advanceTimes perStep now mentions seq).tokensEmitted ≤ seq.requestedTokens) := by
  induction mentions generalizing seq with
  | zero => exact ⟨rfl, rfl, fun within => ⟨le_rfl, within⟩⟩
  | succ mentions ih =>
    obtain ⟨id, requested, tokens⟩ := ih (seq.advance perStep now)
    refine ⟨id, requested, fun within => ?_⟩
    obtain ⟨more, bound⟩ := tokens (min_le_right _ _)
    exact ⟨(le_min (Nat.le_add_right _ _) within).trans more, bound⟩

namespace DecodeScheduler

variable {sched : DecodeScheduler}

/-! ### What a step does to each sequence -/

theorem advance_tokensPerStep (now : Millis) (sched : DecodeScheduler) (id : RequestId) :
    (advance now sched id).tokensPerStep = sched.tokensPerStep ∧ (advance now sched id).flagged = sched.flagged ∧
      (advance now sched id).finishDisagreements = sched.finishDisagreements ∧
        (advance now sched id).unknownFinishReports = sched.unknownFinishReports := by
  unfold advance
  split <;> exact ⟨rfl, rfl, rfl, rfl⟩

theorem advanceAll_books (now : Millis) (ids : List RequestId) (sched : DecodeScheduler) :
    (ids.foldl (advance now) sched).flagged = sched.flagged ∧
      (ids.foldl (advance now) sched).finishDisagreements = sched.finishDisagreements ∧
        (ids.foldl (advance now) sched).unknownFinishReports = sched.unknownFinishReports := by
  induction ids generalizing sched with
  | nil => exact ⟨rfl, rfl, rfl⟩
  | cons id ids ih =>
    obtain ⟨-, flagged, disagreements, unknown⟩ := advance_tokensPerStep now sched id
    obtain ⟨restFlagged, restDisagreements, restUnknown⟩ := ih (advance now sched id)
    exact ⟨restFlagged.trans flagged, restDisagreements.trans disagreements, restUnknown.trans unknown⟩

theorem advance_lookup (now : Millis) (sched : DecodeScheduler) (id other : RequestId) :
    (advance now sched id).running.lookup other =
      if other = id then (sched.running.lookup other).map (·.advance (max sched.tokensPerStep 1) now)
      else sched.running.lookup other := by
  unfold advance
  cases found : sched.running.lookup id with
  | none =>
    simp only
    split
    next here => rw [here, found, Option.map_none]
    next => rfl
  | some seq =>
    simp only [AList.lookup_insert_eq_ite]
    split
    next here => rw [here, found, Option.map_some]
    next => rfl

/-- A running sequence is booked once for each mention. -/
theorem advanceAll_lookup (now : Millis) (ids : List RequestId) (sched : DecodeScheduler) (id : RequestId) :
    (ids.foldl (advance now) sched).running.lookup id =
      (sched.running.lookup id).map (RunningSeq.advanceTimes (max sched.tokensPerStep 1) now (ids.count id)) := by
  induction ids generalizing sched with
  | nil =>
    cases found : sched.running.lookup id <;> simp [found, RunningSeq.advanceTimes]
  | cons first ids ih =>
    rw [List.foldl_cons, ih, (advance_tokensPerStep now sched first).1, advance_lookup]
    by_cases here : id = first
    · subst here
      rw [if_pos rfl, List.count_cons_self, Option.map_map]
      rfl
    · rw [if_neg here, List.count_cons_of_ne (Ne.symm here)]

theorem retire_lookup (finished : List RequestId) (sched : DecodeScheduler) (id : RequestId) :
    (retire finished sched).2.running.lookup id = if id ∈ finished then none else sched.running.lookup id := by
  induction finished generalizing sched with
  | nil => rfl
  | cons first finished ih =>
    rw [retire]
    cases found : sched.running.lookup first with
    | some seq =>
      simp only
      rw [ih, AList.lookup_erase_eq_ite]
      by_cases here : id = first <;> by_cases later : id ∈ finished <;> simp [here, later]
    | none =>
      simp only
      rw [ih]
      by_cases here : id = first
      · subst here
        simp [found]
      · simp [here]

/-- The sequences returned are the running ones among the reported, in order of first mention. -/
theorem retire_fst (finished : List RequestId) (sched : DecodeScheduler) :
    (retire finished sched).1 = finished.eraseDups.filterMap sched.running.lookup := by
  induction finished generalizing sched with
  | nil => rfl
  | cons first finished ih =>
    rw [retire, List.filterMap_eraseDups_cons]
    cases found : sched.running.lookup first with
    | none =>
      simp only
      rw [ih, Option.toList_none, List.nil_append]
      exact (List.filterMap_eraseDups_filter (f := fun id => sched.running.lookup id) found finished).symm
    | some seq =>
      simp only
      rw [ih, Option.toList_some, List.singleton_append]
      have skipped : (sched.running.erase first).lookup first = none := AList.lookup_erase _ _
      have same := List.filterMap_eraseDups_filter (f := fun id => (sched.running.erase first).lookup id) skipped finished
      refine congrArg _ (same.symm.trans (List.filterMap_congr fun other member => ?_))
      rw [List.mem_eraseDups, List.mem_filter] at member
      exact AList.lookup_erase_ne (by simpa using member.2)

theorem retire_books (finished : List RequestId) (sched : DecodeScheduler) :
    (∀ id, id ∈ (retire finished sched).2.flagged ↔ id ∈ sched.flagged ∧ ¬(id ∈ sched.running ∧ id ∈ finished)) ∧
      (retire finished sched).2.finishDisagreements = sched.finishDisagreements ∧
        (retire finished sched).2.unknownFinishReports + (retire finished sched).1.length =
          sched.unknownFinishReports + finished.length := by
  induction finished generalizing sched with
  | nil => exact ⟨fun id => by simp [retire], rfl, rfl⟩
  | cons first finished ih =>
    rw [retire]
    cases found : sched.running.lookup first with
    | none =>
      obtain ⟨flagged, disagreements, unknown⟩ :=
        ih { sched with unknownFinishReports := sched.unknownFinishReports + 1 }
      have absent : first ∉ sched.running := AList.lookup_eq_none.mp found
      refine ⟨fun id => (flagged id).trans ?_, disagreements, ?_⟩
      · rw [List.mem_cons]
        refine and_congr_right fun _ => not_congr (and_congr_right fun running => ?_)
        exact ⟨.inr, fun either => either.resolve_left fun same => absent (same ▸ running)⟩
      · rw [List.length_cons]
        simp only at unknown ⊢
        omega
    | some seq =>
      obtain ⟨flagged, disagreements, unknown⟩ :=
        ih { sched with running := sched.running.erase first, flagged := sched.flagged.erase first }
      have present : first ∈ sched.running := AList.mem_iff_exists_lookup.mpr ⟨_, found⟩
      refine ⟨fun id => (flagged id).trans ?_, disagreements, ?_⟩
      · rw [Finset.mem_erase, AList.mem_erase, List.mem_cons]
        by_cases here : id = first
        · subst here
          simp [present]
        · simp [here]
      · simp only [List.length_cons] at unknown ⊢
        omega

theorem flagDone_books (seqs : List RunningSeq) (sched : DecodeScheduler) :
    (∀ id, id ∈ (seqs.foldl flagDone sched).flagged ↔ id ∈ sched.flagged ∨ ∃ seq ∈ seqs, seq.isDone = true ∧ seq.id = id) ∧
      (seqs.foldl flagDone sched).finishDisagreements + sched.flagged.card =
        sched.finishDisagreements + (seqs.foldl flagDone sched).flagged.card ∧
        (seqs.foldl flagDone sched).unknownFinishReports = sched.unknownFinishReports := by
  induction seqs generalizing sched with
  | nil => exact ⟨fun id => by simp, rfl, rfl⟩
  | cons seq seqs ih =>
    obtain ⟨flagged, count, unknown⟩ := ih (sched.flagDone seq)
    rw [List.foldl_cons]
    have first : (∀ id, id ∈ (sched.flagDone seq).flagged ↔ id ∈ sched.flagged ∨ seq.isDone = true ∧ seq.id = id) ∧
        (sched.flagDone seq).finishDisagreements + sched.flagged.card =
          sched.finishDisagreements + (sched.flagDone seq).flagged.card ∧
          (sched.flagDone seq).unknownFinishReports = sched.unknownFinishReports := by
      unfold flagDone
      split
      next fresh =>
        refine ⟨fun id => ?_, ?_, rfl⟩
        · rw [Finset.mem_insert, or_comm, eq_comm]
          simp [fresh.1]
        · simp only
          rw [Finset.card_insert_of_notMem fresh.2]
          omega
      next known =>
        refine ⟨fun id => ⟨.inl, ?_⟩, rfl, rfl⟩
        rintro (member | ⟨done, rfl⟩)
        · exact member
        · by_contra absent
          exact known ⟨done, absent⟩
    refine ⟨fun id => ?_, by omega, unknown.trans first.2.2⟩
    rw [flagged, first.1, List.exists_mem_cons_iff, or_assoc]

/-- A running sequence after a step: gone if reported finished, else booked once for each mention. -/
theorem onStep_lookup (sched : DecodeScheduler) (now stepMs : Millis) (advanced finished : List RequestId)
    (id : RequestId) :
    (sched.onStep now stepMs advanced finished).2.running.lookup id =
      if id ∈ finished then none
      else (sched.running.lookup id).map
        (RunningSeq.advanceTimes (max sched.tokensPerStep 1) now (advanced.count id)) := by
  simp only [onStep, flagDone_running]
  rw [retire_lookup, advanceAll_lookup]

theorem onStep_fst (sched : DecodeScheduler) (now stepMs : Millis) (advanced finished : List RequestId) :
    (sched.onStep now stepMs advanced finished).1 = finished.eraseDups.filterMap fun id =>
      (sched.running.lookup id).map
        (RunningSeq.advanceTimes (max sched.tokensPerStep 1) now (advanced.count id)) := by
  simp only [onStep]
  rw [retire_fst]
  exact List.filterMap_congr fun id _ => advanceAll_lookup now advanced _ id

theorem Keyed.onStep (keyed : sched.Keyed) (now stepMs : Millis) (advanced finished : List RequestId) :
    (sched.onStep now stepMs advanced finished).2.Keyed := by
  intro id seq found
  rw [onStep_lookup] at found
  split at found
  · cases found
  · obtain ⟨old, before, rfl⟩ := Option.map_eq_some_iff.mp found
    exact (RunningSeq.advanceTimes_frame _ _ _ old).1.trans (keyed id old before)

/-- A listed sequence is found under its own id. -/
theorem Keyed.exists_runningSeqs (keyed : sched.Keyed) {p : RunningSeq → Prop} {id : RequestId} :
    (∃ seq ∈ sched.runningSeqs, p seq ∧ seq.id = id) ↔ ∃ seq, sched.running.lookup id = some seq ∧ p seq := by
  constructor
  · rintro ⟨seq, listed, holds, rfl⟩
    obtain ⟨entry, inside, rfl⟩ := List.mem_map.mp listed
    have found := AList.mem_lookup_iff.mpr inside
    exact ⟨entry.2, (keyed _ _ found) ▸ found, holds⟩
  · rintro ⟨seq, found, holds⟩
    exact ⟨seq, List.mem_map.mpr ⟨⟨id, seq⟩, AList.mem_lookup_iff.mp found, rfl⟩, holds, keyed _ _ found⟩

/-- The flags after a step are the flags that stay and the running sequences with nothing left to emit. -/
theorem onStep_books (keyed : sched.Keyed) (flagged : ∀ id ∈ sched.flagged, id ∈ sched.running) (now stepMs : Millis)
    (advanced finished : List RequestId) :
    let after := (sched.onStep now stepMs advanced finished).2
    (∀ id, id ∈ after.flagged ↔ id ∈ after.running ∧
      (id ∈ sched.flagged ∨ ∃ seq, after.running.lookup id = some seq ∧ seq.isDone = true)) ∧
      after.finishDisagreements + (sched.flagged.filter (· ∉ finished)).card =
        sched.finishDisagreements + after.flagged.card ∧
      after.unknownFinishReports + (sched.onStep now stepMs advanced finished).1.length =
        sched.unknownFinishReports + finished.length := by
  intro after
  let observed := { sched with
    controller := sched.controller.observe ((sched.steeringItlMs now).getD stepMs) sched.concurrency }
  let booked := advanced.foldl (advance now) observed
  let retired := (retire finished booked).2
  obtain ⟨bookedFlagged, bookedCount, bookedUnknown⟩ := advanceAll_books now advanced observed
  obtain ⟨retiredFlagged, retiredCount, retiredUnknown⟩ := retire_books finished booked
  obtain ⟨allFlagged, allCount, allUnknown⟩ := flagDone_books retired.runningSeqs retired
  have flags : retired.flagged = sched.flagged.filter (· ∉ finished) := by
    ext id
    rw [retiredFlagged, bookedFlagged, Finset.mem_filter]
    refine and_congr_right fun member => ?_
    rw [not_and]
    refine ⟨fun kept => kept ?_, fun absent _ => absent⟩
    exact ((advanceAll_frame now advanced observed keyed).2 id).mpr (flagged id member)
  have running : after.running = retired.running := flagDone_running _ _
  have retiredKeyed : retired.Keyed := (retire_spec finished booked (advanceAll_frame now advanced observed keyed).1).keyed
  have member : ∀ id, id ∈ sched.flagged.filter (· ∉ finished) → id ∈ after.running := by
    intro id kept
    obtain ⟨flag, absent⟩ := Finset.mem_filter.mp kept
    obtain ⟨seq, present⟩ := AList.mem_iff_exists_lookup.mp (flagged id flag)
    rw [← AList.lookup_isSome, onStep_lookup, if_neg absent, present]
    rfl
  have done : ∀ id, (∃ seq ∈ retired.runningSeqs, seq.isDone = true ∧ seq.id = id) ↔
      ∃ seq, after.running.lookup id = some seq ∧ seq.isDone = true := by
    intro id
    rw [running]
    exact retiredKeyed.exists_runningSeqs
  refine ⟨fun id => ?_, ?_, ?_⟩
  · refine (allFlagged id).trans ?_
    rw [done, flags]
    constructor
    · rintro (kept | ⟨seq, found, finish⟩)
      · exact ⟨member id kept, .inl (Finset.mem_filter.mp kept).1⟩
      · exact ⟨AList.mem_iff_exists_lookup.mpr ⟨_, found⟩, .inr ⟨seq, found, finish⟩⟩
    · rintro ⟨present, flag | finish⟩
      · refine .inl (Finset.mem_filter.mpr ⟨flag, fun reported => ?_⟩)
        rw [← AList.lookup_isSome, onStep_lookup, if_pos reported] at present
        cases present
      · exact .inr finish
  · rw [← flags]
    exact allCount.trans (by rw [retiredCount, bookedCount]; rfl)
  · change (retired.runningSeqs.foldl flagDone retired).unknownFinishReports + (retire finished booked).1.length = _
    rw [allUnknown, retiredUnknown, bookedUnknown]

/-! ### Histories -/

/-- One stay of a sequence: as it was admitted, whether it still runs, and whether some step left it running with its
whole budget booked. -/
structure Stay where
  first : RunningSeq
  live : Bool
  overdue : Bool
deriving DecidableEq, Repr

namespace Stay

/-- The stay ends when its sequence no longer runs. -/
def leave (running : HashMap RequestId RunningSeq) (stay : Stay) : Stay :=
  { stay with live := stay.live && decide (stay.first.id ∈ running) }

/-- A step left the sequence running; its count is looked at. -/
def check (running : HashMap RequestId RunningSeq) (stay : Stay) : Stay :=
  { stay with overdue := stay.overdue || stay.live && (running.lookup stay.first.id).any (·.isDone) }

/-- A step has passed. -/
def pass (running : HashMap RequestId RunningSeq) (stay : Stay) : Stay := (stay.leave running).check running

end Stay

/-- A scheduler beside the stays so far, in order of admission. -/
structure History where
  sched : DecodeScheduler
  stays : List Stay

namespace History

def apply (h : History) (op : SchedOp) : History where
  sched := h.sched.apply op
  stays := match op with
    | .consult _ => h.stays
    | .note _ => h.stays
    | .admitSeq seq => h.stays ++ [⟨seq, true, false⟩]
    | .admitAt seq _ => h.stays ++ [⟨seq, true, false⟩]
    | .onStep _ _ _ _ => h.stays.map (·.pass (h.sched.apply op).running)
    | .remove _ => h.stays.map (·.leave (h.sched.apply op).running)

/-- Only sequences that do not run are admitted. -/
def Enabled (h : History) : SchedOp → Prop
  | .admitSeq seq => seq.id ∉ h.sched.running
  | .admitAt seq _ => seq.id ∉ h.sched.running
  | _ => True

instance (h : History) : ∀ op, Decidable (h.Enabled op)
  | .admitSeq seq => inferInstanceAs (Decidable (seq.id ∉ h.sched.running))
  | .admitAt seq _ => inferInstanceAs (Decidable (seq.id ∉ h.sched.running))
  | .consult _ => inferInstanceAs (Decidable True)
  | .note _ => inferInstanceAs (Decidable True)
  | .onStep _ _ _ _ => inferInstanceAs (Decidable True)
  | .remove _ => inferInstanceAs (Decidable True)

/-- A new scheduler under any calls. -/
def system (itlBudgetMs : Millis) (controller : ItlController) (tokensPerStep : ℕ) :
    Machine.System History SchedOp :=
  .ofFun (· = ⟨(new itlBudgetMs controller).setTokensPerStep tokensPerStep, []⟩) Enabled apply

variable {h : History}

/-- The live stays are the running sequences, the flags are the live stays that are overdue, and the count is that
of all overdue stays. -/
structure Recorded (h : History) : Prop where
  keyed : h.sched.Keyed
  once : ((h.stays.filter (·.live)).map (·.first.id)).Nodup
  live : ∀ id, id ∈ h.sched.running ↔ ∃ stay ∈ h.stays, stay.live = true ∧ stay.first.id = id
  flagged : ∀ id, id ∈ h.sched.flagged ↔ ∃ stay ∈ h.stays, stay.live = true ∧ stay.overdue = true ∧ stay.first.id = id
  count : h.sched.finishDisagreements = h.stays.countP (·.overdue)
  booked : ∀ stay ∈ h.stays, stay.live = true → ∀ seq, h.sched.running.lookup stay.first.id = some seq →
    stay.first.WellBooked → seq.WellBooked

theorem Recorded.flagged_running (recorded : h.Recorded) : ∀ id ∈ h.sched.flagged, id ∈ h.sched.running := by
  intro id member
  obtain ⟨stay, listed, live, -, same⟩ := (recorded.flagged id).mp member
  exact (recorded.live id).mpr ⟨stay, listed, live, same⟩

theorem recorded_new (itlBudgetMs : Millis) (controller : ItlController) (tokensPerStep : ℕ) :
    Recorded ⟨(new itlBudgetMs controller).setTokensPerStep tokensPerStep, []⟩ where
  keyed id seq found := by simp [setTokensPerStep, DecodeScheduler.new] at found
  once := List.nodup_nil
  live id := by simp [setTokensPerStep, DecodeScheduler.new]
  flagged id := by simp [setTokensPerStep, DecodeScheduler.new]
  count := rfl
  booked _ member := nomatch member

/-- Overdue stays that run, counted by their ids. -/
theorem card_eq_countP {ids : Finset RequestId} {stays : List Stay}
    (once : ((stays.filter (·.live)).map (·.first.id)).Nodup)
    (mem : ∀ id, id ∈ ids ↔ ∃ stay ∈ stays, stay.live = true ∧ stay.overdue = true ∧ stay.first.id = id) :
    ids.card = (stays.filter (·.live)).countP (·.overdue) := by
  have same : ids = (((stays.filter (·.live)).filter (·.overdue)).map (·.first.id)).toFinset := by
    ext id
    simp only [mem, List.mem_toFinset, List.mem_map, List.mem_filter, and_assoc]
  rw [same, List.toFinset_card_of_nodup (once.sublist (List.filter_sublist.map _)), List.length_map,
    List.countP_eq_length_filter]

theorem ids_leave (running : HashMap RequestId RunningSeq) (stays : List Stay) :
    ((stays.map (·.leave running)).filter (·.live)).map (·.first.id) =
      ((stays.filter (·.live)).map (·.first.id)).filter (· ∈ running) := by
  rw [List.filter_map, List.map_map, List.filter_map, List.filter_filter]
  refine congrArg₂ _ rfl (List.filter_congr fun stay _ => ?_)
  exact Bool.and_comm _ _

theorem ids_check (running : HashMap RequestId RunningSeq) (stays : List Stay) :
    ((stays.map (·.check running)).filter (·.live)).map (·.first.id) = (stays.filter (·.live)).map (·.first.id) := by
  rw [List.filter_map, List.map_map]
  rfl

theorem overdue_leave (running : HashMap RequestId RunningSeq) (stays : List Stay) :
    (stays.map (·.leave running)).countP (·.overdue) = stays.countP (·.overdue) := by
  rw [List.countP_map]
  rfl

/-- Checking adds as many overdue stays as it adds live ones. -/
theorem overdue_check (running : HashMap RequestId RunningSeq) (stays : List Stay) :
    (stays.map (·.check running)).countP (·.overdue) + (stays.filter (·.live)).countP (·.overdue) =
      stays.countP (·.overdue) + ((stays.map (·.check running)).filter (·.live)).countP (·.overdue) := by
  have closed : ((stays.map (·.check running)).filter fun stay => !stay.live).countP (·.overdue) =
      (stays.filter fun stay => !stay.live).countP (·.overdue) := by
    rw [List.filter_map, List.countP_map]
    refine List.countP_congr fun stay member => ?_
    have dead : (!stay.live) = true := (List.mem_filter.mp member).2
    rw [Bool.not_eq_true'] at dead
    simp [Stay.check, dead]
  rw [List.countP_eq_countP_filter_add stays (·.overdue) (·.live),
    List.countP_eq_countP_filter_add (stays.map (·.check running)) (·.overdue) (·.live), closed]
  omega

theorem Recorded.admit (recorded : h.Recorded) {seq : RunningSeq} (fresh : seq.id ∉ h.sched.running)
    {stored : RunningSeq} (id : stored.id = seq.id) (tokens : seq.WellBooked → stored.WellBooked) :
    Recorded ⟨h.sched.admitSeq stored, h.stays ++ [⟨seq, true, false⟩]⟩ where
  keyed := recorded.keyed.admitted stored
  once := by
    rw [List.filter_append, List.map_append]
    refine List.Nodup.append recorded.once (List.nodup_singleton _) ?_
    rintro other before last
    obtain ⟨stay, listed, rfl⟩ := List.mem_map.mp before
    obtain ⟨inside, live⟩ := List.mem_filter.mp listed
    refine fresh ((recorded.live _).mpr ⟨stay, inside, live, ?_⟩)
    exact List.mem_singleton.mp last
  live other := by
    change other ∈ h.sched.running.insert stored.id stored ↔ _
    rw [AList.mem_insert, recorded.live, id]
    simp only [List.mem_append, List.mem_singleton, or_and_right, exists_or, exists_eq_left, true_and]
    exact or_comm.trans (or_congr_right eq_comm)
  flagged other := by
    change other ∈ h.sched.flagged ↔ _
    rw [recorded.flagged]
    simp [or_and_right, exists_or]
  count := by
    change h.sched.finishDisagreements = _
    rw [recorded.count, List.countP_append]
    rfl
  booked stay member live other found := by
    change (h.sched.running.insert stored.id stored).lookup stay.first.id = some other at found
    rw [AList.lookup_insert_eq_ite, id] at found
    rcases List.mem_append.mp member with before | last
    · have apart : stay.first.id ≠ seq.id := fun same =>
        fresh (same ▸ (recorded.live _).mpr ⟨stay, before, live, rfl⟩)
      rw [if_neg apart] at found
      exact recorded.booked stay before live other found
    · rw [List.mem_singleton.mp last, if_pos rfl] at found
      rw [List.mem_singleton.mp last, ← Option.some.inj found]
      exact tokens

/-- The live stays after a rewriting that closes those whose sequence is gone. -/
theorem exists_live_map {running : HashMap RequestId RunningSeq} (f : Stay → Stay)
    (closes : ∀ stay, (f stay).live = (stay.leave running).live) {stays : List Stay} {p : Stay → Prop} :
    (∃ stay ∈ stays.map f, stay.live = true ∧ p stay) ↔
      ∃ stay ∈ stays, stay.live = true ∧ stay.first.id ∈ running ∧ p (f stay) := by
  constructor
  · rintro ⟨_, listed, live, holds⟩
    obtain ⟨stay, member, rfl⟩ := List.mem_map.mp listed
    rw [closes] at live
    obtain ⟨before, here⟩ := Bool.and_eq_true_iff.mp live
    exact ⟨stay, member, before, of_decide_eq_true here, holds⟩
  · rintro ⟨stay, member, before, here, holds⟩
    refine ⟨_, List.mem_map_of_mem member, ?_, holds⟩
    rw [closes]
    exact Bool.and_eq_true_iff.mpr ⟨before, decide_eq_true here⟩

section Leave

variable {running : HashMap RequestId RunningSeq}

/-- The stays that some of the running sequences keep live. -/
theorem Recorded.live_leave (recorded : h.Recorded) (fewer : ∀ id ∈ running, id ∈ h.sched.running)
    {f : Stay → Stay} (closes : ∀ stay, (f stay).live = (stay.leave running).live)
    (same : ∀ stay, (f stay).first = stay.first) (id : RequestId) :
    id ∈ running ↔ ∃ stay ∈ h.stays.map f, stay.live = true ∧ stay.first.id = id := by
  simp only [exists_live_map f closes, same]
  constructor
  · intro present
    obtain ⟨stay, member, live, rfl⟩ := (recorded.live id).mp (fewer id present)
    exact ⟨stay, member, live, present, rfl⟩
  · rintro ⟨stay, -, -, here, rfl⟩
    exact here

/-- The flagged ones among them. -/
theorem Recorded.flagged_leave (recorded : h.Recorded) (id : RequestId) :
    id ∈ running ∧ id ∈ h.sched.flagged ↔
      ∃ stay ∈ h.stays.map (·.leave running), stay.live = true ∧ stay.overdue = true ∧ stay.first.id = id := by
  rw [exists_live_map (Stay.leave running) fun _ => rfl]
  constructor
  · rintro ⟨present, flag⟩
    obtain ⟨stay, member, live, overdue, rfl⟩ := (recorded.flagged id).mp flag
    exact ⟨stay, member, live, present, overdue, rfl⟩
  · rintro ⟨stay, member, live, here, overdue, rfl⟩
    exact ⟨here, (recorded.flagged _).mpr ⟨stay, member, live, overdue, rfl⟩⟩

/-- The overdue ones after a look at their counts. -/
theorem Recorded.flagged_pass (recorded : h.Recorded) (fewer : ∀ id ∈ running, id ∈ h.sched.running)
    (id : RequestId) :
    id ∈ running ∧ (id ∈ h.sched.flagged ∨ ∃ seq, running.lookup id = some seq ∧ seq.isDone = true) ↔
      ∃ stay ∈ h.stays.map (·.pass running), stay.live = true ∧ stay.overdue = true ∧ stay.first.id = id := by
  rw [exists_live_map (Stay.pass running) fun _ => rfl]
  constructor
  · rintro ⟨present, flag | ⟨seq, found, done⟩⟩
    · obtain ⟨stay, member, live, overdue, rfl⟩ := (recorded.flagged id).mp flag
      exact ⟨stay, member, live, present, by simp [Stay.pass, Stay.leave, Stay.check, overdue], rfl⟩
    · obtain ⟨stay, member, live, rfl⟩ := (recorded.live id).mp (fewer id present)
      have overdue : (stay.pass running).overdue = true := by
        simp [Stay.pass, Stay.leave, Stay.check, live, present, found, done]
      exact ⟨stay, member, live, present, overdue, rfl⟩
  · rintro ⟨stay, member, live, here, overdue, rfl⟩
    refine ⟨here, ?_⟩
    rcases Bool.or_eq_true_iff.mp overdue with old | new
    · exact .inl ((recorded.flagged _).mpr ⟨stay, member, live, old, rfl⟩)
    · have done := (Bool.and_eq_true_iff.mp new).2
      change (running.lookup stay.first.id).any (·.isDone) = true at done
      obtain ⟨seq, found⟩ := AList.mem_iff_exists_lookup.mp here
      rw [found, Option.any_some] at done
      exact .inr ⟨seq, found, done⟩

end Leave

theorem Recorded.remove (recorded : h.Recorded) (id : RequestId) :
    Recorded ⟨(h.sched.remove id).2, h.stays.map (·.leave (h.sched.remove id).2.running)⟩ := by
  have running : ∀ other, other ∈ (h.sched.remove id).2.running ↔ other ≠ id ∧ other ∈ h.sched.running := fun _ =>
    AList.mem_erase
  refine ⟨recorded.keyed.erase id _, ?_, fun other => ?_, fun other => ?_, ?_, ?_⟩
  · rw [ids_leave]
    exact recorded.once.filter _
  · exact recorded.live_leave (fun other member => ((running other).mp member).2) (fun _ => rfl) (fun _ => rfl) other
  · rw [← recorded.flagged_leave, running]
    refine (Finset.mem_erase : other ∈ h.sched.flagged.erase id ↔ _).trans ?_
    exact ⟨fun kept => ⟨⟨kept.1, recorded.flagged_running other kept.2⟩, kept.2⟩, fun both => ⟨both.1.1, both.2⟩⟩
  · rw [overdue_leave]
    exact recorded.count
  · rintro _ listed live seq found
    obtain ⟨stay, member, rfl⟩ := List.mem_map.mp listed
    refine recorded.booked stay member (Bool.and_eq_true_iff.mp live).1 seq ?_
    change (h.sched.running.erase id).lookup stay.first.id = some seq at found
    exact AList.lookup_of_erase found

theorem Recorded.onStep (recorded : h.Recorded) (now stepMs : Millis) (advanced finished : List RequestId) :
    let after := (h.sched.onStep now stepMs advanced finished).2
    Recorded ⟨after, h.stays.map (·.pass after.running)⟩ := by
  intro after
  obtain ⟨flags, count, -⟩ :=
    onStep_books recorded.keyed recorded.flagged_running now stepMs advanced finished
  change ∀ id, id ∈ after.flagged ↔ id ∈ after.running ∧ (id ∈ h.sched.flagged ∨
    ∃ seq, after.running.lookup id = some seq ∧ seq.isDone = true) at flags
  change after.finishDisagreements + _ = _ + after.flagged.card at count
  have lookup : ∀ id, after.running.lookup id = _ := h.sched.onStep_lookup now stepMs advanced finished
  have running : ∀ id, id ∈ after.running ↔ id ∉ finished ∧ id ∈ h.sched.running := by
    intro id
    rw [← AList.lookup_isSome, lookup, ← AList.lookup_isSome]
    split
    next reported => simp [reported]
    next kept => simp [kept]
  have split : (h.stays.map (·.pass after.running)) =
      (h.stays.map (·.leave after.running)).map (·.check after.running) := by
    rw [List.map_map]
    rfl
  have once : (((h.stays.map (·.leave after.running)).filter (·.live)).map (·.first.id)).Nodup := by
    rw [ids_leave]
    exact recorded.once.filter _
  have kept : ∀ id, id ∈ h.sched.flagged.filter (· ∉ finished) ↔
      ∃ stay ∈ h.stays.map (·.leave after.running), stay.live = true ∧ stay.overdue = true ∧ stay.first.id = id := by
    intro id
    rw [← recorded.flagged_leave, Finset.mem_filter, running]
    exact ⟨fun kept => ⟨⟨kept.2, recorded.flagged_running id kept.1⟩, kept.1⟩, fun both => ⟨both.2, both.1.1⟩⟩
  have fewer : ∀ id ∈ after.running, id ∈ h.sched.running := fun id member => ((running id).mp member).2
  have flagged : ∀ id, id ∈ after.flagged ↔ ∃ stay ∈ h.stays.map (·.pass after.running), stay.live = true ∧
      stay.overdue = true ∧ stay.first.id = id := fun id => (flags id).trans (recorded.flagged_pass fewer id)
  refine ⟨recorded.keyed.onStep now stepMs advanced finished, ?_,
    recorded.live_leave fewer (fun _ => rfl) fun _ => rfl, flagged, ?_, ?_⟩
  · rw [split, ids_check]
    exact once
  · have cards := card_eq_countP once kept
    rw [split] at flagged
    have all := card_eq_countP (by rw [ids_check]; exact once) flagged
    have added := overdue_check after.running (h.stays.map (·.leave after.running))
    rw [overdue_leave, ← recorded.count] at added
    rw [split]
    change after.finishDisagreements =
      ((h.stays.map (·.leave after.running)).map (·.check after.running)).countP (·.overdue)
    omega
  · rintro _ listed live seq found first
    obtain ⟨stay, member, rfl⟩ := List.mem_map.mp listed
    rw [lookup] at found
    split at found
    · cases found
    · obtain ⟨old, before, rfl⟩ := Option.map_eq_some_iff.mp found
      obtain ⟨some, within⟩ := recorded.booked stay member (Bool.and_eq_true_iff.mp live).1 old before first
      obtain ⟨-, requested, tokens⟩ := RunningSeq.advanceTimes_frame (max h.sched.tokensPerStep 1) now
        (advanced.count stay.first.id) old
      obtain ⟨more, bound⟩ := tokens within
      exact ⟨some.trans more, bound.trans requested.ge⟩

theorem Recorded.apply (recorded : h.Recorded) {op : SchedOp} (enabled : h.Enabled op) : (h.apply op).Recorded := by
  have noted : ∀ decision, Recorded ⟨h.sched.note decision, h.stays⟩ := by
    intro decision
    have running := h.sched.note_running decision
    have flagged : (h.sched.note decision).flagged = h.sched.flagged := by cases decision <;> rfl
    have count : (h.sched.note decision).finishDisagreements = h.sched.finishDisagreements := by cases decision <;> rfl
    refine ⟨recorded.keyed.note decision, recorded.once, ?_, ?_, count.trans recorded.count, ?_⟩
    · rw [running]
      exact recorded.live
    · rw [flagged]
      exact recorded.flagged
    · rw [running]
      exact recorded.booked
  cases op with
  | consult kvHeadroom => exact noted _
  | note decision => exact noted decision
  | admitSeq seq => exact recorded.admit enabled rfl id
  | admitAt seq now => exact recorded.admit enabled rfl id
  | onStep now stepMs advanced finished => exact recorded.onStep now stepMs advanced finished
  | remove id => exact recorded.remove id

/-- What a step does for the engine's report: who runs on, who is returned, what is booked, what is counted. -/
structure Reported (sched : DecodeScheduler) (advanced finished : List RequestId) (done : List RunningSeq)
    (after : DecodeScheduler) : Prop where
  running : ∀ id, id ∈ after.running ↔ id ∈ sched.running ∧ id ∉ finished
  returned : done.map (·.id) = finished.eraseDups.filter (· ∈ sched.running)
  unadvanced : ∀ id seq, sched.running.lookup id = some seq → id ∉ advanced →
    ∀ later, after.running.lookup id = some later ∨ later ∈ done ∧ later.id = id → later = seq
  grows : ∀ id seq, sched.running.lookup id = some seq → seq.WellBooked →
    ∀ later, after.running.lookup id = some later ∨ later ∈ done ∧ later.id = id → seq.tokensEmitted ≤ later.tokensEmitted
  unknown : after.unknownFinishReports + done.length = sched.unknownFinishReports + finished.length

theorem Recorded.reported (recorded : h.Recorded) (now stepMs : Millis) (advanced finished : List RequestId) :
    Reported h.sched advanced finished (h.sched.onStep now stepMs advanced finished).1
      (h.sched.onStep now stepMs advanced finished).2 := by
  have lookup := h.sched.onStep_lookup now stepMs advanced finished
  have done := h.sched.onStep_fst now stepMs advanced finished
  have source : ∀ id seq, h.sched.running.lookup id = some seq → ∀ later,
      (h.sched.onStep now stepMs advanced finished).2.running.lookup id = some later ∨
        later ∈ (h.sched.onStep now stepMs advanced finished).1 ∧ later.id = id →
      later = RunningSeq.advanceTimes (max h.sched.tokensPerStep 1) now (advanced.count id) seq := by
    rintro id seq found later (stays | ⟨listed, same⟩)
    · rw [lookup, found] at stays
      split at stays
      · cases stays
      · exact (Option.some.inj stays).symm
    · rw [done] at listed
      obtain ⟨other, -, entry⟩ := List.mem_filterMap.mp listed
      obtain ⟨old, before, rfl⟩ := Option.map_eq_some_iff.mp entry
      have key := recorded.keyed other old before
      rw [(RunningSeq.advanceTimes_frame _ _ _ old).1, key] at same
      subst same
      rw [found] at before
      rw [Option.some.inj before]
  obtain ⟨-, -, unknown⟩ := onStep_books recorded.keyed recorded.flagged_running now stepMs advanced finished
  refine ⟨fun id => ?_, ?_, fun id seq found absent later either => ?_, fun id seq found booked later either => ?_, ?_⟩
  · rw [← AList.lookup_isSome, lookup, ← AList.lookup_isSome]
    split
    next reported => simp [reported]
    next kept => simp [kept]
  · rw [done, List.map_filterMap, ← List.filterMap_eq_filter]
    refine List.filterMap_congr fun id _ => ?_
    cases found : h.sched.running.lookup id with
    | none =>
      have absent := AList.lookup_eq_none.mp found
      simp [absent, Option.guard]
    | some seq =>
      have present := AList.mem_iff_exists_lookup.mpr ⟨_, found⟩
      simp [present, Option.guard, (RunningSeq.advanceTimes_frame _ _ _ seq).1, recorded.keyed id seq found]
  · rw [source id seq found later either, List.count_eq_zero.mpr absent]
    rfl
  · rw [source id seq found later either]
    exact ((RunningSeq.advanceTimes_frame _ _ _ seq).2.2 booked.2).1
  · exact unknown

/-- In every history the flags are running ids, the disagreements count the stays that some step left running with
everything booked, running counts are within bounds, and every step does what the engine reports. -/
theorem books_follow_reports (itlBudgetMs : Millis) (controller : ItlController) (tokensPerStep : ℕ)
    {ops : List SchedOp} {h : History} (run : Machine.Run (system itlBudgetMs controller tokensPerStep) ops h) :
    (∀ id ∈ h.sched.flagged, id ∈ h.sched.running) ∧
      h.sched.finishDisagreements = h.stays.countP (·.overdue) ∧
      (∀ id seq, h.sched.running.lookup id = some seq → ∃ stay ∈ h.stays, stay.live = true ∧ stay.first.id = id ∧
        (stay.first.WellBooked → seq.WellBooked)) ∧
      ∀ now stepMs advanced finished, Reported h.sched advanced finished
        (h.sched.onStep now stepMs advanced finished).1 (h.sched.onStep now stepMs advanced finished).2 := by
  have recorded : h.Recorded := run.invariant
    (fun s first => by
      rw [show s = _ from first]
      exact recorded_new itlBudgetMs controller tokensPerStep)
    (fun s op t before taken => by
      rw [taken.2]
      exact before.apply taken.1)
  refine ⟨recorded.flagged_running, recorded.count, fun id seq found => ?_, recorded.reported⟩
  have present := AList.mem_iff_exists_lookup.mpr ⟨_, found⟩
  obtain ⟨stay, member, live, rfl⟩ := (recorded.live id).mp present
  exact ⟨stay, member, live, rfl, recorded.booked stay member live seq found⟩

/-- A sequence that is never reported finished is counted once, and again after it is admitted anew. -/
def stubbornRun : List SchedOp :=
  [.admitSeq (.new 1 0 2), .onStep 10 10 [1, 9] [], .onStep 20 10 [1] [8], .remove 1, .admitSeq (.new 1 30 1),
    .onStep 40 10 [] []]

theorem stubbornRun_counted_twice :
    ∃ h, Machine.Run (system 20 (.new 20 4 1 4) 1) stubbornRun h ∧ h.sched.finishDisagreements = 2 ∧
      ∀ id seq, h.sched.running.lookup id = some seq → seq.WellBooked := by
  have start : Machine.Run (system 20 (.new 20 4 1 4) 1) [] ⟨_, []⟩ := .start rfl
  have run := (((((start.apply (.admitSeq (.new 1 0 2)) (by decide)).apply (.onStep 10 10 [1, 9] []) trivial).apply
    (.onStep 20 10 [1] [8]) trivial).apply (.remove 1) trivial).apply (.admitSeq (.new 1 30 1)) (by decide +kernel)).apply
    (.onStep 40 10 [] []) trivial
  obtain ⟨-, count, booked, -⟩ := books_follow_reports 20 (.new 20 4 1 4) 1 run
  refine ⟨_, run, count.trans (by decide +kernel), fun id seq found => ?_⟩
  obtain ⟨stay, member, -, -, first⟩ := booked id seq found
  have listed : stay.first ∈ [RunningSeq.new 1 0 2, .new 1 30 1] := List.mem_map.mpr ⟨stay, member, rfl⟩
  refine first ?_
  rcases List.mem_pair.mp listed with same | same
  · exact same ▸ RunningSeq.wellBooked_new 1 0 (by decide)
  · exact same ▸ RunningSeq.wellBooked_new 1 30 le_rfl

end History

end DecodeScheduler

end TrtLlm.Sched
