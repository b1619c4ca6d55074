import TrtLlm.Model.Core.Stats
import TrtLlm.Model.Router.Policy
import TrtLlm.Soundness.DecodeRound
import TrtLlm.ToMathlib.ListSort
import TrtLlm.ToMathlib.PermFold

/-! # What does not depend on iteration order

Schedulers, the registry and the statistics iterate hash maps. What they compute depends only on what the maps hold:
sums and minima do not see the order, sorted lists forget it, and the loops of a decode step may visit the sequences in
any order.
-/

namespace TrtLlm

/-- Two maps that hold the same, so that only an iteration can tell them apart. -/
def HashMap.Same {κ ν : Type} [DecidableEq κ] (a b : HashMap κ ν) : Prop := ∀ key, a.lookup key = b.lookup key

namespace HashMap.Same

variable {κ ν : Type} [DecidableEq κ] {a b c : HashMap κ ν}

theorem refl (a : HashMap κ ν) : a.Same a := fun _ => rfl

theorem symm (same : a.Same b) : b.Same a := fun key => (same key).symm

theorem trans (first : a.Same b) (second : b.Same c) : a.Same c := fun key => (first key).trans (second key)

theorem rehash (order : IterOrder) (a : HashMap κ ν) : (HashMap.rehash order a).Same a := fun _ =>
  AList.perm_lookup (HashMap.rehash_perm order a)

theorem perm (same : a.Same b) : a.entries.Perm b.entries := AList.perm_of_lookup same

theorem insert (same : a.Same b) (key : κ) (value : ν) : HashMap.Same (a.insert key value) (b.insert key value) := by
  intro other
  rw [AList.lookup_insert_eq_ite, AList.lookup_insert_eq_ite, same other]

theorem erase (same : a.Same b) (key : κ) : HashMap.Same (a.erase key) (b.erase key) := by
  intro other
  rw [AList.lookup_erase_eq_ite, AList.lookup_erase_eq_ite, same other]

theorem insert_comm (same : a.Same b) {key other : κ} (apart : key ≠ other) (value value' : ν) :
    HashMap.Same ((a.insert key value).insert other value') ((b.insert other value').insert key value) := by
  intro id
  simp only [AList.lookup_insert_eq_ite, same id]
  by_cases here : id = key
  · rw [if_pos here, if_pos here, if_neg (here ▸ apart)]
  · rw [if_neg here, if_neg here]

theorem erase_comm (same : a.Same b) (key other : κ) :
    HashMap.Same ((a.erase key).erase other) ((b.erase other).erase key) := by
  intro id
  simp only [AList.lookup_erase_eq_ite, same id]
  by_cases here : id = key
  · rw [if_pos here, if_pos here, ite_self]
  · rw [if_neg here, if_neg here]

end HashMap.Same

end TrtLlm

namespace TrtLlm.Sched

theorem PrefillScheduler.queuedTokens_rehash (order : IterOrder) (sched : PrefillScheduler) :
    (sched.rehash order).queuedTokens = sched.queuedTokens :=
  AList.sum_congr_lookup _ (HashMap.Same.rehash order sched.queue)

namespace DecodeScheduler

/-- Two schedulers that differ at most in how their running map is stored. -/
inductive Alike (a : DecodeScheduler) : DecodeScheduler → Prop
  | intro {running : HashMap RequestId RunningSeq} (same : a.running.Same running) : Alike a { a with running }

namespace Alike

variable {a b c : DecodeScheduler}

theorem refl (a : DecodeScheduler) : Alike a a := .intro (.refl _)

theorem trans (first : Alike a b) (second : Alike b c) : Alike a c := by
  obtain ⟨same⟩ := first
  obtain ⟨same'⟩ := second
  exact .intro (same.trans same')

theorem same (alike : Alike a b) : a.running.Same b.running := by
  obtain ⟨same⟩ := alike
  exact same

theorem rehash (alike : Alike a b) (order order' : IterOrder) : Alike (a.rehash order) (b.rehash order') := by
  obtain ⟨same⟩ := alike
  exact .intro ((HashMap.Same.rehash order _).trans (same.trans (HashMap.Same.rehash order' _).symm))

theorem seqs (alike : Alike a b) : a.runningSeqs.Perm b.runningSeqs := alike.same.perm.map _

theorem concurrency (alike : Alike a b) : a.concurrency = b.concurrency := alike.same.perm.length_eq

theorem tightestToleranceMs (alike : Alike a b) : a.tightestToleranceMs = b.tightestToleranceMs := by
  have seqs := alike.seqs
  obtain ⟨same⟩ := alike
  exact (seqs.map _).foldl_op_eq

theorem canAdmit (alike : Alike a b) (kvHeadroom : Bool) : a.canAdmit kvHeadroom = b.canAdmit kvHeadroom := by
  have concurrency := alike.concurrency
  have tightest := alike.tightestToleranceMs
  have spoils : a.wouldSpoil ↔ b.wouldSpoil := by
    unfold wouldSpoil
    rw [tightest]
    obtain ⟨same⟩ := alike
    exact Iff.rfl
  have cap : a.controller.cap = b.controller.cap := by
    obtain ⟨same⟩ := alike
    rfl
  simp only [DecodeScheduler.canAdmit, concurrency, spoils, cap]

theorem note (alike : Alike a b) (decision : AdmitDecision) : Alike (a.note decision) (b.note decision) := by
  obtain ⟨same⟩ := alike
  cases decision <;> exact .intro same

theorem admitAt (alike : Alike a b) (seq : RunningSeq) (now : Millis) : Alike (a.admitAt seq now) (b.admitAt seq now) := by
  obtain ⟨same⟩ := alike
  exact .intro (same.insert _ _)

theorem steeringItlMs (alike : Alike a b) (now : Millis) : a.steeringItlMs now = b.steeringItlMs now := by
  have ages := alike.seqs.map fun seq => seq.ageMs now
  have sorted : (a.runningSeqs.map (·.ageMs now)).insertionSort (· ≤ ·) =
      (b.runningSeqs.map (·.ageMs now)).insertionSort (· ≤ ·) :=
    List.insertionSort_eq_of_perm ages fun _ _ _ _ => le_antisymm
  simp only [DecodeScheduler.steeringItlMs, List.isEmpty_iff_length_eq_zero, ages.length_eq, sorted]

/-! ### The loops of a step -/

theorem advance (alike : Alike a b) (now : Millis) (id : RequestId) :
    Alike (DecodeScheduler.advance now a id) (DecodeScheduler.advance now b id) := by
  obtain ⟨same⟩ := alike
  simp only [DecodeScheduler.advance, same id]
  split
  · exact .intro (same.insert _ _)
  · exact .intro same

theorem advance_swap (alike : Alike a b) (now : Millis) (first second : RequestId) :
    Alike (DecodeScheduler.advance now (DecodeScheduler.advance now a first) second)
      (DecodeScheduler.advance now (DecodeScheduler.advance now b second) first) := by
  by_cases apart : first = second
  · rw [apart]
    exact (alike.advance now second).advance now second
  refine .trans ((alike.advance now first).advance now second) ?_
  cases here : b.running.lookup first <;> cases there : b.running.lookup second <;>
    simp only [DecodeScheduler.advance, here, there, AList.lookup_insert_ne apart, AList.lookup_insert_ne (Ne.symm apart)]
  · exact .refl _
  · exact .refl _
  · exact .refl _
  · exact .intro (HashMap.Same.insert_comm (.refl _) apart _ _)

theorem flagDone (alike : Alike a b) (seq : RunningSeq) : Alike (a.flagDone seq) (b.flagDone seq) := by
  obtain ⟨same⟩ := alike
  unfold DecodeScheduler.flagDone
  split <;> exact .intro same

theorem flagDone_swap (alike : Alike a b) (first second : RunningSeq) :
    Alike ((a.flagDone first).flagDone second) ((b.flagDone second).flagDone first) := by
  refine .trans ((alike.flagDone first).flagDone second) ?_
  suffices same : (b.flagDone first).flagDone second = (b.flagDone second).flagDone first from same ▸ .refl _
  unfold DecodeScheduler.flagDone
  by_cases same : first.id = second.id
  · by_cases one : first.isDone <;> by_cases two : second.isDone <;> by_cases flagged : second.id ∈ b.flagged <;>
      simp [same, one, two, flagged]
  · by_cases one : first.isDone ∧ first.id ∉ b.flagged <;> by_cases two : second.isDone ∧ second.id ∉ b.flagged <;>
      simp [same, Ne.symm same, one, two, Finset.insert_comm]

/-- Retiring two lists of ids takes the same sequences and leaves the same ones. -/
def Retires (finished finished' : List RequestId) (a b : DecodeScheduler) : Prop :=
  (DecodeScheduler.retire finished a).1.Perm (DecodeScheduler.retire finished' b).1 ∧
    Alike (DecodeScheduler.retire finished a).2 (DecodeScheduler.retire finished' b).2

theorem retires_cons {finished finished' : List RequestId} (rest : ∀ {a b}, Alike a b → Retires finished finished' a b)
    (id : RequestId) (alike : Alike a b) : Retires (id :: finished) (id :: finished') a b := by
  obtain ⟨same⟩ := alike
  simp only [Retires, DecodeScheduler.retire, same id]
  split
  next seq found =>
    obtain ⟨done, left⟩ := rest (.intro (same.erase id) : Alike
      { a with running := a.running.erase id, flagged := a.flagged.erase id } _)
    exact ⟨done.cons seq, left⟩
  next => exact rest (.intro same : Alike { a with unknownFinishReports := a.unknownFinishReports + 1 } _)

theorem retires_same (finished : List RequestId) (alike : Alike a b) : Retires finished finished a b := by
  induction finished generalizing a b with
  | nil => exact ⟨.nil, alike⟩
  | cons id finished ih => exact retires_cons ih id alike

theorem retires_swap (first second : RequestId) (finished : List RequestId) :
    Retires (second :: first :: finished) (first :: second :: finished) a a := by
  by_cases apart : first = second
  · rw [apart]
    exact retires_same _ (.refl a)
  cases here : a.running.lookup first <;> cases there : a.running.lookup second <;>
    simp only [Retires, DecodeScheduler.retire, here, there, AList.lookup_erase_ne apart,
      AList.lookup_erase_ne (Ne.symm apart)]
  · exact ⟨.refl _, .refl _⟩
  · exact ⟨.refl _, .refl _⟩
  · exact ⟨.refl _, .refl _⟩
  · obtain ⟨done, left⟩ := retires_same finished (.intro (HashMap.Same.erase_comm (.refl _) second first) : Alike
      { a with running := (a.running.erase second).erase first, flagged := (a.flagged.erase first).erase second } _)
    rw [show (a.flagged.erase second).erase first = (a.flagged.erase first).erase second from Finset.erase_right_comm]
    exact ⟨(List.Perm.swap _ _ _).trans ((done.cons _).cons _), left⟩

/-- Retiring ids in another order retires the same sequences. -/
theorem retire {finished finished' : List RequestId} (perm : finished.Perm finished') (alike : Alike a b) :
    Retires finished finished' a b := by
  induction perm generalizing a b with
  | nil => exact ⟨.nil, alike⟩
  | cons id _ ih => exact retires_cons ih id alike
  | swap first second finished =>
    obtain ⟨done, left⟩ := retires_same (second :: first :: finished) alike
    obtain ⟨done', left'⟩ := retires_swap (a := b) first second finished
    exact ⟨done.trans done', left.trans left'⟩
  | trans _ _ ih ih' =>
    obtain ⟨done, left⟩ := ih alike
    obtain ⟨done', left'⟩ := ih' (.refl b)
    exact ⟨done.trans done', left.trans left'⟩

/-- A simulated step finishes the same sequences, whatever the orders of its iterations. -/
theorem onStepSynthetic (alike : Alike a b) (orders orders' : StepOrders) (now stepMs : Millis) :
    (a.onStepSyntheticIn orders now stepMs).1.Perm (b.onStepSyntheticIn orders' now stepMs).1 ∧
      Alike (a.onStepSyntheticIn orders now stepMs).2 (b.onStepSyntheticIn orders' now stepMs).2 := by
  have advanced : (a.rehash orders.advanced).running.keys.Perm (b.rehash orders'.advanced).running.keys :=
    (alike.rehash _ _).same.perm.map Sigma.fst
  have finished := (((alike.rehash orders.finished orders'.finished).seqs.filter fun seq =>
    seq.requestedTokens ≤ seq.tokensEmitted + 1).map (·.id))
  have steer := (alike.rehash orders.ages orders'.ages).steeringItlMs now
  let observe (sched : DecodeScheduler) (ages : IterOrder) : DecodeScheduler :=
    { sched with
      controller := sched.controller.observe (((sched.rehash ages).steeringItlMs now).getD stepMs) sched.concurrency }
  have observed : Alike (observe a orders.ages) (observe b orders'.ages) := by
    simp only [observe]
    rw [steer, alike.concurrency]
    obtain ⟨same⟩ := alike
    exact .intro same
  have booked := advanced.foldl_rel (D := fun _ _ => True) .trans (fun _ => .refl _) (fun _ => trivial)
    (fun id alike => alike.advance now id) (fun id other _ alike => alike.advance_swap now id other)
    (List.pairwise_of_forall fun _ _ => trivial) observed
  obtain ⟨done, retired⟩ := retire finished booked
  refine ⟨done, ?_⟩
  exact (retired.rehash orders.flags orders'.flags).seqs.foldl_rel (D := fun _ _ => True) .trans (fun _ => .refl _)
    (fun _ => trivial) (fun seq alike => alike.flagDone seq) (fun seq other _ alike => alike.flagDone_swap seq other)
    (List.pairwise_of_forall fun _ _ => trivial) retired

end Alike

end DecodeScheduler

end TrtLlm.Sched

namespace TrtLlm.Routing.WorkerRegistry

/-- Workers sit under their own ids. -/
def Keyed (registry : WorkerRegistry) : Prop := ∀ id worker, registry.workers.lookup id = some worker → worker.id = id

variable {registry : WorkerRegistry}

theorem Keyed.register (keyed : registry.Keyed) (worker : WorkerState) : (registry.register worker).Keyed := by
  intro id other found
  by_cases here : id = worker.id
  · subst here
    rw [show (registry.register worker).workers.lookup worker.id = some worker from AList.lookup_insert _] at found
    rw [← Option.some.inj found]
  · rw [show (registry.register worker).workers.lookup id = _ from AList.lookup_insert_ne here] at found
    exact keyed id other found

theorem Keyed.updateLoad (keyed : registry.Keyed) (id : WorkerId) (load : WorkerLoad) :
    (registry.updateLoad id load).Keyed := by
  unfold WorkerRegistry.updateLoad
  split
  next worker found =>
    obtain rfl := keyed id worker found
    exact keyed.register { worker with load, healthy := true }
  next => exact keyed

/-- The live workers come in order of their ids, whatever order the registry was iterated in. -/
theorem Keyed.live_rehash (keyed : registry.Keyed) (order order' : IterOrder) (role : WorkerRole) (now : Millis) :
    (registry.rehash order).live role now = (registry.rehash order').live role now := by
  have perm : (registry.rehash order).workers.entries.Perm (registry.rehash order').workers.entries :=
    (HashMap.rehash_perm order _).trans (HashMap.rehash_perm order' _).symm
  refine List.insertionSort_eq_of_perm ((perm.map Sigma.snd).filter _) fun a here b there before after => ?_
  have stored : ∀ worker ∈ (((registry.rehash order).workers.entries.map Sigma.snd).filter
      ((registry.rehash order).isLive role now)), registry.workers.lookup worker.id = some worker := by
    intro worker member
    obtain ⟨⟨id, _⟩, listed, rfl⟩ := List.mem_map.mp (List.mem_filter.mp member).1
    have found := AList.mem_lookup_iff.mpr ((HashMap.rehash_perm order _).mem_iff.mp listed)
    rw [keyed id _ found]
    exact found
  have same : a.id = b.id := le_antisymm before after
  exact Option.some.inj ((stored a here).symm.trans (same ▸ stored b there))

end TrtLlm.Routing.WorkerRegistry

namespace TrtLlm

theorem LatencyStats.fromSamples_perm {samples samples' : List ℚ} (perm : samples.Perm samples') :
    fromSamples samples = fromSamples samples' := by
  have sorted : samples.insertionSort (· ≤ ·) = samples'.insertionSort (· ≤ ·) :=
    List.insertionSort_eq_of_perm perm fun _ _ _ _ => le_antisymm
  simp only [fromSamples, List.isEmpty_iff_length_eq_zero, perm.length_eq, sorted]

theorem VerdictTally.count_swap (slo : Slo) (tally : VerdictTally) (first second : RequestOutcome) :
    (tally.count slo first).count slo second = (tally.count slo second).count slo first := by
  unfold count
  cases first.verdict slo <;> cases second.verdict slo <;> simp [Nat.add_right_comm]

/-- The score of a window does not depend on the order of the outcomes. -/
theorem GoodputReport.fromOutcomes_perm {outcomes outcomes' : List RequestOutcome} (perm : outcomes.Perm outcomes')
    (windowS : ℚ) (slo : Slo) : fromOutcomes outcomes windowS slo = fromOutcomes outcomes' windowS slo := by
  have tally : outcomes.foldl (VerdictTally.count slo) {} = outcomes'.foldl (VerdictTally.count slo) {} :=
    perm.foldl_eq' (fun first _ second _ tally => VerdictTally.count_swap slo tally first second) {}
  have ttft := LatencyStats.fromSamples_perm (perm.map (·.ttftMs))
  have itl := LatencyStats.fromSamples_perm (perm.map (·.meanItlMs))
  simp only [fromOutcomes, tally, perm.length_eq, ttft, itl]

end TrtLlm
