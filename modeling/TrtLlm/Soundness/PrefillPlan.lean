import Mathlib.Data.List.Perm.Basic
import TrtLlm.Model.Sched.Prefill

/-! # What planning and completing a batch do to the queue

Every policy deals the queue out over its two lists. A planned batch therefore names distinct queued
requests, and each chunk starts where its request stands. Completing such a batch credits exactly
its chunks and removes exactly the requests whose chunk was the last one.
-/

namespace TrtLlm.Sched

/-! ### The ordering policies keep every job -/

theorem longest_getElem {jobs : List Job} {i : ℕ} {job : Job} (found : longest jobs = some (i, job)) :
    jobs[i]? = some job := by
  induction jobs generalizing i job with
  | nil => cases found
  | cons first jobs ih =>
    rw [longest] at found
    cases rest : longest jobs with
    | none =>
      rw [rest] at found
      obtain ⟨rfl, rfl⟩ := Prod.mk.inj (Option.some.inj found)
      rfl
    | some best =>
      rw [rest] at found
      simp only at found
      split at found
      · obtain ⟨rfl, rfl⟩ := Prod.mk.inj (Option.some.inj found)
        exact ih rest
      · obtain ⟨rfl, rfl⟩ := Prod.mk.inj (Option.some.inj found)
        rfl

theorem Walk.visit_perm (walk : Walk) (job : Job) :
    ((walk.visit job).accepted ++ (walk.visit job).demoted).Perm (job :: (walk.accepted ++ walk.demoted)) := by
  have pushed : ((walk.accepted ++ [job]) ++ walk.demoted).Perm (job :: (walk.accepted ++ walk.demoted)) := by
    rw [List.append_assoc]
    exact List.perm_middle
  unfold Walk.visit
  simp only
  split
  next =>
    cases found : longest (walk.accepted ++ [job]) with
    | none => exact pushed
    | some best =>
      obtain ⟨victim, removed⟩ := best
      obtain ⟨inside, value⟩ := List.getElem?_eq_some_iff.mp (longest_getElem found)
      have evicted : (removed :: (walk.accepted ++ [job]).eraseIdx victim).Perm (walk.accepted ++ [job]) := by
        rw [← value]
        exact List.getElem_cons_eraseIdx_perm inside
      refine List.Perm.trans ?_ pushed
      refine List.Perm.trans ?_ (evicted.append_right walk.demoted)
      rw [List.cons_append, ← List.append_assoc]
      exact (List.perm_append_singleton _ _)
  next => exact pushed

theorem walk_perm (jobs : List Job) (walk : Walk) :
    ((jobs.foldl Walk.visit walk).accepted ++ (jobs.foldl Walk.visit walk).demoted).Perm
      (jobs ++ (walk.accepted ++ walk.demoted)) := by
  induction jobs generalizing walk with
  | nil => exact List.Perm.refl _
  | cons job jobs ih =>
    refine (ih (walk.visit job)).trans ?_
    refine ((walk.visit_perm job).append_left jobs).trans ?_
    exact List.perm_middle

theorem mooreHodgson_perm (jobs : List Job) (now : Millis) :
    ((mooreHodgson jobs now).onTime ++ (mooreHodgson jobs now).demoted).Perm (jobs.map (·.id)) := by
  unfold mooreHodgson
  simp only [← List.map_append]
  refine List.Perm.map _ ?_
  have dealt := walk_perm (jobs.insertionSort Job.deadlineLe) ⟨[], [], now⟩
  simp only [List.append_nil] at dealt
  refine List.Perm.trans ?_ (dealt.trans (List.perm_insertionSort _ jobs))
  exact (List.perm_insertionSort _ _).append_left _

/-- Every policy returns each job exactly once. -/
theorem orderJobs_perm (jobs : List Job) (now : Millis) (policy : PrefillPolicy) :
    ((orderJobs jobs now policy).onTime ++ (orderJobs jobs now policy).demoted).Perm (jobs.map (·.id)) := by
  cases policy with
  | fcfs =>
    rw [orderJobs, List.append_nil]
    exact (List.perm_insertionSort _ jobs).map _
  | edf =>
    rw [orderJobs, List.append_nil]
    exact (List.perm_insertionSort _ jobs).map _
  | mooreHodgson => exact mooreHodgson_perm jobs now

/-! ### One request's chunks in a batch -/

/-- In a batch with distinct ids a request has at most one chunk. -/
theorem filter_id_eq {chunks : List PrefillChunk} (distinct : (chunks.map (·.id)).Nodup) {chunk : PrefillChunk}
    (member : chunk ∈ chunks) : chunks.filter (fun other => other.id = chunk.id) = [chunk] := by
  induction chunks with
  | nil => cases member
  | cons head chunks ih =>
    rw [List.map_cons, List.nodup_cons] at distinct
    rcases List.mem_cons.mp member with rfl | member
    · have rest : chunks.filter (fun other => other.id = chunk.id) = [] := by
        refine List.filter_eq_nil_iff.mpr fun other later => ?_
        simp only [decide_eq_true_eq]
        intro same
        exact distinct.1 (same ▸ List.mem_map_of_mem later)
      rw [List.filter_cons_of_pos (by simp), rest]
    · have different : head.id ≠ chunk.id := by
        intro same
        exact distinct.1 (same ▸ List.mem_map_of_mem member)
      rw [List.filter_cons_of_neg (by simpa using different)]
      exact ih distinct.2 member

theorem filter_id_eq_nil {chunks : List PrefillChunk} {id : RequestId} (absent : id ∉ chunks.map (·.id)) :
    chunks.filter (fun chunk => chunk.id = id) = [] := by
  refine List.filter_eq_nil_iff.mpr fun chunk member => ?_
  simp only [decide_eq_true_eq]
  rintro rfl
  exact absent (List.mem_map_of_mem member)

namespace PrefillScheduler

variable {sched : PrefillScheduler}

/-- The order list enumerates the queue, and entries sit under their own ids. -/
structure Listed (sched : PrefillScheduler) : Prop where
  order_nodup : sched.order.Nodup
  order_iff : ∀ id, id ∈ sched.order ↔ id ∈ sched.queue
  key : ∀ {id p}, sched.queue.lookup id = some p → p.id = id

theorem listed_new (tuning : PrefillTuning) : (new tuning).Listed where
  order_nodup := List.nodup_nil
  order_iff _ := ⟨fun member => (nomatch member), fun member => absurd member (AList.notMem_empty _)⟩
  key found := by simp [new] at found

theorem Listed.jobs_ids (listed : sched.Listed) : sched.jobs.map (·.id) = sched.order := by
  have each : ∀ ids : List RequestId, (∀ id ∈ ids, id ∈ sched.queue) →
      (ids.filterMap fun id => sched.queue.lookup id).map (·.id) = ids := by
    intro ids queued
    induction ids with
    | nil => rfl
    | cons id ids ih =>
      obtain ⟨p, found⟩ := AList.mem_iff_exists_lookup.mp (queued id (.head _))
      have rest := ih fun other member => queued other (.tail _ member)
      rw [List.filterMap_cons, found, List.map_cons, rest, listed.key found]
  rw [jobs, List.map_map]
  exact each sched.order fun id member => (listed.order_iff id).mp member

/-- The order list enumerates the queue, entries sit under their own ids and are not overbooked, and
only queued requests are demoted. -/
structure Consistent (sched : PrefillScheduler) : Prop where
  order_nodup : sched.order.Nodup
  order_iff : ∀ id, id ∈ sched.order ↔ id ∈ sched.queue
  key : ∀ {id p}, sched.queue.lookup id = some p → p.id = id
  done_le : ∀ {id p}, sched.queue.lookup id = some p → p.doneTokens ≤ p.computeTokens
  demoted_queued : ∀ id ∈ sched.demoted, id ∈ sched.queue

theorem Consistent.listed (consistent : sched.Consistent) : sched.Listed :=
  ⟨consistent.order_nodup, consistent.order_iff, consistent.key⟩

theorem Listed.consistent (listed : sched.Listed)
    (done_le : ∀ id p, sched.queue.lookup id = some p → p.doneTokens ≤ p.computeTokens)
    (demoted_queued : ∀ id ∈ sched.demoted, id ∈ sched.queue) : sched.Consistent :=
  ⟨listed.order_nodup, listed.order_iff, listed.key, done_le _ _, demoted_queued⟩

theorem consistent_new (tuning : PrefillTuning) : (new tuning).Consistent :=
  (listed_new tuning).consistent (fun id p found => by simp [new] at found)
    fun _ member => absurd member (Finset.notMem_empty _)

/-- A chunk that continues a queued request where it stands. -/
def Fits (sched : PrefillScheduler) (chunk : PrefillChunk) : Prop :=
  ∃ p, sched.queue.lookup chunk.id = some p ∧ chunk.start = p.doneTokens ∧ 0 < chunk.tokens ∧
    chunk.tokens ≤ p.remaining ∧ (chunk.completes = true ↔ chunk.tokens = p.remaining)

/-- One pass appends fitting chunks for distinct positions of the id list. -/
theorem fill_spec (now : Millis) (late : Bool) (ids : List RequestId) (assembly : Assembly) :
    ∃ added, (sched.fill now late ids assembly).batch.chunks = assembly.batch.chunks ++ added ∧
      (added.map (·.id)).Sublist ids ∧ ∀ chunk ∈ added, sched.Fits chunk := by
  induction ids generalizing assembly with
  | nil => exact ⟨[], by simp [fill], .slnil, by simp⟩
  | cons id ids ih =>
    have done : ∃ added, assembly.batch.chunks = assembly.batch.chunks ++ added ∧
        (added.map (·.id)).Sublist (id :: ids) ∧ ∀ chunk ∈ added, sched.Fits chunk :=
      ⟨[], by simp, List.nil_sublist _, by simp⟩
    have skip : ∀ next : Assembly, next.batch.chunks = assembly.batch.chunks →
        ∃ added, (sched.fill now late ids next).batch.chunks = assembly.batch.chunks ++ added ∧
          (added.map (·.id)).Sublist (id :: ids) ∧ ∀ chunk ∈ added, sched.Fits chunk := by
      intro next same
      obtain ⟨added, chunks, within, fits⟩ := ih next
      exact ⟨added, same ▸ chunks, within.cons _, fits⟩
    have take : ∀ (next : Assembly) (chunk : PrefillChunk), chunk.id = id → sched.Fits chunk →
        next.batch.chunks = assembly.batch.chunks ++ [chunk] →
        ∃ added, (sched.fill now late ids next).batch.chunks = assembly.batch.chunks ++ added ∧
          (added.map (·.id)).Sublist (id :: ids) ∧ ∀ chunk ∈ added, sched.Fits chunk := by
      rintro next chunk rfl fit same
      obtain ⟨added, chunks, within, fits⟩ := ih next
      refine ⟨chunk :: added, ?_, within.cons_cons _, ?_⟩
      · rw [chunks, same, List.append_assoc]
        rfl
      · intro other member
        rcases List.mem_cons.mp member with rfl | member
        · exact fit
        · exact fits other member
    rw [fill]
    split
    · exact done
    · simp only
      split
      · exact done
      · cases found : sched.queue.lookup id with
        | none => exact skip assembly rfl
        | some p =>
          simp only
          generalize (if late = true then assembly.bindingDeadline else
            min assembly.bindingDeadline (p.deadlineMs : WithTop ℚ)) = deadline
          split
          · exact skip assembly rfl
          next positive =>
            split
            · split
              · exact done
              · exact skip _ rfl
            · refine take _ _ rfl ?_ rfl
              exact ⟨p, found, rfl, Nat.pos_of_ne_zero positive, min_le_left _ _, by simp⟩

/-- Planning only touches the demoted set. -/
theorem plan_snd (sched : PrefillScheduler) (now : Millis) :
    (sched.plan now).2 = { sched with demoted := (sched.plan now).2.demoted } := by
  unfold plan
  split <;> rfl

theorem plan_queue (sched : PrefillScheduler) (now : Millis) : (sched.plan now).2.queue = sched.queue := by
  rw [plan_snd]

/-- A planned batch names distinct queued requests and continues each where it stands. -/
theorem Listed.plan (listed : sched.Listed) (now : Millis) :
    ((sched.plan now).1.chunks.map (·.id)).Nodup ∧ (∀ chunk ∈ (sched.plan now).1.chunks, sched.Fits chunk) ∧
      (sched.plan now).2.Listed ∧ ((∀ id ∈ sched.demoted, id ∈ sched.queue) →
        ∀ id ∈ (sched.plan now).2.demoted, id ∈ (sched.plan now).2.queue) := by
  unfold PrefillScheduler.plan
  split
  · exact ⟨List.nodup_nil, by simp, listed, id⟩
  · simp only
    generalize orderingEq : orderJobs sched.jobs now sched.tuning.policy = ordering
    have dealt := orderJobs_perm sched.jobs now sched.tuning.policy
    rw [orderingEq, listed.jobs_ids] at dealt
    have distinct := dealt.nodup_iff.mpr listed.order_nodup
    generalize demotedEq : (if sched.tuning.demoteHopeless = true then ordering.demoted else []) = demoted
    have within : demoted.Sublist ordering.demoted := by
      rw [← demotedEq]
      split
      · exact List.Sublist.refl _
      · exact List.nil_sublist _
    generalize plannedEq : ({ sched with demoted := demoted.toFinset } : PrefillScheduler) = planned
    have queue : planned.queue = sched.queue := by rw [← plannedEq]
    obtain ⟨early, earlyChunks, earlyIds, earlyFits⟩ := planned.fill_spec now false ordering.onTime {}
    obtain ⟨late, lateChunks, lateIds, lateFits⟩ :=
      planned.fill_spec now true demoted (planned.fill now false ordering.onTime {})
    have chunks : (planned.fill now true demoted (planned.fill now false ordering.onTime {})).batch.chunks =
        early ++ late := by
      rw [lateChunks, earlyChunks]
      rfl
    refine ⟨?_, ?_, ?_, fun _ id member => ?_⟩
    · rw [chunks, List.map_append]
      exact distinct.sublist (earlyIds.append (lateIds.trans within))
    · rw [chunks]
      intro chunk member
      have fit : planned.Fits chunk := by
        rcases List.mem_append.mp member with first | second
        · exact earlyFits chunk first
        · exact lateFits chunk second
      unfold Fits at fit
      rw [queue] at fit
      exact fit
    · rw [← plannedEq]
      exact ⟨listed.order_nodup, listed.order_iff, listed.key⟩
    · have demotes : id ∈ ordering.demoted := within.subset (List.mem_toFinset.mp member)
      exact (listed.order_iff id).mp (dealt.mem_iff.mp (List.mem_append_right _ demotes))

/-- Planning keeps the queue consistent; what it demotes is queued. -/
theorem Consistent.plan (consistent : sched.Consistent) (now : Millis) :
    ((sched.plan now).1.chunks.map (·.id)).Nodup ∧ (∀ chunk ∈ (sched.plan now).1.chunks, sched.Fits chunk) ∧
      (sched.plan now).2.Consistent := by
  obtain ⟨distinct, fits, listed, queued⟩ := consistent.listed.plan now
  refine ⟨distinct, fits, listed.consistent (fun id p found => ?_) (queued consistent.demoted_queued)⟩
  rw [plan_snd] at found
  exact consistent.done_le found

theorem enqueue_lookup (p : PendingPrefill) (id : RequestId) :
    (sched.enqueue p).queue.lookup id = if id = p.id then some p else sched.queue.lookup id :=
  AList.lookup_insert_eq_ite ..

theorem mem_enqueue {p : PendingPrefill} {id : RequestId} :
    id ∈ (sched.enqueue p).queue ↔ id = p.id ∨ id ∈ sched.queue := AList.mem_insert _

theorem Listed.enqueue (listed : sched.Listed) (p : PendingPrefill) : (sched.enqueue p).Listed := by
  refine ⟨?_, fun id => ?_, fun {id q} found => ?_⟩
  · change (if p.id ∈ sched.queue then sched.order else sched.order ++ [p.id]).Nodup
    split
    next => exact listed.order_nodup
    next fresh =>
      refine List.Nodup.append listed.order_nodup (List.nodup_singleton _) ?_
      rintro id earlier here
      rw [List.mem_singleton.mp here] at earlier
      exact fresh ((listed.order_iff _).mp earlier)
  · rw [mem_enqueue, ← listed.order_iff]
    change id ∈ (if p.id ∈ sched.queue then sched.order else sched.order ++ [p.id]) ↔ _
    split
    next known =>
      constructor
      · exact .inr
      · rintro (rfl | member)
        · exact (listed.order_iff _).mpr known
        · exact member
    next =>
      rw [List.mem_append, List.mem_singleton]
      exact or_comm
  · rw [enqueue_lookup] at found
    split at found
    next here => rw [← Option.some.inj found, here]
    next => exact listed.key found

theorem Consistent.enqueue (consistent : sched.Consistent) {p : PendingPrefill}
    (room : p.doneTokens ≤ p.computeTokens) : (sched.enqueue p).Consistent := by
  refine (consistent.listed.enqueue p).consistent (fun id q found => ?_) fun id member => ?_
  · rw [enqueue_lookup] at found
    split at found
    next =>
      rw [← Option.some.inj found]
      exact room
    next => exact consistent.done_le found
  · exact mem_enqueue.mpr (.inr (consistent.demoted_queued id member))

/-! ### Completing a batch -/

/-- Tokens a list of chunks spends on one request. -/
def tokensFor (id : RequestId) (chunks : List PrefillChunk) : ℕ :=
  ((chunks.filter fun chunk => chunk.id = id).map (·.tokens)).sum

theorem tokensFor_cons (id : RequestId) (chunk : PrefillChunk) (chunks : List PrefillChunk) :
    tokensFor id (chunk :: chunks) = (if chunk.id = id then chunk.tokens else 0) + tokensFor id chunks := by
  unfold tokensFor
  by_cases here : chunk.id = id <;> simp [here]

theorem tokensFor_eq_zero {id : RequestId} {chunks : List PrefillChunk}
    (absent : id ∉ chunks.map (·.id)) : tokensFor id chunks = 0 := by
  induction chunks with
  | nil => rfl
  | cons chunk chunks ih =>
    rw [List.map_cons, List.mem_cons, not_or] at absent
    rw [tokensFor_cons, if_neg (Ne.symm absent.1), ih absent.2]

theorem tokensFor_mem {chunks : List PrefillChunk} (distinct : (chunks.map (·.id)).Nodup) {chunk : PrefillChunk}
    (member : chunk ∈ chunks) : tokensFor chunk.id chunks = chunk.tokens := by
  rw [tokensFor, filter_id_eq distinct member, List.map_singleton, List.sum_singleton]

theorem credit_credit (p : PendingPrefill) (a b : ℕ) : (p.credit a).credit b = p.credit (a + b) := by
  simp only [PendingPrefill.credit, PendingPrefill.mk.injEq, true_and]
  omega

theorem credit_zero {p : PendingPrefill} (room : p.doneTokens ≤ p.computeTokens) : p.credit 0 = p := by
  simp [PendingPrefill.credit, room]

theorem creditChunk_lookup (chunk : PrefillChunk) (id : RequestId) :
    (sched.creditChunk chunk).2.queue.lookup id =
      if chunk.id = id then (sched.queue.lookup id).map (·.credit chunk.tokens) else sched.queue.lookup id := by
  unfold creditChunk
  cases found : sched.queue.lookup chunk.id with
  | none =>
    simp only
    split
    next here => rw [← here, found, Option.map_none]
    next => rfl
  | some p =>
    simp only
    split
    next here =>
      subst here
      rw [found, Option.map_some]
      exact AList.lookup_insert _
    next other => exact AList.lookup_insert_ne (Ne.symm other)

theorem creditChunk_frame (chunk : PrefillChunk) :
    (sched.creditChunk chunk).2.order = sched.order ∧ (sched.creditChunk chunk).2.demoted = sched.demoted ∧
      ∀ id, id ∈ (sched.creditChunk chunk).2.queue ↔ id ∈ sched.queue := by
  refine ⟨?_, ?_, fun id => ?_⟩
  · unfold creditChunk
    split <;> rfl
  · unfold creditChunk
    split <;> rfl
  · rw [← AList.lookup_isSome, ← AList.lookup_isSome, creditChunk_lookup]
    split <;> simp

/-- An entry after booking a chunk is the one before, credited or not. -/
theorem creditChunk_entry {chunk : PrefillChunk} {id : RequestId} {p : PendingPrefill}
    (found : (sched.creditChunk chunk).2.queue.lookup id = some p) :
    ∃ q, sched.queue.lookup id = some q ∧ (p = q ∨ p = q.credit chunk.tokens) := by
  rw [creditChunk_lookup] at found
  split at found
  next =>
    obtain ⟨q, before, rfl⟩ := Option.map_eq_some_iff.mp found
    exact ⟨q, before, .inr rfl⟩
  next => exact ⟨p, found, .inl rfl⟩

theorem Listed.creditChunk (listed : sched.Listed) (chunk : PrefillChunk) : (sched.creditChunk chunk).2.Listed := by
  obtain ⟨order, -, queued⟩ := sched.creditChunk_frame chunk
  refine ⟨order ▸ listed.order_nodup, fun id => ?_, fun {id p} found => ?_⟩
  · rw [order, queued]
    exact listed.order_iff id
  · obtain ⟨q, before, rfl | rfl⟩ := creditChunk_entry found
    · exact listed.key before
    · exact (listed.key before : q.id = id)

theorem Listed.creditLoop (chunks : List PrefillChunk) {sched : PrefillScheduler} (listed : sched.Listed) :
    (PrefillScheduler.creditLoop chunks sched).2.Listed := by
  induction chunks generalizing sched with
  | nil => exact listed
  | cons chunk chunks ih => exact ih (listed.creditChunk chunk)

theorem Consistent.creditChunk (consistent : sched.Consistent) (chunk : PrefillChunk) :
    (sched.creditChunk chunk).2.Consistent := by
  obtain ⟨-, demoted, queued⟩ := sched.creditChunk_frame chunk
  refine (consistent.listed.creditChunk chunk).consistent (fun id p found => ?_) fun id member => ?_
  · obtain ⟨q, before, rfl | rfl⟩ := creditChunk_entry found
    · exact consistent.done_le before
    · exact min_le_right _ _
  · rw [queued]
    exact consistent.demoted_queued id (demoted ▸ member)

theorem Consistent.creditLoop (chunks : List PrefillChunk) {sched : PrefillScheduler}
    (consistent : sched.Consistent) :
    (PrefillScheduler.creditLoop chunks sched).2.Consistent ∧
      ∀ id, (PrefillScheduler.creditLoop chunks sched).2.queue.lookup id =
        (sched.queue.lookup id).map (·.credit (tokensFor id chunks)) := by
  induction chunks generalizing sched with
  | nil =>
    refine ⟨consistent, fun id => ?_⟩
    cases found : sched.queue.lookup id with
    | none => exact found
    | some p => rw [PrefillScheduler.creditLoop, found, Option.map_some, tokensFor, List.filter_nil, List.map_nil,
        List.sum_nil, credit_zero (consistent.done_le found)]
  | cons chunk chunks ih =>
    obtain ⟨next, lookups⟩ := ih (consistent.creditChunk chunk)
    refine ⟨next, fun id => ?_⟩
    change (PrefillScheduler.creditLoop chunks (sched.creditChunk chunk).2).2.queue.lookup id = _
    rw [lookups, creditChunk_lookup, tokensFor_cons]
    split
    next =>
      rw [Option.map_map]
      congr 1
      funext p
      exact credit_credit p _ _
    next => rw [Nat.zero_add]

/-- With distinct fitting chunks, the finished requests are those whose chunk completes them. -/
theorem creditLoop_finished {chunks : List PrefillChunk} {sched : PrefillScheduler}
    (distinct : (chunks.map (·.id)).Nodup) (fits : ∀ chunk ∈ chunks, sched.Fits chunk) :
    (creditLoop chunks sched).1 = (chunks.filter (·.completes)).map (·.id) := by
  induction chunks generalizing sched with
  | nil => rfl
  | cons chunk chunks ih =>
    rw [List.map_cons, List.nodup_cons] at distinct
    have later : ∀ other ∈ chunks, (sched.creditChunk chunk).2.Fits other := by
      intro other member
      obtain ⟨p, found, rest⟩ := fits other (.tail _ member)
      refine ⟨p, ?_, rest⟩
      rw [creditChunk_lookup, if_neg]
      · exact found
      · intro same
        exact distinct.1 (same ▸ List.mem_map_of_mem member)
    obtain ⟨p, found, _, _, within, completes⟩ := fits chunk (.head _)
    have answer : (sched.creditChunk chunk).1 = chunk.completes := by
      rw [PrefillScheduler.creditChunk, found, Bool.eq_iff_iff, completes]
      change decide ((p.credit chunk.tokens).remaining = 0) = true ↔ _
      rw [decide_eq_true_iff]
      simp only [PendingPrefill.credit, PendingPrefill.remaining] at within ⊢
      omega
    change (if (sched.creditChunk chunk).1 then chunk.id :: (creditLoop chunks (sched.creditChunk chunk).2).1
      else (creditLoop chunks (sched.creditChunk chunk).2).1) = _
    rw [answer, ih distinct.2 later, List.filter_cons]
    split <;> rfl

theorem remove_lookup (id other : RequestId) :
    (sched.remove id).queue.lookup other = if other = id then none else sched.queue.lookup other :=
  AList.lookup_erase_eq_ite ..

theorem mem_remove {id other : RequestId} : other ∈ (sched.remove id).queue ↔ other ≠ id ∧ other ∈ sched.queue :=
  AList.mem_erase

theorem Listed.remove (listed : sched.Listed) (id : RequestId) : (sched.remove id).Listed := by
  refine ⟨listed.order_nodup.filter _, fun other => ?_, fun {other p} found => ?_⟩
  · rw [mem_remove, ← listed.order_iff]
    change other ∈ sched.order.filter (· ≠ id) ↔ _
    rw [List.mem_filter, decide_eq_true_iff]
    exact and_comm
  · rw [remove_lookup] at found
    split at found
    · cases found
    · exact listed.key found

theorem Listed.removeAll (ids : List RequestId) {sched : PrefillScheduler} (listed : sched.Listed) :
    (ids.foldl PrefillScheduler.remove sched).Listed := by
  induction ids generalizing sched with
  | nil => exact listed
  | cons id ids ih => exact ih (listed.remove id)

theorem Consistent.remove (consistent : sched.Consistent) (id : RequestId) : (sched.remove id).Consistent := by
  refine (consistent.listed.remove id).consistent (fun other p found => ?_) fun other member => ?_
  · rw [remove_lookup] at found
    split at found
    · cases found
    · exact consistent.done_le found
  · obtain ⟨apart, before⟩ := Finset.mem_erase.mp member
    exact mem_remove.mpr ⟨apart, consistent.demoted_queued other before⟩

theorem Consistent.removeAll (ids : List RequestId) {sched : PrefillScheduler} (consistent : sched.Consistent) :
    (ids.foldl PrefillScheduler.remove sched).Consistent ∧
      ∀ id, (ids.foldl PrefillScheduler.remove sched).queue.lookup id =
        if id ∈ ids then none else sched.queue.lookup id := by
  induction ids generalizing sched with
  | nil => exact ⟨consistent, fun id => by simp⟩
  | cons first ids ih =>
    obtain ⟨next, lookups⟩ := ih (consistent.remove first)
    refine ⟨next, fun id => ?_⟩
    rw [List.foldl_cons, lookups, remove_lookup]
    by_cases later : id ∈ ids <;> by_cases here : id = first <;> simp [later, here]

/-- A new rate estimate leaves the queue alone. -/
theorem observeRate_frame (sched : PrefillScheduler) (batch : PrefillBatch) (elapsedMs : Millis) :
    (sched.observeRate batch elapsedMs).queue = sched.queue ∧ (sched.observeRate batch elapsedMs).order = sched.order ∧
      (sched.observeRate batch elapsedMs).demoted = sched.demoted := by
  unfold observeRate
  split <;> exact ⟨rfl, rfl, rfl⟩

theorem Listed.observeRate (listed : sched.Listed) (batch : PrefillBatch) (elapsedMs : Millis) :
    (sched.observeRate batch elapsedMs).Listed := by
  obtain ⟨queue, order, -⟩ := sched.observeRate_frame batch elapsedMs
  obtain ⟨distinct, listing, key⟩ := listed
  rw [← order] at distinct listing
  rw [← queue] at listing key
  exact ⟨distinct, listing, key⟩

theorem Consistent.observeRate (consistent : sched.Consistent) (batch : PrefillBatch) (elapsedMs : Millis) :
    (sched.observeRate batch elapsedMs).Consistent := by
  obtain ⟨queue, -, demoted⟩ := sched.observeRate_frame batch elapsedMs
  refine (consistent.listed.observeRate batch elapsedMs).consistent ?_ ?_
  · rw [queue]
    exact fun id p => consistent.done_le
  · rw [queue, demoted]
    exact consistent.demoted_queued

theorem Listed.complete (listed : sched.Listed) (batch : PrefillBatch) (elapsedMs : Millis) :
    (sched.complete batch elapsedMs).2.Listed :=
  ((listed.observeRate batch elapsedMs).creditLoop batch.chunks).removeAll _

/-- Completing any batch credits its tokens and drops the requests it returns. -/
theorem Consistent.complete (consistent : sched.Consistent) (batch : PrefillBatch) (elapsedMs : Millis) :
    (sched.complete batch elapsedMs).2.Consistent ∧
      ∀ id, (sched.complete batch elapsedMs).2.queue.lookup id =
        if id ∈ (sched.complete batch elapsedMs).1 then none
        else (sched.queue.lookup id).map (·.credit (tokensFor id batch.chunks)) := by
  have queue := (sched.observeRate_frame batch elapsedMs).1
  obtain ⟨credited, lookups⟩ := (consistent.observeRate batch elapsedMs).creditLoop batch.chunks
  obtain ⟨removed, final⟩ :=
    credited.removeAll (PrefillScheduler.creditLoop batch.chunks (sched.observeRate batch elapsedMs)).1
  refine ⟨removed, fun id => ?_⟩
  change ((PrefillScheduler.creditLoop batch.chunks (sched.observeRate batch elapsedMs)).1.foldl
    PrefillScheduler.remove _).queue.lookup id = _
  rw [final, lookups, queue]
  rfl

theorem complete_finished {batch : PrefillBatch} (elapsedMs : Millis) (distinct : (batch.chunks.map (·.id)).Nodup)
    (fits : ∀ chunk ∈ batch.chunks, sched.Fits chunk) :
    (sched.complete batch elapsedMs).1 = (batch.chunks.filter (·.completes)).map (·.id) := by
  refine creditLoop_finished distinct fun chunk member => ?_
  unfold Fits
  rw [(sched.observeRate_frame batch elapsedMs).1]
  exact fits chunk member

end PrefillScheduler

end TrtLlm.Sched
