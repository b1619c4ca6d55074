import TrtLlm.Machine.Path
import TrtLlm.Soundness.PrefillPlan

/-! # Chunked prefill tiles each prompt exactly once

Runs that alternate `plan` with `complete` of exactly the planned batch, with fresh requests joining at
any point. The state keeps, beside the scheduler, the batch that is out, the rounds that are over
and the requests that ever joined.
-/

namespace TrtLlm.Sched

open PrefillScheduler

/-- A round that is over: the batch and what `complete` returned for it. -/
structure Round where
  batch : PrefillBatch
  finished : List RequestId
deriving DecidableEq, Repr

structure PrefillRun where
  sched : PrefillScheduler
  outstanding : Option PrefillBatch
  rounds : List Round
  enqueued : List PendingPrefill
deriving DecidableEq

inductive PrefillOp where
  | enqueue (p : PendingPrefill)
  | plan (now : Millis)
  | complete (elapsedMs : Millis)
deriving DecidableEq, Repr

/-- The chunks cover the tokens from `first` up to `bound`, in order and without a gap. -/
def Tiles : ℕ → List PrefillChunk → ℕ → Prop
  | first, [], bound => first = bound
  | first, chunk :: chunks, bound => chunk.start = first ∧ 0 < chunk.tokens ∧ Tiles (first + chunk.tokens) chunks bound

theorem Tiles.snoc {first bound : ℕ} {chunks : List PrefillChunk} (tiles : Tiles first chunks bound)
    {chunk : PrefillChunk} (start : chunk.start = bound) (positive : 0 < chunk.tokens) :
    Tiles first (chunks ++ [chunk]) (bound + chunk.tokens) := by
  induction chunks generalizing first with
  | nil =>
    have here : first = bound := tiles
    subst here
    exact ⟨start, positive, rfl⟩
  | cons head chunks ih => exact ⟨tiles.1, tiles.2.1, ih tiles.2.2⟩

theorem Tiles.le {first bound : ℕ} {chunks : List PrefillChunk} (tiles : Tiles first chunks bound) :
    first ≤ bound := by
  induction chunks generalizing first with
  | nil => exact le_of_eq tiles
  | cons head chunks ih => exact (Nat.le_add_right _ _).trans (ih tiles.2.2)

theorem Tiles.end_le {first bound : ℕ} {chunks : List PrefillChunk} (tiles : Tiles first chunks bound)
    {chunk : PrefillChunk} (member : chunk ∈ chunks) : chunk.start + chunk.tokens ≤ bound := by
  induction chunks generalizing first with
  | nil => cases member
  | cons head chunks ih =>
    rcases List.mem_cons.mp member with rfl | member
    · rw [tiles.1]
      exact tiles.2.2.le
    · exact ih tiles.2.2 member

namespace PrefillRun

variable {s : PrefillRun}

def new (tuning : PrefillTuning) : PrefillRun := ⟨.new tuning, none, [], []⟩

/-- Requests join once, with nothing computed and something to compute; a batch is completed
before the next one is planned. -/
def Allowed (s : PrefillRun) : PrefillOp → Prop
  | .enqueue p => p.id ∉ s.enqueued.map (·.id) ∧ p.doneTokens = 0 ∧ 1 ≤ p.computeTokens
  | .plan _ => s.outstanding = none
  | .complete _ => s.outstanding.isSome

def step (s : PrefillRun) : PrefillOp → PrefillRun
  | .enqueue p => { s with sched := s.sched.enqueue p, enqueued := s.enqueued ++ [p] }
  | .plan now => { s with sched := (s.sched.plan now).2, outstanding := some (s.sched.plan now).1 }
  | .complete elapsedMs =>
    match s.outstanding with
    | none => s
    | some batch =>
      { s with
        sched := (s.sched.complete batch elapsedMs).2
        outstanding := none
        rounds := s.rounds ++ [⟨batch, (s.sched.complete batch elapsedMs).1⟩] }

def system (tuning : PrefillTuning) : Machine.System PrefillRun PrefillOp :=
  .ofFun (· = new tuning) Allowed step

/-- The chunks issued so far for one request, in order. -/
def chunksOf (s : PrefillRun) (id : RequestId) : List PrefillChunk :=
  (s.rounds.flatMap (·.batch.chunks)).filter fun chunk => chunk.id = id

/-- Everything `complete` has returned so far. -/
def returned (s : PrefillRun) : List RequestId := s.rounds.flatMap (·.finished)

/-- The tokens of a request computed so far; a request that left the queue has computed all. -/
def doneOf (s : PrefillRun) (p : PendingPrefill) : ℕ :=
  match s.sched.queue.lookup p.id with
  | some q => q.doneTokens
  | none => p.computeTokens

/-- A request still in the queue. -/
structure Waiting (s : PrefillRun) (p q : PendingPrefill) : Prop where
  queued : s.sched.queue.lookup p.id = some q
  compute : q.computeTokens = p.computeTokens
  unfinished : q.doneTokens < p.computeTokens
  tiles : Tiles 0 (s.chunksOf p.id) q.doneTokens
  incomplete : ∀ chunk ∈ s.chunksOf p.id, chunk.completes = false
  unreturned : s.returned.count p.id = 0

/-- A request that has left the queue. -/
structure Left (s : PrefillRun) (p : PendingPrefill) : Prop where
  gone : s.sched.queue.lookup p.id = none
  tiles : Tiles 0 (s.chunksOf p.id) p.computeTokens
  last : ∃ earlier final, s.chunksOf p.id = earlier ++ [final] ∧ final.completes = true ∧
    final.start + final.tokens = p.computeTokens ∧
    ∀ chunk ∈ earlier, chunk.completes = false ∧ chunk.start + chunk.tokens < p.computeTokens
  returned : s.returned.count p.id = 1

/-- The invariant of these runs. -/
structure Tiling (s : PrefillRun) : Prop where
  consistent : s.sched.Consistent
  distinct : ∀ batch ∈ s.outstanding, (batch.chunks.map (·.id)).Nodup
  fits : ∀ batch ∈ s.outstanding, ∀ chunk ∈ batch.chunks, s.sched.Fits chunk
  known : ∀ id ∈ s.sched.queue, id ∈ s.enqueued.map (·.id)
  known_chunks : ∀ id, id ∉ s.enqueued.map (·.id) → s.chunksOf id = [] ∧ s.returned.count id = 0
  each : ∀ p ∈ s.enqueued, (∃ q, s.Waiting p q) ∨ s.Left p
  rounds : ∀ round ∈ s.rounds, round.finished = (round.batch.chunks.filter (·.completes)).map (·.id)

theorem tiling_new (tuning : PrefillTuning) : (new tuning).Tiling where
  consistent := consistent_new tuning
  distinct := by simp [new]
  fits := by simp [new]
  known id member := absurd member (AList.notMem_empty _)
  known_chunks id _ := ⟨rfl, rfl⟩
  each := by simp [new]
  rounds := by simp [new]

theorem enqueue_lookup (p : PendingPrefill) (id : RequestId) (other : id ≠ p.id) :
    (s.sched.enqueue p).queue.lookup id = s.sched.queue.lookup id :=
  AList.lookup_insert_ne other

theorem Tiling.enqueue (tiling : s.Tiling) {p : PendingPrefill} (allowed : s.Allowed (.enqueue p)) :
    (s.step (.enqueue p)).Tiling := by
  obtain ⟨fresh, zero, positive⟩ := allowed
  have unqueued : p.id ∉ s.sched.queue := fun queued => fresh (tiling.known _ queued)
  have other : ∀ {q}, q ∈ s.enqueued → q.id ≠ p.id := by
    rintro q member same
    exact fresh (same ▸ List.mem_map_of_mem member)
  refine ⟨tiling.consistent.enqueue (by omega), tiling.distinct, ?_, ?_, ?_, ?_, tiling.rounds⟩
  · intro batch out chunk member
    obtain ⟨q, found, rest⟩ := tiling.fits batch out chunk member
    refine ⟨q, ?_, rest⟩
    change (s.sched.enqueue p).queue.lookup chunk.id = _
    rw [enqueue_lookup p]
    · exact found
    · rintro same
      rw [same, AList.lookup_eq_none.mpr unqueued] at found
      cases found
  · intro id queued
    change id ∈ (s.enqueued ++ [p]).map (·.id)
    rw [List.map_append, List.mem_append]
    rcases (AList.mem_insert s.sched.queue).mp queued with rfl | before
    · exact .inr (.head _)
    · exact .inl (tiling.known id before)
  · intro id absent
    change id ∉ (s.enqueued ++ [p]).map (·.id) at absent
    rw [List.map_append, List.mem_append, not_or] at absent
    exact tiling.known_chunks id absent.1
  · intro q member
    rcases List.mem_append.mp member with before | here
    · have lookup : (s.step (.enqueue p)).sched.queue.lookup q.id = s.sched.queue.lookup q.id :=
        enqueue_lookup p q.id (other before)
      rcases tiling.each q before with ⟨r, waiting⟩ | left
      · exact .inl ⟨r, lookup.trans waiting.queued, waiting.compute, waiting.unfinished, waiting.tiles,
          waiting.incomplete, waiting.unreturned⟩
      · exact .inr ⟨lookup.trans left.gone, left.tiles, left.last, left.returned⟩
    · obtain rfl := List.mem_singleton.mp here
      obtain ⟨none, unreturned⟩ := tiling.known_chunks q.id fresh
      have chunks : (s.step (.enqueue q)).chunksOf q.id = [] := none
      refine .inl ⟨q, AList.lookup_insert _, rfl, by omega, ?_, ?_, unreturned⟩
      · rw [chunks, zero]
        rfl
      · rw [chunks]
        simp

theorem Tiling.plan (tiling : s.Tiling) (now : Millis) : (s.step (.plan now)).Tiling := by
  obtain ⟨distinct, fits, consistent⟩ := tiling.consistent.plan now
  have queue := s.sched.plan_queue now
  refine ⟨consistent, ?_, ?_, ?_, tiling.known_chunks, ?_, tiling.rounds⟩
  · intro batch out
    obtain rfl := Option.some.inj out
    exact distinct
  · intro batch out chunk member
    obtain rfl := Option.some.inj out
    obtain ⟨p, found, rest⟩ := fits chunk member
    exact ⟨p, queue ▸ found, rest⟩
  · intro id queued
    exact tiling.known id (queue ▸ queued)
  · intro p member
    rcases tiling.each p member with ⟨q, waiting⟩ | left
    · exact .inl ⟨q, (congrArg (·.lookup p.id) queue).trans waiting.queued, waiting.compute, waiting.unfinished,
        waiting.tiles, waiting.incomplete, waiting.unreturned⟩
    · exact .inr ⟨(congrArg (·.lookup p.id) queue).trans left.gone, left.tiles, left.last, left.returned⟩

/-! ### Completing the batch that is out -/

section Complete

variable {batch : PrefillBatch} (elapsedMs : Millis)

theorem step_complete (out : s.outstanding = some batch) :
    s.step (.complete elapsedMs) =
      { s with
        sched := (s.sched.complete batch elapsedMs).2
        outstanding := none
        rounds := s.rounds ++ [⟨batch, (s.sched.complete batch elapsedMs).1⟩] } := by
  simp only [step, out]

theorem chunksOf_complete (out : s.outstanding = some batch) (id : RequestId) :
    (s.step (.complete elapsedMs)).chunksOf id =
      s.chunksOf id ++ batch.chunks.filter fun chunk => chunk.id = id := by
  rw [step_complete elapsedMs out]
  simp [chunksOf, List.flatMap_append]

theorem returned_complete (out : s.outstanding = some batch) (id : RequestId) :
    (s.step (.complete elapsedMs)).returned.count id =
      s.returned.count id + (s.sched.complete batch elapsedMs).1.count id := by
  rw [step_complete elapsedMs out]
  simp [returned, List.flatMap_append]

variable (tiling : s.Tiling) (out : s.outstanding = some batch)

include tiling out

theorem Tiling.finished :
    (s.sched.complete batch elapsedMs).1 = (batch.chunks.filter (·.completes)).map (·.id) :=
  complete_finished elapsedMs (tiling.distinct batch out) (tiling.fits batch out)

theorem Tiling.finished_nodup : (s.sched.complete batch elapsedMs).1.Nodup := by
  rw [tiling.finished elapsedMs out]
  exact (tiling.distinct batch out).sublist (List.filter_sublist.map _)

theorem Tiling.mem_finished {chunk : PrefillChunk} (member : chunk ∈ batch.chunks) :
    chunk.id ∈ (s.sched.complete batch elapsedMs).1 ↔ chunk.completes = true := by
  rw [tiling.finished elapsedMs out, List.mem_map]
  constructor
  · rintro ⟨other, kept, same⟩
    obtain ⟨inside, completes⟩ := List.mem_filter.mp kept
    have equal := List.inj_on_of_nodup_map (tiling.distinct batch out) inside member same
    exact equal ▸ completes
  · intro completes
    exact ⟨chunk, List.mem_filter.mpr ⟨member, completes⟩, rfl⟩

/-- A request without a chunk in the batch is left alone. -/
theorem Tiling.complete_other {id : RequestId} (absent : id ∉ batch.chunks.map (·.id)) :
    (s.step (.complete elapsedMs)).chunksOf id = s.chunksOf id ∧
      (s.step (.complete elapsedMs)).returned.count id = s.returned.count id ∧
      (s.step (.complete elapsedMs)).sched.queue.lookup id = s.sched.queue.lookup id := by
  have unfinished : id ∉ (s.sched.complete batch elapsedMs).1 := by
    rw [tiling.finished elapsedMs out]
    exact fun member => absent ((List.filter_sublist.map _).subset member)
  refine ⟨?_, ?_, ?_⟩
  · rw [chunksOf_complete elapsedMs out, filter_id_eq_nil absent, List.append_nil]
  · rw [returned_complete elapsedMs out, List.count_eq_zero.mpr unfinished, Nat.add_zero]
  · rw [step_complete elapsedMs out]
    change (s.sched.complete batch elapsedMs).2.queue.lookup id = _
    rw [(tiling.consistent.complete batch elapsedMs).2, if_neg unfinished, tokensFor_eq_zero absent]
    cases found : s.sched.queue.lookup id with
    | none => rfl
    | some q => rw [Option.map_some, credit_zero (tiling.consistent.done_le found)]

/-- A waiting request with a chunk in the batch moves on by that chunk. -/
theorem Tiling.complete_chunk {p q : PendingPrefill} (waiting : s.Waiting p q) {chunk : PrefillChunk}
    (member : chunk ∈ batch.chunks) (mine : chunk.id = p.id) :
    (∃ r, (s.step (.complete elapsedMs)).Waiting p r) ∨ (s.step (.complete elapsedMs)).Left p := by
  obtain ⟨r, found, start, positive, within, completes⟩ := tiling.fits batch out chunk member
  rw [mine, waiting.queued] at found
  obtain rfl := Option.some.inj found
  have chunks : (s.step (.complete elapsedMs)).chunksOf p.id = s.chunksOf p.id ++ [chunk] := by
    rw [chunksOf_complete elapsedMs out, ← mine, filter_id_eq (tiling.distinct batch out) member]
  have tiles : Tiles 0 ((s.step (.complete elapsedMs)).chunksOf p.id) (q.doneTokens + chunk.tokens) := by
    rw [chunks]
    exact waiting.tiles.snoc start positive
  have spent : tokensFor p.id batch.chunks = chunk.tokens := by
    rw [tokensFor, ← mine, filter_id_eq (tiling.distinct batch out) member]
    simp
  have lookup : (s.step (.complete elapsedMs)).sched.queue.lookup p.id =
      if p.id ∈ (s.sched.complete batch elapsedMs).1 then none else some (q.credit chunk.tokens) := by
    rw [step_complete elapsedMs out]
    change (s.sched.complete batch elapsedMs).2.queue.lookup p.id = _
    rw [(tiling.consistent.complete batch elapsedMs).2, spent, waiting.queued, Option.map_some]
  have count := returned_complete elapsedMs out p.id
  rw [waiting.unreturned, Nat.zero_add] at count
  have finished := tiling.mem_finished elapsedMs out member
  rw [mine] at finished
  have room := waiting.unfinished
  have compute := waiting.compute
  unfold PendingPrefill.remaining at within completes
  by_cases done : chunk.completes = true
  · have whole := completes.mp done
    refine .inr ⟨?_, ?_, ⟨s.chunksOf p.id, chunk, chunks, done, by omega, ?_⟩, ?_⟩
    · rw [lookup, if_pos (finished.mpr done)]
    · rw [show p.computeTokens = q.doneTokens + chunk.tokens by omega]
      exact tiles
    · intro earlier before
      have bound := waiting.tiles.end_le before
      exact ⟨waiting.incomplete earlier before, by omega⟩
    · rw [count]
      exact List.count_eq_one_of_mem (tiling.finished_nodup elapsedMs out) (finished.mpr done)
  · have part : chunk.tokens ≠ q.computeTokens - q.doneTokens := fun whole => done (completes.mpr whole)
    have credited : (q.credit chunk.tokens).doneTokens = q.doneTokens + chunk.tokens := min_eq_left (by omega)
    refine .inl ⟨q.credit chunk.tokens, ?_, compute, by omega, ?_, ?_, ?_⟩
    · rw [lookup, if_neg (fun member => done (finished.mp member))]
    · rw [credited]
      exact tiles
    · intro other listed
      rw [chunks] at listed
      rcases List.mem_append.mp listed with before | here
      · exact waiting.incomplete other before
      · rw [List.mem_singleton.mp here]
        exact Bool.eq_false_iff.mpr done
    · rw [count]
      exact List.count_eq_zero.mpr fun member => done (finished.mp member)

theorem Tiling.complete : (s.step (.complete elapsedMs)).Tiling := by
  have later : ∀ {p : PendingPrefill}, p.id ∉ batch.chunks.map (·.id) →
      ((∃ q, s.Waiting p q) ∨ s.Left p) →
      (∃ q, (s.step (.complete elapsedMs)).Waiting p q) ∨ (s.step (.complete elapsedMs)).Left p := by
    intro p absent before
    obtain ⟨chunks, count, lookup⟩ := tiling.complete_other elapsedMs out absent
    rcases before with ⟨q, waiting⟩ | left
    · exact .inl ⟨q, lookup.trans waiting.queued, waiting.compute, waiting.unfinished, chunks ▸ waiting.tiles,
        chunks ▸ waiting.incomplete, count.trans waiting.unreturned⟩
    · exact .inr ⟨lookup.trans left.gone, chunks ▸ left.tiles, chunks ▸ left.last, count.trans left.returned⟩
  have queuedBefore : ∀ {id}, id ∈ (s.step (.complete elapsedMs)).sched.queue → id ∈ s.sched.queue := by
    intro id queued
    rw [step_complete elapsedMs out] at queued
    rw [← AList.lookup_isSome] at queued ⊢
    change ((s.sched.complete batch elapsedMs).2.queue.lookup id).isSome at queued
    rw [(tiling.consistent.complete batch elapsedMs).2] at queued
    split at queued
    · cases queued
    · simpa using queued
  refine ⟨?_, ?_, ?_, ?_, ?_, ?_, ?_⟩
  · rw [step_complete elapsedMs out]
    exact (tiling.consistent.complete batch elapsedMs).1
  · rw [step_complete elapsedMs out]
    simp
  · rw [step_complete elapsedMs out]
    simp
  · intro id queued
    have same : (s.step (.complete elapsedMs)).enqueued = s.enqueued := by rw [step_complete elapsedMs out]
    rw [same]
    exact tiling.known id (queuedBefore queued)
  · intro id unknown
    have same : (s.step (.complete elapsedMs)).enqueued = s.enqueued := by rw [step_complete elapsedMs out]
    rw [same] at unknown
    have absent : id ∉ batch.chunks.map (·.id) := by
      intro member
      obtain ⟨chunk, inside, rfl⟩ := List.mem_map.mp member
      obtain ⟨q, found, _⟩ := tiling.fits batch out chunk inside
      exact unknown (tiling.known _ (AList.lookup_isSome.mp (by rw [found]; rfl)))
    obtain ⟨chunks, count, _⟩ := tiling.complete_other elapsedMs out absent
    rw [chunks, count]
    exact tiling.known_chunks id unknown
  · intro p member
    have before : p ∈ s.enqueued := by
      rw [step_complete elapsedMs out] at member
      exact member
    by_cases named : p.id ∈ batch.chunks.map (·.id)
    · obtain ⟨chunk, inside, mine⟩ := List.mem_map.mp named
      rcases tiling.each p before with ⟨q, waiting⟩ | left
      · exact tiling.complete_chunk elapsedMs out waiting inside mine
      · obtain ⟨q, found, _⟩ := tiling.fits batch out chunk inside
        rw [mine, left.gone] at found
        cases found
    · exact later named (tiling.each p before)
  · rw [step_complete elapsedMs out]
    intro round member
    rcases List.mem_append.mp member with before | here
    · exact tiling.rounds round before
    · rw [List.mem_singleton.mp here]
      exact tiling.finished elapsedMs out

end Complete

/-- What the runs guarantee in every state. -/
structure TilesOnce (s : PrefillRun) : Prop where
  order_nodup : s.sched.order.Nodup
  order_iff : ∀ id, id ∈ s.sched.order ↔ id ∈ s.sched.queue
  demoted_queued : ∀ id ∈ s.sched.demoted, id ∈ s.sched.queue
  covers : ∀ p ∈ s.enqueued, Tiles 0 (s.chunksOf p.id) (s.doneOf p)
  completes_iff : ∀ p ∈ s.enqueued, ∀ chunk ∈ s.chunksOf p.id,
    (chunk.completes = true ↔ chunk.start + chunk.tokens = p.computeTokens)
  completes_last : ∀ p ∈ s.enqueued, ∀ earlier chunk later, s.chunksOf p.id = earlier ++ chunk :: later →
    chunk.completes = true → later = []
  returned_once : ∀ p ∈ s.enqueued, s.returned.count p.id = if p.id ∈ s.sched.queue then 0 else 1
  returned_with_chunk : ∀ round ∈ s.rounds, ∀ id,
    id ∈ round.finished ↔ ∃ chunk ∈ round.batch.chunks, chunk.id = id ∧ chunk.completes = true

theorem Waiting.completes_iff {p q : PendingPrefill} (waiting : s.Waiting p q) {chunk : PrefillChunk}
    (member : chunk ∈ s.chunksOf p.id) :
    chunk.completes = true ↔ chunk.start + chunk.tokens = p.computeTokens := by
  have bound := waiting.tiles.end_le member
  have unfinished := waiting.unfinished
  rw [waiting.incomplete chunk member]
  constructor
  · intro impossible
    cases impossible
  · intro full
    omega

theorem Left.completes_iff {p : PendingPrefill} (left : s.Left p) {chunk : PrefillChunk}
    (member : chunk ∈ s.chunksOf p.id) :
    chunk.completes = true ↔ chunk.start + chunk.tokens = p.computeTokens := by
  obtain ⟨earlier, final, chunks, completes, full, before⟩ := left.last
  rw [chunks] at member
  rcases List.mem_append.mp member with inside | here
  · obtain ⟨incomplete, short⟩ := before chunk inside
    rw [incomplete]
    constructor
    · intro impossible
      cases impossible
    · intro whole
      omega
  · rw [List.mem_singleton.mp here]
    exact ⟨fun _ => full, fun _ => completes⟩

/-- A completing chunk has no successor. -/
theorem Left.completes_last {p : PendingPrefill} (left : s.Left p) {earlier later : List PrefillChunk}
    {chunk : PrefillChunk} (split : s.chunksOf p.id = earlier ++ chunk :: later) (completes : chunk.completes = true) :
    later = [] := by
  obtain ⟨init, final, chunks, _, _, before⟩ := left.last
  rcases List.eq_nil_or_concat later with none | ⟨rest, last, rfl⟩
  · exact none
  · rw [chunks, List.concat_eq_append, ← List.cons_append, ← List.append_assoc] at split
    obtain ⟨front, _⟩ := List.append_inj' split rfl
    have inside : chunk ∈ init := by
      rw [front]
      exact List.mem_append_right _ (.head _)
    rw [(before chunk inside).1] at completes
    cases completes

theorem Tiling.tilesOnce (tiling : s.Tiling) : s.TilesOnce where
  order_nodup := tiling.consistent.order_nodup
  order_iff := tiling.consistent.order_iff
  demoted_queued := tiling.consistent.demoted_queued
  covers p member := by
    rcases tiling.each p member with ⟨q, waiting⟩ | left
    · rw [doneOf, waiting.queued]
      exact waiting.tiles
    · rw [doneOf, left.gone]
      exact left.tiles
  completes_iff p member chunk issued := by
    rcases tiling.each p member with ⟨q, waiting⟩ | left
    · exact waiting.completes_iff issued
    · exact left.completes_iff issued
  completes_last p member earlier chunk later split completes := by
    rcases tiling.each p member with ⟨q, waiting⟩ | left
    · have issued : chunk ∈ s.chunksOf p.id := by
        rw [split]
        exact List.mem_append_right _ (.head _)
      rw [waiting.incomplete chunk issued] at completes
      cases completes
    · exact left.completes_last split completes
  returned_once p member := by
    rcases tiling.each p member with ⟨q, waiting⟩ | left
    · rw [waiting.unreturned, if_pos (AList.lookup_isSome.mp (by rw [waiting.queued]; rfl))]
    · rw [left.returned, if_neg (AList.lookup_eq_none.mp left.gone)]
  returned_with_chunk round member id := by
    rw [tiling.rounds round member, List.mem_map]
    constructor
    · rintro ⟨chunk, kept, rfl⟩
      obtain ⟨inside, completes⟩ := List.mem_filter.mp kept
      exact ⟨chunk, inside, rfl, completes⟩
    · rintro ⟨chunk, inside, rfl, completes⟩
      exact ⟨chunk, List.mem_filter.mpr ⟨inside, completes⟩, rfl⟩

/-- Every run that alternates planning and completing, with fresh requests joining at any point,
tiles each prompt exactly once. -/
theorem chunks_tile_each_prompt_once (tuning : PrefillTuning) (ops : List PrefillOp) (s : PrefillRun)
    (run : Machine.Run (system tuning) ops s) : s.TilesOnce := by
  have tiling : s.Tiling := run.invariant
    (fun s first => by
      rw [show s = new tuning from first]
      exact tiling_new tuning)
    (fun s op t before taken => by
      obtain ⟨allowed, rfl⟩ := taken
      cases op with
      | enqueue p => exact before.enqueue allowed
      | plan now => exact before.plan now
      | complete elapsedMs =>
        obtain ⟨batch, out⟩ := Option.isSome_iff_exists.mp allowed
        exact before.complete elapsedMs out)
  exact tiling.tilesOnce

/-- One prompt of three tokens in chunks of at most two. -/
theorem chunks_tile_each_prompt_once_chunked :
    let tuning : PrefillTuning := ⟨2, 4, .mooreHodgson, true, 1, 1 / 5⟩
    let s := ([.enqueue ⟨7, 0, 10, 3, 0⟩, .plan 0, .complete 2, .plan 2, .complete 1] : List PrefillOp).foldl
      step (new tuning)
    s.chunksOf 7 = [⟨7, 0, 2, false⟩, ⟨7, 2, 1, true⟩] ∧ s.returned = [7] ∧ s.TilesOnce := by
  intro tuning s
  have start : Machine.Run (system tuning) [] (new tuning) := .start rfl
  have joined := start.apply (.enqueue ⟨7, 0, 10, 3, 0⟩) ⟨by decide, rfl, by decide⟩
  have planned := joined.apply (.plan 0) rfl
  have completed := planned.apply (.complete 2) rfl
  have replanned := completed.apply (.plan 2) rfl
  have final := replanned.apply (.complete 1) rfl
  exact ⟨by decide +kernel, by decide +kernel, chunks_tile_each_prompt_once tuning _ _ final⟩

end PrefillRun

end TrtLlm.Sched
