import TrtLlm.Model.Wire.WorkerLifecycle

/-! # What is left of a request of the Python worker

However the generator, the task beside it, the server and the engine interleave, what was sent is a front part of what the
loop sends for the results it has taken, only its last frame can be a terminal one, and a generator that was started does
not end before the engine's request is finished or aborted.
-/

namespace TrtLlm.Wire

open Machine

variable {repr : PyValue → String}

/-! ### The loop, one result at a time -/

theorem events_cons_ok (repr : PyValue → String) {result : EngineResult} (there : result.disconnected = false)
    (items : List (Except String EngineResult)) :
    events repr (.ok result :: items) =
      (turn repr (.ok result)).1 ++ if (turn repr (.ok result)).2 then events repr items else [] := by
  rw [events, if_neg (by rw [there]; exact Bool.false_ne_true), turn]
  cases result.output with
  | error message => rfl
  | ok pair =>
    obtain ⟨output, text⟩ := pair
    cases found : tokenFrames text output.tokenIdsDiff with
    | mk frames failed =>
      simp only [found]
      cases failed with
      | some message => simp
      | none =>
        cases output.finishReason with
        | none => simp
        | str reason =>
          simp only
          split
          · simp
          · simp
        | bool value => simp
        | int value => simp
        | other => simp

/-- A frame that carries a token. -/
def IsToken (payload : Payload) : Prop := ∃ token text, payload = .token token text

theorem isToken_tokenFrames {text : String} {ids : List PyValue} {frame : Payload}
    (listed : frame ∈ (tokenFrames text ids).1) : IsToken frame := by
  induction ids with
  | nil => cases listed
  | cons id ids ih =>
    rw [tokenFrames] at listed
    split at listed
    next => cases listed
    next token =>
      rcases List.mem_cons.mp listed with rfl | later
      · exact ⟨_, _, rfl⟩
      · exact ih later

/-- Only the last frame of a turn may be no token, and only if the loop ends with it. -/
theorem turn_shape (repr : PyValue → String) (item : Except String EngineResult) :
    (turn repr item).2 = true ∧ (∀ frame ∈ (turn repr item).1, IsToken frame) ∨
      (turn repr item).2 = false ∧ ∃ frames last,
        (turn repr item).1 = frames ++ [last] ∧ ∀ frame ∈ frames, IsToken frame := by
  cases item with
  | error exception => exact .inr ⟨rfl, [], _, rfl, fun _ none => nomatch none⟩
  | ok result =>
    rw [turn]
    cases result.output with
    | error message => exact .inr ⟨rfl, [], _, rfl, fun _ none => nomatch none⟩
    | ok pair =>
      obtain ⟨output, text⟩ := pair
      have tokens : ∀ frame ∈ (tokenFrames text output.tokenIdsDiff).1, IsToken frame :=
        fun _ => isToken_tokenFrames
      simp only
      cases (tokenFrames text output.tokenIdsDiff).2 with
      | some message => exact .inr ⟨rfl, _, _, rfl, tokens⟩
      | none =>
        cases output.finishReason with
        | none => exact .inl ⟨rfl, tokens⟩
        | str reason => exact .inr ⟨rfl, _, _, rfl, tokens⟩
        | bool value => exact .inr ⟨rfl, _, _, rfl, tokens⟩
        | int value => exact .inr ⟨rfl, _, _, rfl, tokens⟩
        | other => exact .inr ⟨rfl, _, _, rfl, tokens⟩

/-- Among frames that carry tokens and one last frame, every frame with another behind it carries a token. -/
theorem isToken_of_concat {frames front back : List Payload} {last frame : Payload}
    (tokens : ∀ frame ∈ frames, IsToken frame) (same : frames ++ [last] = front ++ frame :: back) (more : back ≠ []) :
    IsToken frame := by
  refine tokens frame ?_
  have dropped := congrArg List.dropLast same
  rw [List.dropLast_concat, List.dropLast_append_of_ne_nil (List.cons_ne_nil _ _),
    List.dropLast_cons_of_ne_nil more] at dropped
  rw [dropped]
  simp

/-- Every frame of a stream but its last one carries a token. -/
theorem isToken_events {items : List (Except String EngineResult)} {front back : List Payload} {frame : Payload}
    (same : events repr items = front ++ frame :: back) (more : back ≠ []) : IsToken frame := by
  induction items generalizing front with
  | nil => exact isToken_of_concat (List.forall_mem_nil _) same more
  | cons item items ih =>
    cases item with
    | error exception => exact isToken_of_concat (List.forall_mem_nil _) same more
    | ok result =>
      cases there : result.disconnected with
      | true =>
        rw [events, if_pos there] at same
        cases front <;> cases same
      | false =>
        rw [events_cons_ok repr there] at same
        rcases turn_shape repr (.ok result) with ⟨again, tokens⟩ | ⟨ends, frames, last, shape, tokens⟩
        · rw [if_pos again, List.append_eq_append_iff] at same
          rcases same with ⟨rest, -, later⟩ | ⟨rest, here, later⟩
          · exact ih later
          · cases rest with
            | nil => exact @ih [] later.symm
            | cons first rest =>
              obtain ⟨rfl, -⟩ := List.cons.inj later
              refine tokens frame ?_
              rw [here]
              simp
        · rw [if_neg (by rw [ends]; exact Bool.false_ne_true), List.append_nil, shape] at same
          exact isToken_of_concat tokens same more

/-! ### The invariant -/

namespace Generation

/-- What was sent, read off the results that were taken. -/
def Spoken (repr : PyValue → String) (g : Generation) : Prop :=
  match g.phase with
  | .fresh => g.taken = [] ∧ g.sent = [] ∧ g.cut = false
  | .abandoned => g.taken = [] ∧ g.sent = [] ∧ g.cut = false
  | .reading => g.cut = false ∧ ∀ rest, events repr (g.taken ++ rest) = g.sent ++ events repr rest
  | .sending frames true => g.cut = false ∧
    ∀ rest, events repr (g.taken ++ rest) = g.sent ++ (frames ++ events repr rest)
  | .sending frames false => g.cut = false ∧ events repr g.taken = g.sent ++ frames
  | .closing => if g.cut then g.sent <+: events repr g.taken else g.sent = events repr g.taken
  | .ended => if g.cut then g.sent <+: events repr g.taken else g.sent = events repr g.taken

/-- How the watcher stands, and the request once the generator has ended. -/
def Kept (g : Generation) : Prop :=
  match g.phase with
  | .fresh => g.watcher = .absent ∧ g.aborts = 0
  | .abandoned => g.watcher = .absent ∧ g.aborts = 0
  | .ended => g.watcher = .ended ∧ (g.finished = true ∨ 0 < g.aborts) ∨ g.watcher = .failed
  | _ => g.watcher ≠ .absent

theorem Spoken.front {g : Generation} (spoken : g.Spoken repr) : g.sent <+: events repr g.taken := by
  unfold Spoken at spoken
  split at spoken
  next =>
    rw [spoken.2.1]
    exact List.nil_prefix
  next =>
    rw [spoken.2.1]
    exact List.nil_prefix
  next =>
    have whole := spoken.2 []
    rw [List.append_nil] at whole
    exact ⟨_, whole.symm⟩
  next =>
    have whole := spoken.2 []
    rw [List.append_nil] at whole
    exact ⟨_, whole.symm⟩
  next => exact ⟨_, spoken.2.symm⟩
  next =>
    split at spoken
    next => exact spoken
    next => exact spoken ▸ List.prefix_refl _
  next =>
    split at spoken
    next => exact spoken
    next => exact spoken ▸ List.prefix_refl _

@[simp] theorem abortIfUnfinished_taken (g : Generation) : g.abortIfUnfinished.taken = g.taken := by
  unfold abortIfUnfinished
  split <;> rfl

@[simp] theorem abortIfUnfinished_sent (g : Generation) : g.abortIfUnfinished.sent = g.sent := by
  unfold abortIfUnfinished
  split <;> rfl

@[simp] theorem abortIfUnfinished_cut (g : Generation) : g.abortIfUnfinished.cut = g.cut := by
  unfold abortIfUnfinished
  split <;> rfl

@[simp] theorem abortIfUnfinished_phase (g : Generation) : g.abortIfUnfinished.phase = g.phase := by
  unfold abortIfUnfinished
  split <;> rfl

@[simp] theorem abortIfUnfinished_watcher (g : Generation) : g.abortIfUnfinished.watcher = g.watcher := by
  unfold abortIfUnfinished
  split <;> rfl

theorem abortIfUnfinished_released (g : Generation) :
    g.abortIfUnfinished.finished = true ∨ 0 < g.abortIfUnfinished.aborts := by
  unfold abortIfUnfinished
  split
  next finished => exact .inl finished
  next => exact .inr (Nat.succ_pos _)

theorem abortIfUnfinished_finished_eq {g : Generation} (finished : g.finished = true) : g.abortIfUnfinished = g := by
  rw [abortIfUnfinished, if_pos finished]

theorem Spoken.advance {g : Generation} {frames : List Payload} {again : Bool} (whole : g.cut = false)
    (ahead : if again then ∀ rest, events repr (g.taken ++ rest) = g.sent ++ (frames ++ events repr rest)
      else events repr g.taken = g.sent ++ frames) : (g.advance frames again).Spoken repr := by
  cases frames with
  | nil =>
    cases again with
    | true => exact ⟨whole, ahead⟩
    | false =>
      rw [if_neg Bool.false_ne_true, List.append_nil] at ahead
      change if g.cut then _ else _
      rw [if_neg (by rw [whole]; exact Bool.false_ne_true)]
      exact ahead.symm
  | cons frame frames =>
    cases again with
    | true =>
      refine ⟨whole, fun rest => ?_⟩
      change events repr (g.taken ++ rest) = g.sent ++ [frame] ++ (frames ++ events repr rest)
      rw [if_pos rfl] at ahead
      rw [ahead rest]
      simp
    | false =>
      refine ⟨whole, ?_⟩
      rw [if_neg Bool.false_ne_true] at ahead
      change events repr g.taken = g.sent ++ [frame] ++ frames
      rw [ahead]
      simp

/-- What was sent depends on nothing else. -/
theorem Spoken.of_eq {g after : Generation} (spoken : g.Spoken repr) (phase : after.phase = g.phase)
    (taken : after.taken = g.taken) (sent : after.sent = g.sent) (cut : after.cut = g.cut) : after.Spoken repr := by
  unfold Spoken at spoken ⊢
  rw [phase, taken, sent, cut]
  exact spoken

theorem Spoken.closing {g : Generation} (phase : g.phase = .closing) (whole : g.cut = false)
    (sent : g.sent = events repr g.taken) : g.Spoken repr := by
  unfold Spoken
  rw [phase, whole]
  exact sent

theorem Spoken.deliver {g : Generation} (spoken : g.Spoken repr) (reading : g.phase = .reading)
    (item : Except String EngineResult) : (g.deliver repr item).Spoken repr := by
  unfold Spoken at spoken
  rw [reading] at spoken
  obtain ⟨whole, ahead⟩ := spoken
  cases item with
  | error exception =>
    exact @Spoken.advance repr { g with taken := g.taken ++ [.error exception] } [.error exception] false whole
      (ahead [.error exception])
  | ok result =>
    rw [Generation.deliver]
    simp only
    split
    next gone =>
      refine Spoken.closing rfl ((abortIfUnfinished_cut _).trans whole) ?_
      change ({ g with taken := g.taken ++ [.ok result] } : Generation).abortIfUnfinished.sent =
        events repr ({ g with taken := g.taken ++ [.ok result] } : Generation).abortIfUnfinished.taken
      rw [abortIfUnfinished_sent, abortIfUnfinished_taken, ahead [.ok result], events, if_pos gone, List.append_nil]
    next there =>
      have here : result.disconnected = false := Bool.eq_false_iff.mpr there
      refine @Spoken.advance repr { g with taken := g.taken ++ [.ok result] } _ _ whole ?_
      cases again : (turn repr (.ok result)).2 with
      | true =>
        intro rest
        change events repr (g.taken ++ [.ok result] ++ rest) = g.sent ++ ((turn repr (.ok result)).1 ++ events repr rest)
        rw [List.append_assoc, ahead, List.singleton_append, events_cons_ok repr here, if_pos again]
      | false =>
        change events repr (g.taken ++ [.ok result]) = g.sent ++ (turn repr (.ok result)).1
        rw [ahead, events_cons_ok repr here, if_neg (by rw [again]; exact Bool.false_ne_true), List.append_nil]

theorem settle_eq (g : Generation) : g.settle.phase = .ended ∧ g.settle.taken = g.taken ∧ g.settle.sent = g.sent ∧
    g.settle.cut = g.cut := by
  unfold settle
  split
  · exact ⟨rfl, rfl, rfl, rfl⟩
  · exact ⟨rfl, abortIfUnfinished_taken g, abortIfUnfinished_sent g, abortIfUnfinished_cut g⟩

theorem Spoken.settle {g : Generation} (spoken : g.Spoken repr) (closing : g.phase = .closing) :
    g.settle.Spoken repr := by
  obtain ⟨phase, taken, sent, cut⟩ := settle_eq g
  unfold Spoken at spoken ⊢
  rw [closing] at spoken
  rw [phase, taken, sent, cut]
  exact spoken

/-- Cut from outside, what was sent stays a front part. -/
theorem Spoken.cut {g after : Generation} (spoken : g.Spoken repr) (phase : after.phase = .closing)
    (taken : after.taken = g.taken) (sent : after.sent = g.sent) (cut : after.cut = true) : after.Spoken repr := by
  unfold Spoken
  rw [phase, taken, sent, cut]
  exact spoken.front

theorem watch_eq (disconnected : Bool) (g : Generation) :
    (g.watch disconnected).phase = g.phase ∧ (g.watch disconnected).taken = g.taken ∧
      (g.watch disconnected).sent = g.sent ∧ (g.watch disconnected).cut = g.cut := by
  unfold watch
  split
  · exact ⟨abortIfUnfinished_phase g, abortIfUnfinished_taken g, abortIfUnfinished_sent g, abortIfUnfinished_cut g⟩
  · split <;> exact ⟨rfl, rfl, rfl, rfl⟩

theorem Spoken.step {g : Generation} (spoken : g.Spoken repr) {event : GenerationEvent} (enabled : g.Enabled event) :
    (g.step repr event).Spoken repr := by
  cases event with
  | start =>
    have fresh : g.phase = .fresh := enabled
    unfold Spoken at spoken
    rw [fresh] at spoken
    obtain ⟨taken, sent, whole⟩ := spoken
    refine ⟨whole, fun rest => ?_⟩
    change events repr (g.taken ++ rest) = g.sent ++ events repr rest
    rw [taken, sent]
    rfl
  | abandon =>
    have fresh : g.phase = .fresh := enabled
    unfold Spoken at spoken
    rw [fresh] at spoken
    exact spoken
  | deliver item => exact spoken.deliver enabled item
  | exhaust =>
    have reading : g.phase = .reading := enabled
    unfold Spoken at spoken
    rw [reading] at spoken
    have ended := spoken.2 []
    rw [List.append_nil] at ended
    exact @Spoken.advance repr g [.error "TensorRT-LLM stream ended without a finish_reason"] false spoken.1 ended
  | pull =>
    obtain ⟨frames, again, sending⟩ := enabled
    rw [Generation.step, sending]
    unfold Spoken at spoken
    rw [sending] at spoken
    cases again with
    | true => exact Spoken.advance spoken.1 spoken.2
    | false => exact Spoken.advance spoken.1 spoken.2
  | cancel =>
    rcases enabled with reading | ⟨frames, again, sending⟩ | closing
    · rw [Generation.step, Generation.cancel, reading]
      exact spoken.cut rfl (abortIfUnfinished_taken g) (abortIfUnfinished_sent g) rfl
    · rw [Generation.step, Generation.cancel, sending]
      exact spoken.cut rfl rfl rfl rfl
    · rw [Generation.step, Generation.cancel, closing]
      exact spoken.settle closing
  | settle => exact spoken.settle enabled
  | watch disconnected =>
    obtain ⟨phase, taken, sent, cut⟩ := watch_eq disconnected g
    exact spoken.of_eq phase taken sent cut
  | watchFails => exact spoken.of_eq rfl rfl rfl rfl
  | finish => exact spoken.of_eq rfl rfl rfl rfl

/-- The generator runs or cleans up. -/
def Begun (g : Generation) : Prop :=
  g.phase = .reading ∨ (∃ frames again, g.phase = .sending frames again) ∨ g.phase = .closing

theorem Begun.kept_iff {g : Generation} (begun : g.Begun) : g.Kept ↔ g.watcher ≠ .absent := by
  unfold Kept
  rcases begun with phase | ⟨frames, again, phase⟩ | phase
  · rw [phase]
  · rw [phase]
  · rw [phase]

theorem begun_advance (frames : List Payload) (again : Bool) (g : Generation) : (g.advance frames again).Begun := by
  cases frames with
  | nil =>
    cases again with
    | true => exact .inl rfl
    | false => exact .inr (.inr rfl)
  | cons frame frames => exact .inr (.inl ⟨frames, again, rfl⟩)

theorem advance_watcher (frames : List Payload) (again : Bool) (g : Generation) :
    (g.advance frames again).watcher = g.watcher := by
  cases frames <;> rfl

theorem kept_advance (g : Generation) (watched : g.watcher ≠ .absent) (frames : List Payload) (again : Bool) :
    (g.advance frames again).Kept := by
  rw [(begun_advance frames again g).kept_iff, advance_watcher]
  exact watched

theorem Kept.deliver {g : Generation} (watched : g.watcher ≠ .absent) (item : Except String EngineResult) :
    (g.deliver repr item).Kept := by
  unfold Generation.deliver
  cases item with
  | error exception => exact kept_advance { g with taken := g.taken ++ [.error exception] } watched _ _
  | ok result =>
    simp only
    split
    next =>
      refine (Begun.kept_iff (.inr (.inr rfl))).mpr ?_
      change ({ g with taken := g.taken ++ [.ok result] } : Generation).abortIfUnfinished.watcher ≠ .absent
      rw [abortIfUnfinished_watcher]
      exact watched
    next => exact kept_advance { g with taken := g.taken ++ [.ok result] } watched _ _

/-- The end of the cleanup: either the request is finished or aborted, or the watcher's exception got in the way. -/
theorem kept_settle (g : Generation) : g.settle.Kept := by
  unfold settle
  split
  next failed => exact .inr failed
  next => exact .inl ⟨rfl, abortIfUnfinished_released g⟩

theorem Kept.step {g : Generation} (kept : g.Kept) {event : GenerationEvent} (enabled : g.Enabled event) :
    (g.step repr event).Kept := by
  cases event with
  | start => exact (Begun.kept_iff (.inl rfl)).mpr (fun absent => nomatch absent)
  | abandon =>
    have fresh : g.phase = .fresh := enabled
    unfold Kept at kept
    rw [fresh] at kept
    exact kept
  | deliver item => exact Kept.deliver ((Begun.kept_iff (.inl enabled)).mp kept) item
  | exhaust =>
    exact kept_advance g ((Begun.kept_iff (.inl enabled)).mp kept)
      [.error "TensorRT-LLM stream ended without a finish_reason"] false
  | pull =>
    obtain ⟨frames, again, sending⟩ := enabled
    rw [Generation.step, sending]
    exact kept_advance g ((Begun.kept_iff (.inr (.inl ⟨frames, again, sending⟩))).mp kept) _ _
  | cancel =>
    have watched := (Begun.kept_iff enabled).mp kept
    rcases enabled with reading | ⟨frames, again, sending⟩ | closing
    · rw [Generation.step, Generation.cancel, reading]
      refine (Begun.kept_iff (.inr (.inr rfl))).mpr ?_
      change g.abortIfUnfinished.watcher ≠ .absent
      rw [abortIfUnfinished_watcher]
      exact watched
    · rw [Generation.step, Generation.cancel, sending]
      exact (Begun.kept_iff (.inr (.inr rfl))).mpr watched
    · rw [Generation.step, Generation.cancel, closing]
      exact kept_settle g
  | settle => exact kept_settle g
  | watch disconnected =>
    obtain ⟨running, phase⟩ := enabled
    have begun : (g.watch disconnected).Begun := by
      have same := (watch_eq disconnected g).1
      rcases phase with reading | sending
      · exact .inl (same.trans reading)
      · obtain ⟨frames, again, sending⟩ := sending
        exact .inr (.inl ⟨frames, again, same.trans sending⟩)
    refine begun.kept_iff.mpr ?_
    unfold watch
    split
    · exact fun absent => nomatch absent
    · split
      · exact fun absent => nomatch absent
      · rw [running]
        exact fun absent => nomatch absent
  | watchFails =>
    obtain ⟨-, phase⟩ := enabled
    have begun : (g.step repr .watchFails).Begun := phase.elim .inl fun sending => .inr (.inl sending)
    exact begun.kept_iff.mpr (fun absent => nomatch absent)
  | finish =>
    unfold Kept at kept ⊢
    change match g.phase with
      | .fresh => g.watcher = .absent ∧ g.aborts = 0
      | .abandoned => g.watcher = .absent ∧ g.aborts = 0
      | .ended => g.watcher = .ended ∧ (true = true ∨ 0 < g.aborts) ∨ g.watcher = .failed
      | _ => g.watcher ≠ .absent
    cases phase : g.phase with
    | ended =>
      rw [phase] at kept
      exact kept.imp_left fun ended => ⟨ended.1, .inl rfl⟩
    | fresh => rwa [phase] at kept
    | abandoned => rwa [phase] at kept
    | reading => rwa [phase] at kept
    | sending frames again => rwa [phase] at kept
    | closing => rwa [phase] at kept

/-- A finished request is never aborted. -/
theorem step_calm {g : Generation} (finished : g.finished = true) (event : GenerationEvent) :
    (g.step repr event).finished = true ∧ (g.step repr event).aborts = g.aborts := by
  have advanced : ∀ (frames : List Payload) (again : Bool) (g : Generation),
      (g.advance frames again).finished = g.finished ∧ (g.advance frames again).aborts = g.aborts := by
    intro frames again g
    cases frames <;> exact ⟨rfl, rfl⟩
  have settled : g.settle.finished = true ∧ g.settle.aborts = g.aborts := by
    unfold settle
    rw [abortIfUnfinished_finished_eq finished]
    split <;> exact ⟨finished, rfl⟩
  cases event with
  | start => exact ⟨finished, rfl⟩
  | abandon => exact ⟨finished, rfl⟩
  | deliver item =>
    unfold Generation.step Generation.deliver
    cases item with
    | error exception =>
      obtain ⟨same, aborts⟩ := advanced _ _ { g with taken := g.taken ++ [.error exception] }
      exact ⟨same.trans finished, aborts⟩
    | ok result =>
      simp only
      split
      · rw [abortIfUnfinished_finished_eq (g := { g with taken := g.taken ++ [.ok result] }) finished]
        exact ⟨finished, rfl⟩
      · obtain ⟨same, aborts⟩ := advanced _ _ { g with taken := g.taken ++ [.ok result] }
        exact ⟨same.trans finished, aborts⟩
  | exhaust =>
    obtain ⟨same, aborts⟩ := advanced _ _ g
    exact ⟨same.trans finished, aborts⟩
  | pull =>
    unfold Generation.step
    simp only
    split
    · obtain ⟨same, aborts⟩ := advanced _ _ g
      exact ⟨same.trans finished, aborts⟩
    · exact ⟨finished, rfl⟩
  | cancel =>
    unfold Generation.step Generation.cancel
    simp only
    rw [abortIfUnfinished_finished_eq finished]
    split
    · exact ⟨finished, rfl⟩
    · exact ⟨finished, rfl⟩
    · exact settled
    · exact ⟨finished, rfl⟩
  | settle => exact settled
  | watch disconnected =>
    unfold Generation.step Generation.watch
    simp only
    rw [abortIfUnfinished_finished_eq finished]
    split
    · exact ⟨finished, rfl⟩
    · exact ⟨finished, rfl⟩
  | watchFails => exact ⟨finished, rfl⟩
  | finish => exact ⟨rfl, rfl⟩

theorem foldl_calm {g : Generation} (finished : g.finished = true) (more : List GenerationEvent) :
    (more.foldl (Generation.step repr) g).aborts = g.aborts := by
  induction more generalizing g with
  | nil => rfl
  | cons event more ih =>
    have calm : (g.step repr event).finished = true ∧ (g.step repr event).aborts = g.aborts := step_calm finished event
    obtain ⟨still, same⟩ := calm
    exact (ih still).trans same

/-! ### Whole runs -/

/-- What is true of a request at any time. -/
structure Cleaned (repr : PyValue → String) (g : Generation) : Prop where
  front : g.sent <+: events repr g.taken
  /-- Unless it was cut from outside, an ended generator has sent all. -/
  whole : g.phase = .ended → g.cut = false → g.sent = events repr g.taken
  /-- Nothing follows a terminal frame. -/
  tokens : ∀ front frame back, g.sent = front ++ frame :: back → back ≠ [] → IsToken frame
  /-- No request is left to the engine by an ended generator, unless the check for a disconnect raised in the watcher. -/
  released : g.phase = .ended → g.watcher = .ended ∧ (g.finished = true ∨ 0 < g.aborts) ∨ g.watcher = .failed
  /-- A finished request is not aborted any more. -/
  calm : g.finished = true → ∀ more : List GenerationEvent, (more.foldl (step repr) g).aborts = g.aborts
  /-- A generator that was never started cleans nothing up. -/
  unstarted : g.phase = .abandoned → g.aborts = 0 ∧ g.sent = []

theorem run_cleaned {labels : List GenerationEvent} {g : Generation} (run : Run (system repr) labels g) :
    Cleaned repr g := by
  have both : g.Spoken repr ∧ g.Kept := by
    refine run.invariant (P := fun g => g.Spoken repr ∧ g.Kept) ?_ ?_
    · rintro g ⟨finished, rfl⟩
      exact ⟨⟨rfl, rfl, rfl⟩, rfl, rfl⟩
    · rintro g event after ⟨spoken, kept⟩ ⟨enabled, rfl⟩
      exact ⟨spoken.step enabled, kept.step enabled⟩
  obtain ⟨spoken, kept⟩ := both
  refine ⟨spoken.front, fun ended whole => ?_, fun front frame back same more => ?_, fun ended => ?_, foldl_calm,
    fun abandoned => ?_⟩
  · unfold Spoken at spoken
    rw [ended, whole] at spoken
    exact spoken
  · obtain ⟨rest, all⟩ := spoken.front
    rw [same, List.append_assoc, List.cons_append] at all
    exact isToken_events all.symm (by simp [more])
  · unfold Kept at kept
    rwa [ended] at kept
  · unfold Kept at kept
    unfold Spoken at spoken
    rw [abandoned] at kept spoken
    exact ⟨kept.2, spoken.2.1⟩

/-- Two tokens in one delta. -/
def twoTokens : EngineResult := ⟨false, none, some [⟨[.int 7, .int 8], .str "hi", .none⟩]⟩

/-- The client hangs up between two results: the loop and the `finally` both abort the request. -/
theorem run_cleaned_disconnected :
    let labels : List GenerationEvent := [.start, .deliver (.ok twoTokens), .pull, .watch false, .pull,
      .deliver (.ok { twoTokens with disconnected := true }), .settle, .finish]
    let g := labels.foldl (step fun _ => "") (new false)
    Cleaned (fun _ => "") g ∧ g.sent = [.token 7 "", .token 8 "hi"] ∧ g.phase = .ended ∧ g.aborts = 2 := by
  intro labels g
  have fresh : Run (system fun _ => "") [] (new false) := .start ⟨false, rfl⟩
  have told := (fresh.apply .start rfl).apply (.deliver (.ok twoTokens)) rfl
  have pulled := told.apply .pull ⟨_, _, rfl⟩
  have watched := pulled.apply (.watch false) ⟨rfl, .inr ⟨_, _, rfl⟩⟩
  have again := watched.apply .pull ⟨_, _, rfl⟩
  have gone := again.apply (.deliver (.ok { twoTokens with disconnected := true })) rfl
  have final := (gone.apply .settle rfl).apply .finish trivial
  exact ⟨run_cleaned final, by decide, by decide, by decide⟩

end Generation

end TrtLlm.Wire
