import Mathlib.Data.List.Basic

/-! # Labeled systems and their finite runs

A system is an initial predicate and a labeled step relation. A run carries the labels it has
executed, newest last, so an invariant may relate the state to everything that has happened so
far. Restricting a system keeps its steps and adds a guard on the state before the step; a run
of the restricted system is a run of the original one in which every step met the guard.
-/

namespace Machine

/-- A labeled transition system with its possible first states. -/
structure System (State Label : Type*) where
  Init : State → Prop
  Step : State → Label → State → Prop

variable {State Label : Type*}

/-- A finite run from an initial state, carrying exactly the labels it executed. -/
inductive Run (m : System State Label) : List Label → State → Prop
  | start {s : State} : m.Init s → Run m [] s
  | snoc {labels : List Label} {s t : State} {label : Label} :
      Run m labels s → m.Step s label t → Run m (labels ++ [label]) t

namespace System

/-- A total transition function with an enabling condition. -/
def ofFun (init : State → Prop) (enabled : State → Label → Prop) (step : State → Label → State) :
    System State Label where
  Init := init
  Step s label t := enabled s label ∧ t = step s label

/-- Keep only the steps whose source state and label meet a guard. -/
def restrict (m : System State Label) (guard : State → Label → Prop) : System State Label where
  Init := m.Init
  Step s label t := guard s label ∧ m.Step s label t

end System

namespace Run

variable {m : System State Label}

/-- What holds at the start and survives every step holds after every run. The property may
mention the labels executed so far. -/
theorem induct {P : List Label → State → Prop} (init : ∀ s, m.Init s → P [] s)
    (step : ∀ labels s label t, P labels s → m.Step s label t → P (labels ++ [label]) t)
    {labels : List Label} {s : State} (run : Run m labels s) : P labels s := by
  induction run with
  | start first => exact init _ first
  | snoc _ taken ih => exact step _ _ _ _ ih taken

/-- The state-only form of `induct`. -/
theorem invariant {P : State → Prop} (init : ∀ s, m.Init s → P s)
    (step : ∀ s label t, P s → m.Step s label t → P t)
    {labels : List Label} {s : State} (run : Run m labels s) : P s :=
  run.induct (P := fun _ s => P s) init (fun _ s label t => step s label t)

/-- A rank that every step lowers bounds the length of a run. The step lemma may use an invariant. -/
theorem length_add_rank_le {P : State → Prop} {rank : State → ℕ} {bound : ℕ}
    (init : ∀ s, m.Init s → P s ∧ rank s ≤ bound)
    (step : ∀ s label t, P s → m.Step s label t → P t ∧ rank t < rank s)
    {labels : List Label} {s : State} (run : Run m labels s) : labels.length + rank s ≤ bound := by
  have both : P s ∧ labels.length + rank s ≤ bound := by
    refine run.induct (P := fun labels s => P s ∧ labels.length + rank s ≤ bound) ?_ ?_
    · intro s first
      obtain ⟨holds, within⟩ := init s first
      exact ⟨holds, by simpa using within⟩
    · rintro labels s label t ⟨holds, within⟩ taken
      obtain ⟨after, lower⟩ := step s label t holds taken
      refine ⟨after, ?_⟩
      rw [List.length_append, List.length_singleton]
      omega
  exact both.2

/-- Extend a run of a transition function by one enabled label. -/
theorem apply {init : State → Prop} {enabled : State → Label → Prop} {step : State → Label → State}
    {labels : List Label} {s : State} (run : Run (.ofFun init enabled step) labels s) (label : Label)
    (possible : enabled s label) : Run (.ofFun init enabled step) (labels ++ [label]) (step s label) :=
  run.snoc ⟨possible, rfl⟩

/-- The same under a guard. -/
theorem applyGuarded {init : State → Prop} {enabled guard : State → Label → Prop}
    {step : State → Label → State} {labels : List Label} {s : State}
    (run : Run ((System.ofFun init enabled step).restrict guard) labels s) (label : Label)
    (met : guard s label) (possible : enabled s label) :
    Run ((System.ofFun init enabled step).restrict guard) (labels ++ [label]) (step s label) :=
  run.snoc ⟨met, possible, rfl⟩

/-- Fold a transition function whose labels are always enabled. -/
theorem foldl {init : State → Prop} {enabled : State → Label → Prop} {step : State → Label → State}
    (possible : ∀ s label, enabled s label) {labels : List Label} {s : State}
    (run : Run (.ofFun init enabled step) labels s) (next : List Label) :
    Run (.ofFun init enabled step) (labels ++ next) (next.foldl step s) := by
  induction next generalizing labels s with
  | nil => rwa [List.append_nil]
  | cons label next ih => simpa using ih (run.apply label (possible s label))

/-- Folding a partial transition function extends a run by all the labels. -/
theorem foldlM {step : State → Label → Option State} (sound : ∀ s label t, step s label = some t → m.Step s label t)
    {labels next : List Label} {s t : State} (run : Run m labels s) (done : next.foldlM step s = some t) :
    Run m (labels ++ next) t := by
  induction next generalizing labels s with
  | nil =>
    cases done
    rwa [List.append_nil]
  | cons label next ih =>
    obtain ⟨middle, first, rest⟩ := Option.bind_eq_some_iff.mp done
    simpa using ih (run.snoc (sound _ _ _ first)) rest

/-- A guard that always holds changes nothing. -/
theorem restrict {guard : State → Label → Prop} (always : ∀ s label, guard s label) {labels : List Label} {s : State}
    (run : Run m labels s) : Run (m.restrict guard) labels s := by
  induction run with
  | start first => exact .start first
  | snoc _ taken ih => exact .snoc ih ⟨always _ _, taken⟩

/-- A run under a guard is a run. -/
theorem of_restrict {guard : State → Label → Prop} {labels : List Label} {s : State}
    (run : Run (m.restrict guard) labels s) : Run m labels s := by
  induction run with
  | start first => exact .start first
  | snoc _ taken ih => exact .snoc ih taken.2

end Run

/-- Every label of a deterministic run together with the state it was taken in, oldest first. -/
def trail (step : State → Label → State) (s : State) : List Label → List (State × Label)
  | [] => []
  | label :: labels => (s, label) :: trail step (step s label) labels

theorem trail_concat (step : State → Label → State) (s : State) (labels : List Label) (label : Label) :
    trail step s (labels ++ [label]) = trail step s labels ++ [(labels.foldl step s, label)] := by
  induction labels generalizing s with
  | nil => rfl
  | cons first labels ih => rw [List.cons_append, trail, ih, trail, List.foldl_cons, List.cons_append]

end Machine
