import Mathlib.Logic.Function.Iterate
import TrtLlm.Machine.Path

/-! # One thread that serves a channel of commands

Callers send commands down one channel and wait for their replies, each on a channel of its own. A single thread takes the
commands in order, changes its state and replies; a caller may have given up by then. The handle sends a last message when
it is dropped and waits for the thread. The thread may also die at any time, which drops every channel it holds.

Replies are those of running the commands one after another in the order they were sent.
-/

namespace Machine

variable {σ Cmd Reply : Type*}

/-- Where a caller stands. -/
inductive CallState (Reply : Type*) where
  | waiting
  | replied (reply : Reply)
  /-- The thread had ended when the command was to be sent. -/
  | refused
  /-- The thread ended before it replied. -/
  | lost
  /-- The caller stopped waiting. -/
  | gone
deriving DecidableEq, Repr

structure Call (Cmd Reply : Type*) where
  cmd : Cmd
  state : CallState Reply
deriving DecidableEq, Repr

namespace Call

/-- A reply reaches a caller that waits. -/
def settle (state : CallState Reply) (call : Call Cmd Reply) : Call Cmd Reply :=
  match call.state with
  | .waiting => { call with state }
  | _ => call

@[simp] theorem settle_cmd (state : CallState Reply) (call : Call Cmd Reply) : (call.settle state).cmd = call.cmd := by
  unfold settle
  split <;> rfl

end Call

inductive Message (Cmd : Type*) where
  | job (ticket : ℕ) (cmd : Cmd)
  | shutdown
deriving DecidableEq, Repr

structure Loop (σ Cmd Reply : Type*) where
  state : σ
  queue : List (Message Cmd)
  running : Bool
  /-- The handle is being dropped. -/
  closed : Bool
  /-- Every call so far; its place is its ticket. -/
  calls : List (Call Cmd Reply)
  /-- How many commands the thread has taken. -/
  served : ℕ
deriving DecidableEq, Repr

inductive LoopEvent (Cmd : Type*) where
  | send (cmd : Cmd)
  | giveUp (ticket : ℕ)
  /-- The thread takes the next message and deals with it. -/
  | serve
  | crash
  | close
deriving DecidableEq, Repr

namespace Loop

def new (state : σ) : Loop σ Cmd Reply := ⟨state, [], true, false, [], 0⟩

def send (cmd : Cmd) (loop : Loop σ Cmd Reply) : Loop σ Cmd Reply :=
  if loop.running then
    { loop with
      queue := loop.queue ++ [.job loop.calls.length cmd]
      calls := loop.calls ++ [⟨cmd, .waiting⟩] }
  else { loop with calls := loop.calls ++ [⟨cmd, .refused⟩] }

def serve (handle : Cmd → σ → Reply × σ) (loop : Loop σ Cmd Reply) : Loop σ Cmd Reply :=
  match loop.queue with
  | [] => loop
  | .shutdown :: _ => { loop with queue := [], running := false }
  | .job ticket cmd :: rest =>
    { loop with
      state := (handle cmd loop.state).2
      queue := rest
      calls := loop.calls.modify ticket (Call.settle (.replied (handle cmd loop.state).1))
      served := loop.served + 1 }

def crash (loop : Loop σ Cmd Reply) : Loop σ Cmd Reply :=
  { loop with queue := [], running := false, calls := loop.calls.map (Call.settle .lost) }

def close (loop : Loop σ Cmd Reply) : Loop σ Cmd Reply :=
  { loop with closed := true, queue := if loop.running then loop.queue ++ [.shutdown] else loop.queue }

def step (handle : Cmd → σ → Reply × σ) (loop : Loop σ Cmd Reply) : LoopEvent Cmd → Loop σ Cmd Reply
  | .send cmd => loop.send cmd
  | .giveUp ticket => { loop with calls := loop.calls.modify ticket (Call.settle .gone) }
  | .serve => loop.serve handle
  | .crash => loop.crash
  | .close => loop.close

/-- A caller holds the handle while it waits, so the handle is dropped when nobody does, and not used afterwards. -/
def Enabled (loop : Loop σ Cmd Reply) : LoopEvent Cmd → Prop
  | .send _ => loop.closed = false
  | .giveUp _ => True
  | .serve => loop.running = true
  | .crash => loop.running = true
  | .close => loop.closed = false ∧ ∀ call ∈ loop.calls, call.state ≠ .waiting

def system (handle : Cmd → σ → Reply × σ) (first : σ → Prop) : System (Loop σ Cmd Reply) (LoopEvent Cmd) :=
  .ofFun (fun loop => ∃ state, first state ∧ loop = new state) Enabled (step handle)

/-- The commands so far, in the order they were sent. -/
def commands (loop : Loop σ Cmd Reply) : List Cmd := loop.calls.map (·.cmd)

/-! ### The order of the commands -/

/-- The state after running some commands in turn. -/
def stateAfter (handle : Cmd → σ → Reply × σ) (state : σ) (cmds : List Cmd) : σ :=
  cmds.foldl (fun state cmd => (handle cmd state).2) state

/-- The reply to a command with a ticket, if the commands are run in the order they were sent. -/
def replyTo (handle : Cmd → σ → Reply × σ) (state : σ) (cmds : List Cmd) (ticket : ℕ) (cmd : Cmd) : Reply :=
  (handle cmd (stateAfter handle state (cmds.take ticket))).1

/-- The messages that carry some commands whose tickets begin at `first`. -/
def jobsFrom : ℕ → List Cmd → List (Message Cmd)
  | _, [] => []
  | first, cmd :: cmds => .job first cmd :: jobsFrom (first + 1) cmds

/-- What holds of a loop that began in `start`. -/
structure Linear (handle : Cmd → σ → Reply × σ) (start : σ) (loop : Loop σ Cmd Reply) : Prop where
  within : loop.served ≤ loop.calls.length
  state : loop.state = stateAfter handle start (loop.commands.take loop.served)
  /-- While the thread runs, the channel holds exactly the commands it has not taken, in the order they were sent. -/
  queue : loop.running = true → loop.queue =
    jobsFrom loop.served (loop.commands.drop loop.served) ++ if loop.closed then [.shutdown] else []
  /-- A caller waits only for a command that the running thread has not taken. -/
  waiting : ∀ (ticket : ℕ) (call : Call Cmd Reply), loop.calls[ticket]? = some call → call.state = .waiting →
    loop.running = true ∧ loop.served ≤ ticket
  /-- A reply is that of the commands run in the order they were sent. -/
  replied : ∀ (ticket : ℕ) (call : Call Cmd Reply) reply, loop.calls[ticket]? = some call →
    call.state = .replied reply → ticket < loop.served ∧ reply = replyTo handle start loop.commands ticket call.cmd
  /-- Without a reply the thread has ended. -/
  failed : ∀ (ticket : ℕ) (call : Call Cmd Reply), loop.calls[ticket]? = some call →
    call.state = .refused ∨ call.state = .lost → loop.running = false
  idle : loop.closed = true → ∀ call ∈ loop.calls, call.state ≠ .waiting

section

variable {handle : Cmd → σ → Reply × σ} {start : σ} {loop : Loop σ Cmd Reply}

@[simp] theorem length_commands (loop : Loop σ Cmd Reply) : loop.commands.length = loop.calls.length := by
  rw [commands, List.length_map]

theorem jobsFrom_append (first : ℕ) (cmds more : List Cmd) :
    jobsFrom first (cmds ++ more) = jobsFrom first cmds ++ jobsFrom (first + cmds.length) more := by
  induction cmds generalizing first with
  | nil => rfl
  | cons cmd cmds ih =>
    rw [List.cons_append, jobsFrom, jobsFrom, ih, List.cons_append, List.length_cons]
    congr 3
    omega

theorem replyTo_append (handle : Cmd → σ → Reply × σ) (start : σ) {cmds : List Cmd} (more : List Cmd) {ticket : ℕ}
    (within : ticket ≤ cmds.length) (cmd : Cmd) :
    replyTo handle start (cmds ++ more) ticket cmd = replyTo handle start cmds ticket cmd := by
  rw [replyTo, replyTo, List.take_append_of_le_length within]

theorem stateAfter_concat (handle : Cmd → σ → Reply × σ) (start : σ) (cmds : List Cmd) (cmd : Cmd) :
    stateAfter handle start (cmds ++ [cmd]) = (handle cmd (stateAfter handle start cmds)).2 := by
  rw [stateAfter, List.foldl_append]
  rfl

/-- Settling a call changes no command. -/
theorem map_cmd_modify (calls : List (Call Cmd Reply)) (ticket : ℕ) (state : CallState Reply) :
    (calls.modify ticket (Call.settle state)).map (·.cmd) = calls.map (·.cmd) := by
  refine List.ext_getElem? fun i => ?_
  rw [List.getElem?_map, List.getElem?_map, List.getElem?_modify]
  cases calls[i]? with
  | none => rfl
  | some call =>
    rw [Option.map_eq_map, Option.map_some, Option.map_some, Option.map_some]
    split
    · rw [Call.settle_cmd]
    · rfl

theorem map_cmd_settle (calls : List (Call Cmd Reply)) (state : CallState Reply) :
    (calls.map (Call.settle state)).map (·.cmd) = calls.map (·.cmd) := by
  rw [List.map_map]
  exact List.map_congr_left fun call _ => Call.settle_cmd state call

/-- A settled call waited and stands as it was told, or stands as before. -/
theorem settle_state (state : CallState Reply) (call : Call Cmd Reply) :
    call.state = .waiting ∧ (call.settle state).state = state ∨
      call.state ≠ .waiting ∧ (call.settle state).state = call.state := by
  unfold Call.settle
  split
  next waited => exact .inl ⟨waited, rfl⟩
  next other => exact .inr ⟨other, rfl⟩

/-- What a call was before one of them was settled. -/
theorem getElem?_modify_settle {calls : List (Call Cmd Reply)} {ticket i : ℕ} {state : CallState Reply}
    {call : Call Cmd Reply} (found : (calls.modify ticket (Call.settle state))[i]? = some call) :
    ∃ old, calls[i]? = some old ∧ old.cmd = call.cmd ∧
      (i = ticket ∧ old.state = .waiting ∧ call.state = state ∨
        (i = ticket → old.state ≠ .waiting) ∧ call.state = old.state) := by
  rw [List.getElem?_modify] at found
  obtain ⟨old, there, rfl⟩ := Option.map_eq_some_iff.mp found
  refine ⟨old, there, ?_⟩
  split
  next here =>
    refine ⟨(Call.settle_cmd _ _).symm, ?_⟩
    rcases settle_state state old with ⟨waited, now⟩ | ⟨other, now⟩
    · exact .inl ⟨here.symm, waited, now⟩
    · exact .inr ⟨fun _ => other, now⟩
  next elsewhere => exact ⟨rfl, .inr ⟨fun here => absurd here.symm elsewhere, rfl⟩⟩

/-- What a call was before all of them were settled. -/
theorem getElem?_map_settle {calls : List (Call Cmd Reply)} {i : ℕ} {state : CallState Reply} {call : Call Cmd Reply}
    (found : (calls.map (Call.settle state))[i]? = some call) :
    ∃ old, calls[i]? = some old ∧ old.cmd = call.cmd ∧
      (call.state = state ∨ old.state ≠ .waiting ∧ call.state = old.state) := by
  rw [List.getElem?_map] at found
  obtain ⟨old, there, rfl⟩ := Option.map_eq_some_iff.mp found
  refine ⟨old, there, (Call.settle_cmd _ _).symm, ?_⟩
  rcases settle_state state old with ⟨-, now⟩ | ⟨other, now⟩
  · exact .inl now
  · exact .inr ⟨other, now⟩

/-- A call of a longer list is an old one or the new one. -/
theorem getElem?_concat_cases {calls : List (Call Cmd Reply)} {new call : Call Cmd Reply} {ticket : ℕ}
    (found : (calls ++ [new])[ticket]? = some call) :
    calls[ticket]? = some call ∨ ticket = calls.length ∧ call = new := by
  rcases Nat.lt_or_ge ticket calls.length with old | beyond
  · rw [List.getElem?_append_left old] at found
    exact .inl found
  · rw [List.getElem?_append_right beyond] at found
    obtain ⟨bound, same⟩ := List.getElem?_eq_some_iff.mp found
    rw [List.length_singleton] at bound
    refine .inr ⟨by omega, ?_⟩
    rw [← same, List.getElem_singleton]

/-! ### One step -/

theorem Linear.send (linear : Linear handle start loop) (opened : loop.closed = false) (cmd : Cmd) :
    Linear handle start (loop.send cmd) := by
  obtain ⟨within, state, queue, waiting, replied, failed, idle⟩ := linear
  have inside : loop.served ≤ loop.commands.length := by rwa [length_commands]
  -- The new call stands last, whether it was taken or refused.
  have commands_concat : ∀ state : CallState Reply,
      (loop.calls ++ [(⟨cmd, state⟩ : Call Cmd Reply)]).map (·.cmd) = loop.commands ++ [cmd] :=
    fun state => by rw [List.map_append, Loop.commands, List.map_singleton]
  have state_concat : loop.state = stateAfter handle start ((loop.commands ++ [cmd]).take loop.served) := by
    rw [List.take_append_of_le_length inside]
    exact state
  have replied_concat : ∀ (ticket : ℕ) (call : Call Cmd Reply) (reply : Reply), loop.calls[ticket]? = some call →
      call.state = .replied reply →
      ticket < loop.served ∧ reply = replyTo handle start (loop.commands ++ [cmd]) ticket call.cmd := by
    intro ticket call reply found done
    obtain ⟨before, same⟩ := replied ticket call reply found done
    refine ⟨before, ?_⟩
    rw [replyTo_append handle start _ (by omega)]
    exact same
  rw [Loop.send]
  split
  next running =>
    refine ⟨?_, ?_, fun _ => ?_, fun ticket call found waits => ?_, fun ticket call reply found done => ?_,
      fun ticket call found lost => ?_, fun closed => ?_⟩
    · exact Nat.le_trans within (by rw [List.length_append]; exact Nat.le_add_right _ _)
    · rw [Loop.commands, commands_concat]
      exact state_concat
    · rw [Loop.commands, commands_concat, queue running, List.drop_append_of_le_length inside, jobsFrom_append,
        List.length_drop, Nat.add_sub_cancel' inside, length_commands]
      simp only [opened, Bool.false_eq_true, if_false, List.append_nil]
      rfl
    · rcases getElem?_concat_cases found with old | ⟨rfl, -⟩
      · exact waiting ticket call old waits
      · exact ⟨running, within⟩
    · rw [Loop.commands, commands_concat]
      rcases getElem?_concat_cases found with old | ⟨rfl, rfl⟩
      · exact replied_concat ticket call reply old done
      · cases done
    · rcases getElem?_concat_cases found with old | ⟨rfl, rfl⟩
      · exact failed ticket call old lost
      · rcases lost with lost | lost <;> cases lost
    · rw [opened] at closed
      cases closed
  next ended =>
    have stopped : loop.running = false := Bool.eq_false_iff.mpr ended
    refine ⟨?_, ?_, fun running => absurd running ended, fun ticket call found waits => ?_,
      fun ticket call reply found done => ?_, fun _ _ _ _ => stopped, fun closed => ?_⟩
    · exact Nat.le_trans within (by rw [List.length_append]; exact Nat.le_add_right _ _)
    · rw [Loop.commands, commands_concat]
      exact state_concat
    · rcases getElem?_concat_cases found with old | ⟨rfl, rfl⟩
      · exact waiting ticket call old waits
      · cases waits
    · rw [Loop.commands, commands_concat]
      rcases getElem?_concat_cases found with old | ⟨rfl, rfl⟩
      · exact replied_concat ticket call reply old done
      · cases done
    · rw [opened] at closed
      cases closed

theorem Linear.giveUp (linear : Linear handle start loop) (ticket : ℕ) :
    Linear handle start { loop with calls := loop.calls.modify ticket (Call.settle .gone) } := by
  obtain ⟨within, state, queue, waiting, replied, failed, idle⟩ := linear
  have same := map_cmd_modify loop.calls ticket (.gone : CallState Reply)
  refine ⟨by rwa [List.length_modify], ?_, fun running => ?_, fun i call found waits => ?_,
    fun i call reply found done => ?_, fun i call found lost => ?_, fun closed call member => ?_⟩
  · rw [Loop.commands, same]
    exact state
  · rw [Loop.commands, same]
    exact queue running
  · obtain ⟨old, there, -, ⟨-, -, gone⟩ | ⟨-, kept⟩⟩ := getElem?_modify_settle found
    · rw [waits] at gone
      cases gone
    · exact waiting i old there (kept ▸ waits)
  · obtain ⟨old, there, cmd, ⟨-, -, gone⟩ | ⟨-, kept⟩⟩ := getElem?_modify_settle found
    · rw [done] at gone
      cases gone
    · rw [Loop.commands, same, ← cmd]
      exact replied i old reply there (kept ▸ done)
  · obtain ⟨old, there, -, ⟨-, -, gone⟩ | ⟨-, kept⟩⟩ := getElem?_modify_settle found
    · rw [gone] at lost
      rcases lost with lost | lost <;> cases lost
    · exact failed i old there (kept ▸ lost)
  · obtain ⟨i, found⟩ := List.mem_iff_getElem?.mp member
    obtain ⟨old, there, -, ⟨-, -, gone⟩ | ⟨-, kept⟩⟩ := getElem?_modify_settle found
    · rw [gone]
      exact fun waits => nomatch waits
    · rw [kept]
      exact idle closed old (List.mem_of_getElem? there)

/-- The thread is about to take the command after those it has taken, or the last message of all. -/
theorem Linear.next (linear : Linear handle start loop) (running : loop.running = true) :
    (∃ cmd, loop.commands[loop.served]? = some cmd ∧ loop.queue = .job loop.served cmd ::
        (jobsFrom (loop.served + 1) (loop.commands.drop (loop.served + 1)) ++
          if loop.closed then [.shutdown] else [])) ∨
      loop.served = loop.calls.length ∧ loop.queue = if loop.closed then [.shutdown] else [] := by
  rcases Nat.lt_or_ge loop.served loop.commands.length with more | all
  · refine .inl ⟨loop.commands[loop.served], List.getElem?_eq_getElem more, ?_⟩
    rw [linear.queue running, List.drop_eq_getElem_cons more]
    rfl
  · rw [length_commands] at all
    refine .inr ⟨Nat.le_antisymm linear.within all, ?_⟩
    rw [linear.queue running, List.drop_eq_nil_of_le (by rwa [length_commands])]
    rfl

theorem serve_job {ticket : ℕ} {cmd : Cmd} {rest : List (Message Cmd)} (jobs : loop.queue = .job ticket cmd :: rest) :
    loop.serve handle =
      { loop with
        state := (handle cmd loop.state).2
        queue := rest
        calls := loop.calls.modify ticket (Call.settle (.replied (handle cmd loop.state).1))
        served := loop.served + 1 } := by
  rw [Loop.serve, jobs]

theorem Linear.serve (linear : Linear handle start loop) (running : loop.running = true) :
    Linear handle start (loop.serve handle) := by
  have next := linear.next running
  obtain ⟨within, state, queue, waiting, replied, failed, idle⟩ := linear
  rcases next with ⟨cmd, head, jobs⟩ | ⟨all, last⟩
  · have same := map_cmd_modify loop.calls loop.served (.replied (handle cmd loop.state).1 : CallState Reply)
    have before : loop.served < loop.calls.length := by
      rw [← length_commands]
      exact (List.getElem?_eq_some_iff.mp head).1
    rw [serve_job jobs]
    refine ⟨?_, ?_, fun _ => ?_, fun i call found waits => ?_, fun i call reply found done => ?_,
      fun i call found lost => ?_, fun closed call member => ?_⟩
    · exact Nat.le_trans before (Nat.le_of_eq (List.length_modify ..).symm)
    · change (handle cmd loop.state).2 = stateAfter handle start (((loop.calls.modify _ _).map (·.cmd)).take _)
      rw [same, List.take_add_one]
      change (handle cmd loop.state).2 =
        stateAfter handle start (loop.commands.take loop.served ++ loop.commands[loop.served]?.toList)
      rw [head, Option.toList_some, stateAfter_concat, ← state]
    · change _ = jobsFrom _ (((loop.calls.modify _ _).map (·.cmd)).drop _) ++ _
      rw [same]
      rfl
    · obtain ⟨old, there, -, ⟨-, -, settled⟩ | ⟨other, kept⟩⟩ := getElem?_modify_settle found
      · rw [waits] at settled
        cases settled
      · rw [kept] at waits
        have behind := (waiting i old there waits).2
        refine ⟨running, Nat.lt_of_le_of_ne behind fun here => other here.symm waits⟩
    · obtain ⟨old, there, cmd_eq, ⟨rfl, -, settled⟩ | ⟨-, kept⟩⟩ := getElem?_modify_settle found
      · have cmd_old : old.cmd = cmd := by
          rw [Loop.commands, List.getElem?_map, there] at head
          exact Option.some.inj head
        rw [done] at settled
        refine ⟨Nat.lt_succ_self _, ?_⟩
        rw [Loop.commands, same, ← cmd_eq, cmd_old, replyTo]
        change reply = (handle cmd (stateAfter handle start (loop.commands.take loop.served))).1
        rw [← state]
        exact CallState.replied.inj settled
      · obtain ⟨earlier, reply_eq⟩ := replied i old reply there (kept ▸ done)
        refine ⟨Nat.lt_succ_of_lt earlier, ?_⟩
        rw [Loop.commands, same, ← cmd_eq]
        exact reply_eq
    · obtain ⟨old, there, -, ⟨-, -, settled⟩ | ⟨-, kept⟩⟩ := getElem?_modify_settle found
      · rw [settled] at lost
        rcases lost with lost | lost <;> cases lost
      · exact failed i old there (kept ▸ lost)
    · obtain ⟨i, found⟩ := List.mem_iff_getElem?.mp member
      obtain ⟨old, there, -, ⟨-, -, settled⟩ | ⟨-, kept⟩⟩ := getElem?_modify_settle found
      · rw [settled]
        exact fun waits => nomatch waits
      · rw [kept]
        exact idle closed old (List.mem_of_getElem? there)
  · cases ending : loop.closed with
    | false =>
      rw [ending] at last
      have stays : loop.serve handle = loop := by
        rw [Loop.serve, last]
        rfl
      rw [stays]
      exact ⟨within, state, queue, waiting, replied, failed, idle⟩
    | true =>
      rw [ending] at last
      have ends : loop.serve handle = { loop with queue := [], running := false } := by
        rw [Loop.serve, last]
        rfl
      rw [ends]
      refine ⟨within, state, fun running => (nomatch running), fun i call found waits => ?_, replied,
        fun _ _ _ _ => rfl, idle⟩
      exact absurd waits (idle ending call (List.mem_of_getElem? found))

theorem Linear.crash (linear : Linear handle start loop) : Linear handle start (Loop.crash loop) := by
  obtain ⟨within, state, queue, waiting, replied, failed, idle⟩ := linear
  have same := map_cmd_settle loop.calls (.lost : CallState Reply)
  rw [Loop.crash]
  refine ⟨Nat.le_trans within (Nat.le_of_eq (List.length_map ..).symm), ?_, fun running => (nomatch running),
    fun i call found waits => ?_, fun i call reply found done => ?_, fun _ _ _ _ => rfl, fun closed call member => ?_⟩
  · rw [Loop.commands, same]
    exact state
  · obtain ⟨old, -, -, lost | ⟨other, kept⟩⟩ := getElem?_map_settle found
    · rw [waits] at lost
      cases lost
    · exact absurd (kept ▸ waits) other
  · obtain ⟨old, there, cmd, lost | ⟨-, kept⟩⟩ := getElem?_map_settle found
    · rw [done] at lost
      cases lost
    · rw [Loop.commands, same, ← cmd]
      exact replied i old reply there (kept ▸ done)
  · obtain ⟨i, found⟩ := List.mem_iff_getElem?.mp member
    obtain ⟨old, there, -, lost | ⟨other, kept⟩⟩ := getElem?_map_settle found
    · rw [lost]
      exact fun waits => nomatch waits
    · rw [kept]
      exact other

theorem Linear.close (linear : Linear handle start loop) (opened : loop.closed = false)
    (quiet : ∀ call ∈ loop.calls, call.state ≠ .waiting) : Linear handle start loop.close := by
  obtain ⟨within, state, queue, waiting, replied, failed, -⟩ := linear
  rw [Loop.close]
  refine ⟨within, state, fun running => ?_, waiting, replied, failed, fun _ => quiet⟩
  change (if loop.running then loop.queue ++ [.shutdown] else loop.queue) =
    jobsFrom loop.served (loop.commands.drop loop.served) ++ [.shutdown]
  rw [if_pos running, queue running, opened, if_neg Bool.false_ne_true, List.append_nil]

theorem Linear.step (linear : Linear handle start loop) {event : LoopEvent Cmd} (enabled : loop.Enabled event) :
    Linear handle start (loop.step handle event) := by
  cases event with
  | send cmd => exact linear.send enabled cmd
  | giveUp ticket => exact linear.giveUp ticket
  | serve => exact linear.serve enabled
  | crash => exact linear.crash
  | close => exact linear.close enabled.1 enabled.2

/-! ### The thread catches up -/

/-- A running thread takes one command with each step as long as there are any. -/
theorem Linear.advance (linear : Linear handle start loop) (running : loop.running = true) :
    ∀ n, loop.served + n ≤ loop.calls.length →
      Linear handle start ((Loop.serve handle)^[n] loop) ∧ ((Loop.serve handle)^[n] loop).running = true ∧
        ((Loop.serve handle)^[n] loop).closed = loop.closed ∧
        ((Loop.serve handle)^[n] loop).commands = loop.commands ∧
        ((Loop.serve handle)^[n] loop).served = loop.served + n := by
  intro n
  induction n generalizing loop with
  | zero => exact fun _ => ⟨linear, running, rfl, rfl, rfl⟩
  | succ n ih =>
    intro more
    rcases linear.next running with ⟨cmd, -, jobs⟩ | ⟨all, -⟩
    · have served : (loop.serve handle).served = loop.served + 1 := by rw [serve_job jobs]
      have still : (loop.serve handle).running = true := by rwa [serve_job jobs]
      have closed : (loop.serve handle).closed = loop.closed := by rw [serve_job jobs]
      have commands : (loop.serve handle).commands = loop.commands := by
        rw [serve_job jobs]
        exact map_cmd_modify ..
      have length : (loop.serve handle).calls.length = loop.calls.length := by
        rw [← length_commands, commands, length_commands]
      obtain ⟨after, runs, closes, kept, taken⟩ := ih (linear.serve running) still (by omega)
      rw [Function.iterate_succ_apply]
      exact ⟨after, runs, closes.trans closed, kept.trans commands, by omega⟩
    · omega

/-- Taking a message leaves a waiting caller waiting or gives it a reply. -/
theorem serve_waiting {ticket : ℕ} {call : Call Cmd Reply} (found : loop.calls[ticket]? = some call)
    (unsettled : call.state = .waiting ∨ ∃ reply, call.state = .replied reply) :
    ∃ after, (loop.serve handle).calls[ticket]? = some after ∧
      (after.state = .waiting ∨ ∃ reply, after.state = .replied reply) := by
  unfold Loop.serve
  split
  next => exact ⟨call, found, unsettled⟩
  next => exact ⟨call, found, unsettled⟩
  next job cmd rest jobs =>
    have there : ((loop.calls.modify job (Call.settle (.replied (handle cmd loop.state).1)))[ticket]?).isSome := by
      rw [List.getElem?_modify, found]
      rfl
    obtain ⟨after, at_ticket⟩ := Option.isSome_iff_exists.mp there
    refine ⟨after, at_ticket, ?_⟩
    obtain ⟨old, before, -, ⟨-, -, settled⟩ | ⟨-, kept⟩⟩ := getElem?_modify_settle at_ticket
    · exact .inr ⟨_, settled⟩
    · rw [found] at before
      rw [kept, ← Option.some.inj before]
      exact unsettled

/-- A caller that goes on waiting has its reply once the thread has taken its command. -/
theorem Linear.answered (linear : Linear handle start loop) {ticket : ℕ} {call : Call Cmd Reply}
    (found : loop.calls[ticket]? = some call) (waits : call.state = .waiting) :
    ∃ after, ((Loop.serve handle)^[ticket + 1 - loop.served] loop).calls[ticket]? = some after ∧
      after.state = .replied (replyTo handle start loop.commands ticket call.cmd) := by
  obtain ⟨running, behind⟩ := linear.waiting ticket call found waits
  have inside : ticket < loop.calls.length := (List.getElem?_eq_some_iff.mp found).1
  obtain ⟨later, -, -, commands, served⟩ := linear.advance running (ticket + 1 - loop.served) (by omega)
  have followed : ∀ n, ∃ after, ((Loop.serve handle)^[n] loop).calls[ticket]? = some after ∧
      (after.state = .waiting ∨ ∃ reply, after.state = .replied reply) := by
    intro n
    induction n with
    | zero => exact ⟨call, found, .inl waits⟩
    | succ n ih =>
      obtain ⟨middle, there, still⟩ := ih
      rw [Function.iterate_succ_apply']
      exact serve_waiting there still
  obtain ⟨after, there, state⟩ := followed (ticket + 1 - loop.served)
  refine ⟨after, there, ?_⟩
  rcases state with still | ⟨reply, replied⟩
  · have ahead := (later.waiting ticket after there still).2
    omega
  · have same_cmd : after.cmd = call.cmd := by
      have at_after : ((Loop.serve handle)^[ticket + 1 - loop.served] loop).commands[ticket]? = some after.cmd := by
        rw [Loop.commands, List.getElem?_map, there]
        rfl
      rw [commands, Loop.commands, List.getElem?_map, found] at at_after
      exact (Option.some.inj at_after).symm
    rw [replied, (later.replied ticket after reply there replied).2, commands, same_cmd]

/-- When the handle is dropped the thread ends once it has run every command, also those nobody waits for. -/
theorem Linear.closing (linear : Linear handle start loop) (running : loop.running = true)
    (closed : loop.closed = true) :
    ((Loop.serve handle)^[loop.calls.length - loop.served + 1] loop).running = false ∧
      ((Loop.serve handle)^[loop.calls.length - loop.served + 1] loop).state =
        stateAfter handle start loop.commands := by
  have all : loop.served + (loop.calls.length - loop.served) = loop.calls.length := Nat.add_sub_cancel' linear.within
  obtain ⟨later, still, closes, commands, served⟩ := linear.advance running _ (Nat.le_of_eq all)
  rw [all] at served
  have length : ((Loop.serve handle)^[loop.calls.length - loop.served] loop).calls.length = loop.calls.length := by
    rw [← length_commands, commands, length_commands]
  rw [Function.iterate_succ_apply']
  rcases later.next still with ⟨cmd, more, -⟩ | ⟨-, last⟩
  · have beyond := (List.getElem?_eq_some_iff.mp more).1
    rw [length_commands] at beyond
    omega
  · rw [closes, closed] at last
    rw [Loop.serve, last]
    refine ⟨rfl, ?_⟩
    change ((Loop.serve handle)^[loop.calls.length - loop.served] loop).state = _
    rw [later.state, commands, served, List.take_of_length_le (Nat.le_of_eq (length_commands loop))]

end

end Loop

end Machine
