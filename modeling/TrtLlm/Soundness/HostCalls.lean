import TrtLlm.Model.Pyhost.Host

/-! # What a caller of the Python host gets

Many callers share one interpreter through one thread. Each gets what its command yields after exactly the commands sent
before it, or is told that the thread has ended. What the host asks of the interpreter at its start is recorded by a log
kept beside the interpreter's state.
-/

namespace TrtLlm.Pyhost

open Machine

variable {σ Obj Dict : Type}

/-! ### Commands -/

/-- Whether a command comes to the interpreter. -/
def Cmd.reaches : Cmd → Bool
  | .eval code => (code.toByteArray.toList.idxOf? 0).isNone
  | .evalStr code => (code.toByteArray.toList.idxOf? 0).isNone
  | .exec code => (code.toByteArray.toList.idxOf? 0).isNone
  | .call _ _ _ => true
  | .ping => false

/-- The kind of value that each command promises. -/
def Cmd.Returns : Cmd → Value → Prop
  | .eval _, .int _ => True
  | .evalStr _, .str _ => True
  | .exec _, .unit => True
  | .call _ _ _, .int _ => True
  | .ping, .unit => True
  | _, _ => False

/-- Run an operation and then what depends on its value. -/
theorem Py.bind_run {α β : Type} (action : Py σ α) (next : α → Py σ β) (interpreter : σ) :
    (action >>= next) interpreter =
      match action interpreter with
      | (.ok value, after) => next value after
      | (.error error, after) => (.error error, after) := by
  change (match action interpreter with | (result, after) => ExceptT.bindCont next result after) = _
  rcases action interpreter with ⟨error | value, after⟩
  · rfl
  · rfl

/-- An operation asked of the interpreter; whether CUDA is there is recorded with its answer. -/
inductive Issued where
  | importModule (name : String)
  | getattr (name : String)
  | callMethod (name : String) (args : List Arg)
  | call1 (arg : Int64)
  | eval (code : String)
  | run (code : String)
  | newDict
  | extractI64
  | extractBool (answer : Option Bool)
  | extractString
deriving DecidableEq, Repr

/-- Keep a log beside the interpreter's state. -/
def record {α : Type} (op : Except Error α → Issued) (action : Py σ α) : Py (σ × List Issued) α :=
  fun (interpreter, log) => ((action interpreter).1, (action interpreter).2, log ++ [op (action interpreter).1])

/-- An interpreter that does what another does and logs it. -/
def logged (python : Python σ Obj Dict) : Python (σ × List Issued) Obj Dict where
  importModule name := record (fun _ => .importModule name) (python.importModule name)
  getattr obj name := record (fun _ => .getattr name) (python.getattr obj name)
  callMethod obj name args := record (fun _ => .callMethod name args) (python.callMethod obj name args)
  call1 obj arg := record (fun _ => .call1 arg) (python.call1 obj arg)
  eval code globals := record (fun _ => .eval code) (python.eval code globals)
  run code globals := record (fun _ => .run code) (python.run code globals)
  newDict := fun (interpreter, log) =>
    ((python.newDict interpreter).1, (python.newDict interpreter).2, log ++ [.newDict])
  extractI64 obj := record (fun _ => .extractI64) (python.extractI64 obj)
  extractBool obj := record (fun result => .extractBool result.toOption) (python.extractBool obj)
  extractString obj := record (fun _ => .extractString) (python.extractString obj)

/-- The logged operation does the same; what it logs depends on whether it succeeds. -/
def Traces {α : Type} (plain : Py σ α) (logged : Py (σ × List Issued) α) (ok : α → List Issued → Prop)
    (failed : List Issued → Prop) : Prop :=
  ∀ interpreter log, ∃ issued, logged (interpreter, log) = ((plain interpreter).1, (plain interpreter).2, log ++ issued) ∧
    (∀ value, (plain interpreter).1 = .ok value → ok value issued) ∧
    (∀ error, (plain interpreter).1 = .error error → failed issued)

namespace Traces

variable {α β : Type}

theorem record (op : Except Error α → Issued) (action : Py σ α) :
    Traces action (record op action) (fun value issued => issued = [op (.ok value)])
      (fun issued => ∃ error, issued = [op (.error error)]) := by
  intro interpreter log
  refine ⟨[op (action interpreter).1], rfl, fun value done => ?_, fun error done => ⟨error, ?_⟩⟩
  · rw [done]
  · rw [done]

theorem context {plain : Py σ α} {logged : Py (σ × List Issued) α} {ok : α → List Issued → Prop}
    {failed : List Issued → Prop} (traces : Traces plain logged ok failed) (line : Context) :
    Traces (plain.context line) (logged.context line) ok failed := by
  intro interpreter log
  obtain ⟨issued, same, fine, wrong⟩ := traces interpreter log
  have run_context : ∀ {τ : Type} (action : Py τ α) (state : τ),
      action.context line state = ((action state).1.mapError (line :: ·), (action state).2) := fun _ _ => rfl
  refine ⟨issued, ?_, fun value done => fine value ?_, fun error done => ?_⟩
  · rw [run_context, run_context, same]
  · rw [run_context] at done
    cases result : (plain interpreter).1 with
    | error error =>
      rw [result] at done
      cases done
    | ok inner =>
      rw [result] at done
      exact done
  · rw [run_context] at done
    cases result : (plain interpreter).1 with
    | error inner => exact wrong inner result
    | ok value =>
      rw [result] at done
      cases done

theorem pure (value : α) {ok : α → List Issued → Prop} {failed : List Issued → Prop} (holds : ok value []) :
    Traces (σ := σ) (Pure.pure value) (Pure.pure value) ok failed := by
  intro interpreter log
  refine ⟨[], ?_, fun _ done => ?_, fun _ done => (nomatch done)⟩
  · rw [List.append_nil]
    rfl
  · cases done
    exact holds

theorem bind {plain : Py σ α} {logged : Py (σ × List Issued) α} {ok : α → List Issued → Prop}
    {failed : List Issued → Prop} {next : α → Py σ β} {loggedNext : α → Py (σ × List Issued) β}
    {okNext : β → List Issued → Prop} {failedNext : List Issued → Prop} (first : Traces plain logged ok failed)
    (stops : ∀ issued, failed issued → failedNext issued)
    (rest : ∀ value issued, ok value issued → Traces (next value) (loggedNext value)
      (fun result more => okNext result (issued ++ more)) fun more => failedNext (issued ++ more)) :
    Traces (plain >>= next) (logged >>= loggedNext) okNext failedNext := by
  intro interpreter log
  obtain ⟨issued, same, fine, wrong⟩ := first interpreter log
  rw [Py.bind_run, Py.bind_run, same]
  generalize plain interpreter = ran at fine wrong ⊢
  rcases ran with ⟨error | value, after⟩
  · exact ⟨issued, rfl, fun _ done => (nomatch done), fun _ _ => stops issued (wrong error rfl)⟩
  · obtain ⟨more, same_more, fine_more, wrong_more⟩ := rest value issued (fine value rfl) after (log ++ issued)
    refine ⟨issued ++ more, ?_, fine_more, wrong_more⟩
    rw [← List.append_assoc]
    exact same_more

/-- An operation that logs the same whatever comes of it. -/
theorem op (python : Py σ α) (issued : Issued) (line : Context) :
    Traces (python.context line) ((Pyhost.record (fun _ => issued) python).context line) (fun _ log => log = [issued])
      (· = [issued]) := by
  refine Traces.context ?_ line
  intro interpreter log
  exact ⟨[issued], rfl, fun _ _ => rfl, fun _ _ => rfl⟩

end Traces

def siteScript : Option String → List Issued
  | none => []
  | some sitePackages => [.importModule "sys", .getattr "path", .callMethod "insert" [.usize 0, .str sitePackages]]

def deviceScript (rank : ℕ) (available : Bool) : List Issued :=
  if available then [.callMethod "set_device" [.usize rank]] else []

def probeScript (answer : Option Bool) : List Issued :=
  [.importModule "torch", .getattr "cuda", .callMethod "is_available" [], .extractBool answer]

def loadScript : List Issued := [.importModule "tensorrt_llm", .getattr "__version__", .extractString]

/-- What the start asks for, in its order, given what CUDA answers; without a yes or no it stops there. -/
def script (rank : ℕ) (sitePackages : Option String) (answer : Option Bool) : List Issued :=
  siteScript sitePackages ++
    (probeScript answer ++ answer.elim [] fun available => deviceScript rank available ++ loadScript)

section

variable (python : Python σ Obj Dict)

end

/-! ### A host from its start -/

namespace PyHost

variable {python : Python σ Obj Dict} {rank : ℕ} {sitePackages : Option String}

/-- What holds of a host whose interpreter had come to `interpreter` when the thread began to serve. -/
structure Serves (python : Python σ Obj Dict) (rank : ℕ) (sitePackages : Option String) (host : PyHost σ Dict)
    (began middle interpreter : σ) (text : String) : Prop where
  version : host.trtllmVersion = some text
  initialised : initializePython python rank sitePackages began = (.ok (some text), middle)
  globals : python.newDict middle = (host.globals, interpreter)
  linear : host.thread.Linear (fun cmd => handle python host.globals cmd) interpreter

/-- What the callers of a host can count on. -/
structure Served (python : Python σ Obj Dict) (rank : ℕ) (sitePackages : Option String) (host : PyHost σ Dict)
    (began middle interpreter : σ) (text : String) : Prop where
  initialised : initializePython python rank sitePackages began = (.ok (some text), middle)
  globals : python.newDict middle = (host.globals, interpreter)
  version : host.trtllmVersion = some text
  /-- The interpreter has seen the commands in the order they were sent, but none with a NUL byte in its code. -/
  state : host.thread.state = Loop.stateAfter (fun cmd => handle python host.globals cmd) interpreter
    ((host.thread.commands.take host.thread.served).filter Cmd.reaches)
  /-- A caller gets what its command yields after those sent before it, or is told that the thread has ended. -/
  answers : ∀ ticket call result, host.thread.calls[ticket]? = some call → answer call.state = some result →
    (result = Loop.replyTo (fun cmd => handle python host.globals cmd) interpreter host.thread.commands ticket call.cmd ∨
        host.thread.running = false ∧ ∃ error, result = .error error) ∧
      ∀ value, result = .ok value → call.cmd.Returns value
  /-- A caller that goes on waiting has its answer once the thread has taken its command. -/
  waiting : ∀ ticket call, host.thread.calls[ticket]? = some call → call.state = .waiting →
    ∃ after, ((Loop.serve fun cmd => handle python host.globals cmd)^[ticket + 1 - host.thread.served]
        host.thread).calls[ticket]? = some after ∧
      answer after.state = some (Loop.replyTo (fun cmd => handle python host.globals cmd) interpreter
        host.thread.commands ticket call.cmd)
  /-- A dropped host ends with every command run, also those nobody waits for. -/
  closing : host.thread.running = true → host.thread.closed = true →
    ((Loop.serve fun cmd => handle python host.globals cmd)^[host.thread.calls.length - host.thread.served + 1]
        host.thread).running = false ∧
      ((Loop.serve fun cmd => handle python host.globals cmd)^[host.thread.calls.length - host.thread.served + 1]
        host.thread).state = Loop.stateAfter (fun cmd => handle python host.globals cmd) interpreter
          (host.thread.commands.filter Cmd.reaches)

end PyHost

end TrtLlm.Pyhost
