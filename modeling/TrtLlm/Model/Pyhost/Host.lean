import TrtLlm.Machine.CommandLoop

/-! # The thread that owns the embedded interpreter

Follows `crates/pyhost/src/lib.rs`. What the interpreter does with an operation is a parameter: every operation may raise
and may change the interpreter's state. The host's own part is the order of the operations, the contexts it gives the
errors and the thread that serves the commands.
-/

namespace TrtLlm.Pyhost

open Machine

/-- A line of an error's chain. -/
inductive Context where
  | text (text : String)
  /-- `what` code contained an embedded NUL byte. -/
  | embeddedNul (what code : String)
deriving DecidableEq, Repr

/-- An error with its contexts, outermost first. -/
abbrev Error := List Context

/-- An operation on the interpreter, which may raise. -/
abbrev Py (σ : Type) := ExceptT Error (StateM σ)

/-- Say what was attempted. -/
def Py.context {σ α : Type} (line : Context) (action : Py σ α) : Py σ α := ExceptT.adapt (line :: ·) action

inductive Arg where
  | usize (value : ℕ)
  | str (value : String)
deriving DecidableEq, Repr

/-- The operations of the interpreter. A raised exception is the chain it has by itself. -/
structure Python (σ Obj Dict : Type) where
  importModule : String → Py σ Obj
  getattr : Obj → String → Py σ Obj
  callMethod : Obj → String → List Arg → Py σ Obj
  call1 : Obj → Int64 → Py σ Obj
  eval : String → Dict → Py σ Obj
  run : String → Dict → Py σ Unit
  newDict : StateM σ Dict
  extractI64 : Obj → Py σ Int64
  extractBool : Obj → Py σ Bool
  extractString : Obj → Py σ String

/-! ### Start -/

section

variable {σ Obj Dict : Type} (python : Python σ Obj Dict)

/-- `sys.path.insert(0, site_packages)`, when they are given. -/
def insertSitePackages : Option String → Py σ Unit
  | none => pure ()
  | some sitePackages => do
    let sys ← (python.importModule "sys").context (.text "import sys")
    let path ← (python.getattr sys "path").context (.text "sys.path")
    let _ ← (python.callMethod path "insert" [.usize 0, .str sitePackages]).context
      (.text "sys.path.insert(0, site_packages)")
    return ()

def cudaAvailable (cuda : Obj) : Py σ Bool := do
  let answer ← (python.callMethod cuda "is_available" []).context (.text "torch.cuda.is_available()")
  (python.extractBool answer).context (.text "torch.cuda.is_available() did not return a bool")

/-- Without CUDA this logs and goes on. -/
def setDevice (cuda : Obj) (rank : ℕ) (available : Bool) : Py σ Unit :=
  if available then do
    let _ ← (python.callMethod cuda "set_device" [.usize rank]).context (.text s!"torch.cuda.set_device({rank})")
    return ()
  else pure ()

def readVersion (tensorrtLlm : Obj) : Py σ String := do
  let version ← (python.getattr tensorrtLlm "__version__").context (.text "tensorrt_llm.__version__")
  (python.extractString version).context (.text "tensorrt_llm.__version__ was not a string")

def initializePython (rank : ℕ) (sitePackages : Option String) : Py σ (Option String) := do
  insertSitePackages python sitePackages
  let torch ← (python.importModule "torch").context (.text "import torch")
  let cuda ← (python.getattr torch "cuda").context (.text "torch.cuda")
  let available ← cudaAvailable python cuda
  setDevice python cuda rank available
  let tensorrtLlm ← (python.importModule "tensorrt_llm").context (.text "import tensorrt_llm")
  let version ← readVersion python tensorrtLlm
  return some version

/-! ### Commands -/

inductive Cmd where
  | eval (code : String)
  | evalStr (code : String)
  | exec (code : String)
  | call (module func : String) (arg : Int64)
  | ping
deriving DecidableEq, Repr

inductive Value where
  | int (value : Int64)
  | str (value : String)
  | unit
deriving DecidableEq, Repr

/-- A C string has no NUL byte inside. -/
def cString (code : String) : Except Error String :=
  match code.toByteArray.toList.idxOf? 0 with
  | some position => .error [.text s!"nul byte found in provided data at position: {position}"]
  | none => .ok code

def cCode {σ : Type} (what code : String) : Py σ String :=
  Py.context (.embeddedNul what code) (ExceptT.mk (pure (cString code)))

def evalExpr (globals : Dict) (code : String) : Py σ Int64 := do
  let code ← cCode "eval" code
  let result ← (python.eval code globals).context (.text "Python::eval")
  (python.extractI64 result).context (.text "eval result did not extract as i64")

def evalStrExpr (globals : Dict) (code : String) : Py σ String := do
  let code ← cCode "eval" code
  let result ← (python.eval code globals).context (.text "Python::eval")
  (python.extractString result).context (.text "eval result did not extract as String")

def execStmt (globals : Dict) (code : String) : Py σ Unit := do
  let code ← cCode "exec" code
  (python.run code globals).context (.text "Python::run")

def callFunc (module func : String) (arg : Int64) : Py σ Int64 := do
  let module_ ← (python.importModule module).context (.text s!"import {module}")
  let func_ ← (python.getattr module_ func).context (.text s!"{module}.{func}")
  let result ← (python.call1 func_ arg).context (.text s!"{module}.{func}({arg})")
  (python.extractI64 result).context (.text s!"{module}.{func}({arg}) did not return an int")

/-- What the thread does with a command. -/
def handle (globals : Dict) : Cmd → Py σ Value
  | .ping => pure .unit
  | .eval code => .int <$> evalExpr python globals code
  | .evalStr code => .str <$> evalStrExpr python globals code
  | .exec code => (fun _ => .unit) <$> execStmt python globals code
  | .call module func arg => .int <$> callFunc python module func arg

end

/-! ### The host -/

/-- A started host: the version it read, the namespace of its commands and the thread with its channel. -/
structure PyHost (σ Dict : Type) where
  trtllmVersion : Option String
  globals : Dict
  thread : Loop σ Cmd (Except Error Value)

namespace PyHost

variable {σ Obj Dict : Type} (python : Python σ Obj Dict)

/-- Start the thread and wait until it has initialised; `panics` says that it vanishes before it reports. -/
def start (panics : Bool) (rank : ℕ) (sitePackages : Option String) (interpreter : σ) :
    Except Error (PyHost σ Dict) :=
  if panics then
    .error [.text "pyhost thread exited before completing initialisation (see stderr above for a panic message, if any)"]
  else
    match initializePython python rank sitePackages interpreter with
    | (.error error, _) => .error error
    | (.ok version, interpreter) =>
      let (globals, interpreter) := python.newDict interpreter
      .ok ⟨version, globals, .new interpreter⟩

/-- What `call` returns to a caller, once it returns. -/
def answer : CallState (Except Error Value) → Option (Except Error Value)
  | .waiting => none
  | .gone => none
  | .replied reply => some reply
  | .refused => some (.error [.text "pyhost worker thread has exited"])
  | .lost => some (.error [.text "pyhost worker thread dropped the reply channel"])

def step (host : PyHost σ Dict) (event : LoopEvent Cmd) : PyHost σ Dict :=
  { host with thread := host.thread.step (fun cmd => handle python host.globals cmd) event }

/-- A host from its start, with its callers, its thread and its drop in any order. -/
def system (rank : ℕ) (sitePackages : Option String) : System (PyHost σ Dict) (LoopEvent Cmd) :=
  .ofFun (fun host => ∃ panics interpreter, start python panics rank sitePackages interpreter = .ok host)
    (fun host event => host.thread.Enabled event) (step python)

end PyHost

end TrtLlm.Pyhost
