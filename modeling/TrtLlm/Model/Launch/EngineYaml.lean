import TrtLlm.Model.Launch.Environment

/-! # From the launcher's variables to an engine that accepts them

`write_engine_yaml` of `scripts/stage-d-235b-disagg.sbatch`, `check` of `scripts/validate_engine_yaml.py` and
`EngineConfig::validate_for` of `crates/core/src/engine_config.rs`. A file of options is its mapping, with scalars as they
are written. What the engine's own argument class says, the import of a module and `repr` are parameters.
-/

namespace TrtLlm.Launch

/-! ### Options -/

inductive Field where
  | scalar (text : Text)
  | mapping (entries : List (Text × Text))
deriving DecidableEq, Repr

/-- The options of a file, in order. -/
abbrev Doc := List (Text × Field)

/-- `doc.get(key)`, or `(doc.get(key) or {}).get(sub)`. -/
def Doc.get (doc : Doc) (key : Text) : Option Text → Option Text
  | none =>
    match doc.lookup key with
    | some (.scalar text) => some text
    | _ => none
  | some sub =>
    match doc.lookup key with
    | some (.mapping entries) => entries.lookup sub
    | _ => none

/-! ### The launcher -/

inductive Role where
  | prefill
  | decode
deriving DecidableEq, Repr

/-- `echo "key: text"`. -/
def option (key : String) (text : Text) : Doc := [(key.toList, .scalar text)]

/-- `echo "key:"` and the lines below it. -/
def options (key : String) (entries : List (String × Text)) : Doc :=
  [(key.toList, .mapping (entries.map fun entry => (entry.1.toList, entry.2)))]

def torchCompileConfig (mode : Text) : Doc :=
  if mode = ['0'] then []
  else if mode = "inductor".toList then options "torch_compile_config" [("enable_inductor", "true".toList)]
  else options "torch_compile_config" []

/-- `ALLOWED`. -/
def allowed : List (Text × List Text) :=
  [("attn_backend".toList, ["TRTLLM".toList, "FLASHINFER".toList, "TRITON".toList, "VANILLA".toList])]

/-- A choice that only some GPUs run. -/
structure SmGate where
  key : Text
  sub : Option Text
  want : Text
  runs : ℕ → Bool
  why : Text

def moeGate (want : Text) (runs : ℕ → Bool) (why : Text) : SmGate :=
  ⟨"moe_config".toList, some "backend".toList, want, runs, why⟩

/-- `SM_GATED`. -/
def smGated : List SmGate :=
  [moeGate "DEEPGEMM".toList (fun sm => sm = 100 || sm = 103)
      ("DeepGemmFusedMoE requires SM100 or SM103 (fused_moe_deepgemm.py:751). " ++
        "vLLM's deep_gemm is a different implementation; a result from that " ++
        "stack does not transfer to this flag.").toList,
    moeGate "TRTLLM".toList (fun sm => sm = 100 || sm = 103)
      "TRTLLMGenFusedMoE requires SM100 or SM103 (fused_moe_trtllm_gen.py:157).".toList,
    moeGate "MARLIN".toList (fun sm => sm = 90)
      ("MarlinFusedMoE is SM90-only and additionally requires an NVFP4 " ++
        "checkpoint (fused_moe_marlin.py:73,78).").toList,
    moeGate "TRITON".toList (fun sm => sm = 90) "TritonFusedMoE is SM90-only (fused_moe_triton.py:1499).".toList]

/-- `GATED`: choices with the module that they import. -/
def gated : List (Text × Option Text × Text × Text) :=
  [("moe_config".toList, some "backend".toList, "DEEPGEMM".toList, "tensorrt_llm.deep_gemm".toList),
    ("moe_config".toList, some "backend".toList, "MEGAMOE_DEEPGEMM".toList, "tensorrt_llm.deep_gemm".toList),
    ("moe_config".toList, some "backend".toList, "WIDEEP".toList, "deep_ep".toList),
    ("cache_transceiver_config".toList, some "backend".toList, "MOONCAKE".toList, "mooncake".toList),
    ("attn_backend".toList, none, "FLASHINFER".toList, "flashinfer".toList)]

/-- The name of an option in a message. -/
def place (key : Text) (sub : Option Text) : Text := sub.elim key fun sub => key ++ '.' :: sub

def joined (texts : List Text) : Text := ", ".toList.intercalate texts

/-- `sorted`: by code points. -/
def sorted (texts : List Text) : List Text := texts.mergeSort fun a b => !b.lex a fun x y => x.toNat.blt y.toNat

/-- The options that the engine does not have. -/
def unknownOptions (fields : List Text) (doc : Doc) : List Text :=
  sorted ((doc.map Prod.fst).filter fun key => !fields.contains key)

def unknownProblem (fields : List Text) (key : Text) : Text :=
  let near := sorted (fields.filter fun field => field.take 4 = key.take 4)
  key ++ ": not an option TensorRT-LLM has".toList ++
    if near = [] then [] else " -- did you mean ".toList ++ joined near ++ "?".toList

def allowedProblems (repr : Field → Text) (doc : Doc) : List Text :=
  allowed.filterMap fun (key, values) =>
    match doc.lookup key with
    | none => none
    | some chosen =>
      if chosen ∈ values.map Field.scalar then none
      else some (key ++ "=".toList ++ repr chosen ++ " is not one of ".toList ++ joined values ++
        " (the field is typed `str`, so nothing else catches this)".toList)

def smProblems (repr : Field → Text) (sm : Option ℕ) (doc : Doc) : List Text :=
  smGated.filterMap fun gate =>
    if doc.get gate.key gate.sub ≠ some gate.want then none
    else
      let shown := place gate.key gate.sub ++ " = ".toList ++ repr (.scalar gate.want)
      match sm with
      | none => some (shown ++ (": no GPU visible here, so this was NOT checked. On the wrong hardware it fails at " ++
          "construction. ").toList ++ gate.why)
      | some sm =>
        if gate.runs sm then none else some (shown ++ " on SM".toList ++ Nat.toDigits 10 sm ++ ": ".toList ++ gate.why)

def moduleProblems (importable : Text → Bool) (doc : Doc) : List Text :=
  gated.filterMap fun (key, sub, want, module) =>
    if doc.get key sub ≠ some want ∨ importable module then none
    else some (place key sub ++ "=".toList ++ want ++ " needs the `".toList ++ module ++
      "` module, which is not importable here".toList)

/-- Every reason for which the engine would not do what a file says. -/
def check (fields : List Text) (construct : Doc → List Text) (repr : Field → Text) (sm : Option ℕ)
    (importable : Text → Bool) (doc : Doc) : List Text :=
  (unknownOptions fields doc).map (unknownProblem fields) ++
    (let known := doc.filter fun option => fields.contains option.1
      if known = [] then [] else construct known) ++
    allowedProblems repr doc ++ smProblems repr sm doc ++ moduleProblems importable doc

/-! ### The check of the configuration -/

/-- `Speculation::graph_batch_for`, as far as it does not overflow. -/
def graphBatchFor (draftTokens cap : UInt32) : ℕ := cap.toNat * (1 + draftTokens.toNat)

end TrtLlm.Launch
