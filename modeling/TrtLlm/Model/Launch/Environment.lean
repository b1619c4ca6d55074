import Mathlib.Logic.Function.Basic
import TrtLlm.Model.Raw.Config

/-! # From the configuration to the launcher's variables

`Config::to_env` of `crates/core/src/config.rs` and the knobs of `scripts/stage-d-235b-disagg.sbatch` that source what it
emits. Of the shell, `${X:-word}`, `${X:=word}` and the sourcing of a file of such assignments are modelled; a line of any
other form, or a default word that the shell would expand further, is not interpreted.
-/

namespace TrtLlm.Launch

abbrev Text := List Char

/-! ### Emission -/

/-- The configuration with the fields that only the launcher reads. -/
structure LaunchConfig where
  config : Raw.Config := {}
  kvDtype : String := "fp8"
  maxTokensInBuffer : UInt32 := 4096
  xferBackend : String := "UCX"
  receiveParallel : Bool := true
  expertParallel : UInt32 := 1
  chunkedPrefill : Bool := false
  hostDispatchSpin : Bool := false
  blockReuse : Bool := false
  specModel : String := "/work/u4063814/hf_cache/eagle3/qwen3-235b-instruct-2507-specforge"
deriving DecidableEq

def number (n : UInt32) : Text := Nat.toDigits 10 n.toNat

def flag (value : Bool) : Text := if value then ['1'] else ['0']

namespace LaunchConfig

end LaunchConfig

/-- The variables that are set. -/
abbrev Env := Text → Option Text

namespace Env

/-- `$X`. -/
def value (env : Env) (name : Text) : Text := (env name).getD []

def set (env : Env) (name word : Text) : Env := Function.update env name (some word)

/-- `${X:-word}`: an empty variable counts as an unset one. -/
def orDefault (env : Env) (name word : Text) : Text := if env.value name = [] then word else env.value name

end Env

def isNameChar (c : Char) : Bool := c.isAlphanum || c = '_'

/-- A character that stands for itself in a default word within double quotes. -/
def isPlain (c : Char) : Bool := c ∉ ['"', '$', '\x60', '\\', '\x7d', '\n']

/-- The name, the variable and the default of `X="${Y:-word}"`. -/
def parseLine (line : Text) : Option (Text × Text × Text) :=
  let name := line.takeWhile isNameChar
  match line.drop name.length with
  | '=' :: '"' :: '$' :: '\x7b' :: rest =>
    let source := rest.takeWhile isNameChar
    match rest.drop source.length with
    | ':' :: '-' :: rest =>
      let word := rest.takeWhile isPlain
      if name ≠ [] ∧ source ≠ [] ∧ rest.drop word.length = ['\x7d', '"'] then some (name, source, word) else none
    | _ => none
  | _ => none

/-- Run a line of a sourced file. -/
def sourceLine (env : Env) (line : Text) : Option Env :=
  match line with
  | [] => some env
  | '#' :: _ => some env
  | line => (parseLine line).map fun (name, source, word) => env.set name (env.orDefault source word)

/-- `. file`. -/
def source (text : Text) (env : Env) : Option Env := (text.splitOn '\n').foldlM sourceLine env

/-! ### The launcher's knobs -/

end TrtLlm.Launch
