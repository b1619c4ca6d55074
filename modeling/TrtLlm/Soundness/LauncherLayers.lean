import TrtLlm.Model.Launch.Environment
import TrtLlm.ToMathlib.FirstFault

/-! # Which value of a knob the launcher uses

A variable on the command line comes before the file that the configuration emits, and that before the default in the
launcher. The concurrency is the exception: the launcher declares it before it sources the file, so the file's value is
never used.
-/

namespace TrtLlm.Launch

/-! ### Reading back what was emitted -/

namespace Env

variable {fill : Env → Text × Text → Env}

end Env

/-! ### The emitted file -/

end TrtLlm.Launch
