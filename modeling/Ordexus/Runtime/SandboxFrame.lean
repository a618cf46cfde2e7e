import Ordexus.Runtime.InstructionEffects

/-!
# The sandbox around any program

`ExecuteInstructionSandbox` for an arbitrary program. `ValidateInstructionWrites` looks at the
accounts that are there afterwards: it does not see an account that the program has deleted, and
an account that the program has created must be writable in the transaction but need not be one
of the instruction.
-/

namespace Ordexus

open Checked

section

variable (execute : ProgramHandler) (context : InstructionContext) (accounts : AccountMap)

end

variable {execute : ProgramHandler} {context : InstructionContext} {accounts next : AccountMap}
  {address : PublicKey} {before after : Account}

end Ordexus
