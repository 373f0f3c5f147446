import TextureLift.Operand.Basic
import TextureLift.Shader.Program

/-!
# Failures

What is wrong with a program or with one of its instructions. Modes that are merely not supported are
no failures: such instructions are skipped.
-/

namespace TextureLift

/-- Why a program or an instruction could not be lifted. -/
inductive Failure where
  /-- An operand lies outside its bank or in a bank without storage. -/
  | operandLoad (bank : String) (index : UInt32)
  | instruction (position : Nat) (cause : Failure)
  | invalidProgram (detail : String)
  deriving DecidableEq, Repr, Inhabited

namespace Failure

def ofOperand (op : Operand) : Failure :=
  operandLoad op.bank.mnemonic op.index

def ofDefect (d : Defect) : Failure :=
  invalidProgram d.message

def message : Failure → String
  | operandLoad bank index => "Failed to load operand " ++ bank ++ index.toNat.repr
  | instruction position cause =>
    "Instruction " ++ position.repr ++ " failed: " ++ cause.message
  | invalidProgram detail => "Invalid program: " ++ detail

/-- The message where failures of other kinds may stand as well. -/
def shaderMessage (f : Failure) : String :=
  "Shader error: " ++ f.message

end Failure

end TextureLift
