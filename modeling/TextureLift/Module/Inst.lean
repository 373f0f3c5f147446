import TextureLift.Module.Opcode

/-!
# Module instructions

An instruction has an opcode, perhaps a result type and a result, and operand words, which are ids or
literals. Its binary form starts with a word that holds the number of words and the opcode.
-/

namespace TextureLift

/-- Id of a definition in a module. -/
structure Ref where
  word : UInt32
  deriving DecidableEq, Repr, Hashable

namespace Ref

/-- The id that no definition has. -/
def none : Ref := ⟨0⟩

def text (r : Ref) : String :=
  "%" ++ r.word.toNat.repr

end Ref

/-- One instruction of a module. -/
structure Inst where
  opcode : Opcode
  resultType : Option Ref := none
  result : Option Ref := none
  operands : List UInt32 := []
  deriving DecidableEq, Repr

namespace Inst

/-- The words between the first word and the operands. -/
def resultWords (i : Inst) : List UInt32 :=
  (i.resultType.toList ++ i.result.toList).map Ref.word

def wordCount (i : Inst) : Nat :=
  1 + i.resultWords.length + i.operands.length

/-- The operand word at a position, taken as an id. -/
def operandRef? (i : Inst) (position : Nat) : Option Ref :=
  i.operands[position]?.map Ref.mk

/-- The binary form. The first word has 16 bits for the number of words; higher bits are lost. -/
def words (i : Inst) : List UInt32 :=
  (UInt32.ofNat i.wordCount <<< 16 ||| i.opcode.number) :: (i.resultWords ++ i.operands)

end Inst

end TextureLift
