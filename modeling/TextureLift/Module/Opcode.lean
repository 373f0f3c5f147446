/-!
# Opcodes

The module instructions in use, with their numbers in the binary form and their names in messages.
-/

namespace TextureLift

/-- Opcode of a module instruction. -/
inductive Opcode where
  | extInstImport
  | extInst
  | memoryModel
  | entryPoint
  | executionMode
  | capability
  | typeVoid
  | typeBool
  | typeInt
  | typeFloat
  | typeVector
  | typeImage
  | typeSampledImage
  | typePointer
  | typeFunction
  | constant
  | function
  | functionEnd
  | var
  | load
  | store
  | decorate
  | vectorExtractDynamic
  | vectorShuffle
  | compositeConstruct
  | compositeExtract
  | compositeInsert
  | imageSampleImplicitLod
  | imageSampleExplicitLod
  | imageSampleProjImplicitLod
  | convertFToU
  | convertFToS
  | convertSToF
  | convertUToF
  | bitcast
  | fMul
  | bitFieldInsert
  | bitFieldSExtract
  | bitFieldUExtract
  | label
  | ret
  deriving DecidableEq, Repr

namespace Opcode

def all : List Opcode :=
  [extInstImport, extInst, memoryModel, entryPoint, executionMode, capability, typeVoid,
   typeBool, typeInt, typeFloat, typeVector, typeImage, typeSampledImage, typePointer,
   typeFunction, constant, function, functionEnd, var, load, store, decorate,
   vectorExtractDynamic, vectorShuffle, compositeConstruct, compositeExtract, compositeInsert,
   imageSampleImplicitLod, imageSampleExplicitLod, imageSampleProjImplicitLod, convertFToU,
   convertFToS, convertSToF, convertUToF, bitcast, fMul, bitFieldInsert, bitFieldSExtract,
   bitFieldUExtract, label, ret]

/-- The number in the low half of an instruction's first word. -/
def number : Opcode → UInt32
  | extInstImport => 11
  | extInst => 12
  | memoryModel => 14
  | entryPoint => 15
  | executionMode => 16
  | capability => 17
  | typeVoid => 19
  | typeBool => 20
  | typeInt => 21
  | typeFloat => 22
  | typeVector => 23
  | typeImage => 25
  | typeSampledImage => 27
  | typePointer => 32
  | typeFunction => 33
  | constant => 43
  | function => 54
  | functionEnd => 56
  | var => 59
  | load => 61
  | store => 62
  | decorate => 71
  | vectorExtractDynamic => 77
  | vectorShuffle => 79
  | compositeConstruct => 80
  | compositeExtract => 81
  | compositeInsert => 82
  | imageSampleImplicitLod => 87
  | imageSampleExplicitLod => 88
  | imageSampleProjImplicitLod => 91
  | convertFToU => 109
  | convertFToS => 110
  | convertSToF => 111
  | convertUToF => 112
  | bitcast => 124
  | fMul => 133
  | bitFieldInsert => 201
  | bitFieldSExtract => 202
  | bitFieldUExtract => 203
  | label => 248
  | ret => 253

def name : Opcode → String
  | extInstImport => "ExtInstImport"
  | extInst => "ExtInst"
  | memoryModel => "MemoryModel"
  | entryPoint => "EntryPoint"
  | executionMode => "ExecutionMode"
  | capability => "Capability"
  | typeVoid => "TypeVoid"
  | typeBool => "TypeBool"
  | typeInt => "TypeInt"
  | typeFloat => "TypeFloat"
  | typeVector => "TypeVector"
  | typeImage => "TypeImage"
  | typeSampledImage => "TypeSampledImage"
  | typePointer => "TypePointer"
  | typeFunction => "TypeFunction"
  | constant => "Constant"
  | function => "Function"
  | functionEnd => "FunctionEnd"
  | var => "Variable"
  | load => "Load"
  | store => "Store"
  | decorate => "Decorate"
  | vectorExtractDynamic => "VectorExtractDynamic"
  | vectorShuffle => "VectorShuffle"
  | compositeConstruct => "CompositeConstruct"
  | compositeExtract => "CompositeExtract"
  | compositeInsert => "CompositeInsert"
  | imageSampleImplicitLod => "ImageSampleImplicitLod"
  | imageSampleExplicitLod => "ImageSampleExplicitLod"
  | imageSampleProjImplicitLod => "ImageSampleProjImplicitLod"
  | convertFToU => "ConvertFToU"
  | convertFToS => "ConvertFToS"
  | convertSToF => "ConvertSToF"
  | convertUToF => "ConvertUToF"
  | bitcast => "Bitcast"
  | fMul => "FMul"
  | bitFieldInsert => "BitFieldInsert"
  | bitFieldSExtract => "BitFieldSExtract"
  | bitFieldUExtract => "BitFieldUExtract"
  | label => "Label"
  | ret => "Return"

def ofName? (s : String) : Option Opcode :=
  all.find? (·.name == s)

/-- The instructions that ask for a texel. -/
def isImageSample : Opcode → Bool
  | imageSampleImplicitLod | imageSampleExplicitLod | imageSampleProjImplicitLod => true
  | _ => false

end Opcode

/-- Instructions of the extended set `GLSL.std.450`. -/
inductive ExtOpcode where
  | round
  | fClamp
  | packHalf2x16
  | unpackHalf2x16
  deriving DecidableEq, Repr

namespace ExtOpcode

def all : List ExtOpcode :=
  [round, fClamp, packHalf2x16, unpackHalf2x16]

def number : ExtOpcode → UInt32
  | round => 1
  | fClamp => 43
  | packHalf2x16 => 58
  | unpackHalf2x16 => 62

def name : ExtOpcode → String
  | round => "Round"
  | fClamp => "FClamp"
  | packHalf2x16 => "PackHalf2x16"
  | unpackHalf2x16 => "UnpackHalf2x16"

def ofNumber? (word : UInt32) : Option ExtOpcode :=
  all.find? (·.number == word)

def ofName? (s : String) : Option ExtOpcode :=
  all.find? (·.name == s)

end ExtOpcode

end TextureLift
