import TextureLift.Instruction.Field

/-!
# The sample instruction

A texture sample is one 64-bit word: a five-bit operation code and 23 fields. Source 0 is the
coordinate, source 1 names the sampler and source 2 carries the level-of-detail operand.
`Sample.encode` writes the fields, each cut to its width, and `Sample.decode?` reads them back from
words with the right operation code. Bit 28 is in no field.
-/

namespace TextureLift

/-- Condition under which an instruction takes effect. -/
inductive Predicate where
  | always
  | p0
  | p1
  | p2
  | p3
  | notP0
  | notP1
  | pn
  deriving DecidableEq, Repr

namespace Predicate

/-- The predicate, by its three-bit selector. -/
def ofSelector (selector : UInt8) : Predicate :=
  match (selector &&& 7).toNat with
  | 0 => always
  | 1 => p0
  | 2 => p1
  | 3 => p2
  | 4 => p3
  | 5 => notP0
  | 6 => notP1
  | _ => pn

/-- The text before the mnemonic in a listing. -/
def text : Predicate → String
  | always => ""
  | p0 => "p0 "
  | p1 => "p1 "
  | p2 => "p2 "
  | p3 => "p3 "
  | notP0 => "!p0 "
  | notP1 => "!p1 "
  | pn => "pN "

end Predicate

/-- How the level of detail is chosen. -/
inductive LodMode where
  | implicit
  | replace
  | bias
  | gradient
  deriving DecidableEq, Repr

/-- The level-of-detail mode, by its two-bit selector. -/
def LodMode.ofSelector (selector : UInt8) : LodMode :=
  match (selector &&& 3).toNat with
  | 0 => implicit
  | 1 => replace
  | 2 => bias
  | _ => gradient

/-- The fields of a sample instruction. -/
structure Sample where
  predicate : UInt8 := 0
  skipInvalid : Bool := false
  noSchedule : Bool := false
  syncStart : Bool := false
  minPack : Bool := false
  coordExtended : Bool := false
  samplerExtended : Bool := false
  lodExtended : Bool := false
  destFormat : UInt8 := 0
  maskCount : UInt8 := 0
  /-- Number of coordinates, less one. -/
  dimension : UInt8 := 0
  lodMode : UInt8 := 0
  /-- Whether the destination is the primary attribute bank. -/
  destPrimAttr : Bool := false
  storeMode : UInt8 := 0
  coordEncoding : UInt8 := 0
  coordBank : UInt8 := 0
  dependency : UInt8 := 0
  samplerBank : UInt8 := 0
  lodBank : UInt8 := 0
  destIndex : UInt8 := 0
  coordIndex : UInt8 := 0
  samplerIndex : UInt8 := 0
  lodIndex : UInt8 := 0
  deriving DecidableEq, Repr

namespace Sample

/-! ## Layout -/

namespace Layout

def operation : Field := ⟨59, 5⟩
def predicate : Field := ⟨56, 3⟩
def skipInvalid : Field := .flag 55
def noSchedule : Field := .flag 54
def syncStart : Field := .flag 53
def minPack : Field := .flag 52
def coordExtended : Field := .flag 51
def samplerExtended : Field := .flag 50
def lodExtended : Field := .flag 49
def destFormat : Field := ⟨47, 2⟩
def maskCount : Field := ⟨45, 2⟩
def dimension : Field := ⟨43, 2⟩
def lodMode : Field := ⟨41, 2⟩
def destPrimAttr : Field := .flag 40
def storeMode : Field := ⟨38, 2⟩
def coordEncoding : Field := ⟨36, 2⟩
def coordBank : Field := ⟨35, 1⟩
def dependency : Field := ⟨33, 2⟩
def samplerBank : Field := ⟨31, 2⟩
def lodBank : Field := ⟨29, 2⟩
def destIndex : Field := ⟨21, 7⟩
def coordIndex : Field := ⟨14, 7⟩
def samplerIndex : Field := ⟨7, 7⟩
def lodIndex : Field := ⟨0, 7⟩

end Layout

/-! ## Words -/

/-- Operation code of sample instructions. -/
def operation : UInt8 := 0b11100

/-- Every field of the word with its value, from the top down. -/
def fields (s : Sample) : List (Field × UInt8) :=
  [(Layout.operation, operation),
   (Layout.predicate, s.predicate),
   (Layout.skipInvalid, s.skipInvalid.toUInt8),
   (Layout.noSchedule, s.noSchedule.toUInt8),
   (Layout.syncStart, s.syncStart.toUInt8),
   (Layout.minPack, s.minPack.toUInt8),
   (Layout.coordExtended, s.coordExtended.toUInt8),
   (Layout.samplerExtended, s.samplerExtended.toUInt8),
   (Layout.lodExtended, s.lodExtended.toUInt8),
   (Layout.destFormat, s.destFormat),
   (Layout.maskCount, s.maskCount),
   (Layout.dimension, s.dimension),
   (Layout.lodMode, s.lodMode),
   (Layout.destPrimAttr, s.destPrimAttr.toUInt8),
   (Layout.storeMode, s.storeMode),
   (Layout.coordEncoding, s.coordEncoding),
   (Layout.coordBank, s.coordBank),
   (Layout.dependency, s.dependency),
   (Layout.samplerBank, s.samplerBank),
   (Layout.lodBank, s.lodBank),
   (Layout.destIndex, s.destIndex),
   (Layout.coordIndex, s.coordIndex),
   (Layout.samplerIndex, s.samplerIndex),
   (Layout.lodIndex, s.lodIndex)]

/-- The instruction word. Values are cut to the widths of their fields. -/
def encode (s : Sample) : UInt64 :=
  Field.assemble s.fields

/-- The fields of a word, if it is a sample instruction. -/
def decode? (word : UInt64) : Option Sample :=
  if Layout.operation.get word = operation then
    some {
      predicate := Layout.predicate.get word
      skipInvalid := Layout.skipInvalid.test word
      noSchedule := Layout.noSchedule.test word
      syncStart := Layout.syncStart.test word
      minPack := Layout.minPack.test word
      coordExtended := Layout.coordExtended.test word
      samplerExtended := Layout.samplerExtended.test word
      lodExtended := Layout.lodExtended.test word
      destFormat := Layout.destFormat.get word
      maskCount := Layout.maskCount.get word
      dimension := Layout.dimension.get word
      lodMode := Layout.lodMode.get word
      destPrimAttr := Layout.destPrimAttr.test word
      storeMode := Layout.storeMode.get word
      coordEncoding := Layout.coordEncoding.get word
      coordBank := Layout.coordBank.get word
      dependency := Layout.dependency.get word
      samplerBank := Layout.samplerBank.get word
      lodBank := Layout.lodBank.get word
      destIndex := Layout.destIndex.get word
      coordIndex := Layout.coordIndex.get word
      samplerIndex := Layout.samplerIndex.get word
      lodIndex := Layout.lodIndex.get word }
  else none

end Sample

end TextureLift
