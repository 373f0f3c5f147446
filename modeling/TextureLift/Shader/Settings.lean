/-!
# Lifting settings
-/

namespace TextureLift

/-- Settings of the lifter. -/
structure LiftSettings where
  /-- Stop at the first instruction that fails, instead of dropping it. -/
  abortOnFailure : Bool := false
  /-- Slots of four components in each window of a register bank. -/
  registerSlots : UInt32 := 64
  /-- Keep the modules of programs that were lifted. -/
  cacheModules : Bool := true
  deriving DecidableEq, Repr

end TextureLift
