import TextureLift.Shader.Lift

/-!
# The lifter and its cache

A lifter keeps the modules of the programs that it has lifted, under keys that a function of the
program gives. Lifting with a cache is looking up, lowering what was not found, and inserting; the
cache never changes an answer if different programs have different keys.
-/

namespace TextureLift

/-- Modules by key. -/
structure Cache (κ : Type) where
  entries : List (κ × LiftedModule) := []

namespace Cache

variable {κ : Type} [DecidableEq κ]

def lookup (c : Cache κ) (key : κ) : Option LiftedModule :=
  c.entries.lookup key

/-- Adds a module, in place of one with the same key. -/
def insert (c : Cache κ) (key : κ) (m : LiftedModule) : Cache κ :=
  ⟨(key, m) :: c.entries.filter fun entry => entry.1 ≠ key⟩

def size (c : Cache κ) : Nat :=
  c.entries.length

end Cache

/-- A lifter whose cache has keys of type `κ`. -/
structure Lifter (κ : Type) where
  settings : LiftSettings := {}
  cache : Cache κ := {}

namespace Lifter

variable {κ : Type} [DecidableEq κ]

/-- The module that the cache has for a key, if the cache is in use. -/
def known? (l : Lifter κ) (key : κ) : Option LiftedModule :=
  if l.settings.cacheModules then l.cache.lookup key else none

/-- Keeps a module, if the cache is in use. -/
def remember (l : Lifter κ) (key : κ) (m : LiftedModule) : Lifter κ :=
  if l.settings.cacheModules then { l with cache := l.cache.insert key m } else l

/-- Lifts a program. Programs with a defect are refused, known ones come from the cache. -/
def lift (key : Program → κ) (l : Lifter κ) (p : Program) :
    Except Fault (Except Failure LiftedModule × Lifter κ) := do
  match p.defect? with
  | some defect => return (.error (.ofDefect defect), l)
  | none =>
    match l.known? (key p) with
    | some m => return (.ok m, l)
    | none =>
      match ← lower l.settings p with
      | .ok m => return (.ok m, l.remember (key p) m)
      | .error failure => return (.error failure, l)

/-- Forgets all modules. -/
def clear (l : Lifter κ) : Lifter κ :=
  { l with cache := {} }

end Lifter

end TextureLift
