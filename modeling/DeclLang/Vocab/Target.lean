/-!
# Target: the machine parameters that type layout depends on
-/

namespace DeclLang

/-- The machine that types are laid out for. -/
structure Target where
  /-- Bytes in a machine pointer. -/
  pointerSize : Nat
deriving DecidableEq, Repr

namespace Target

def host32 : Target := ⟨4⟩

def host64 : Target := ⟨8⟩

/-- The target when none is chosen. -/
def standard : Target := host64

/-- Only 32-bit and 64-bit pointers can be laid out. -/
def isSupported (t : Target) : Bool :=
  t.pointerSize == 4 || t.pointerSize == 8

theorem isSupported_iff {t : Target} :
    t.isSupported = true ↔ t.pointerSize = 4 ∨ t.pointerSize = 8 := by
  simp [isSupported]

end Target

end DeclLang
