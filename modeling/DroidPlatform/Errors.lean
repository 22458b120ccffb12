import Mathlib.Tactic

/-!
# Error codes

The values of `utils/Errors.h` that the modelled code returns.
-/

namespace Droid

/-- `status_t`. -/
abbrev Status := ℤ

namespace Status

/-- `OK` and `NO_ERROR`. -/
def ok : Status := 0
def einval : Status := -22
def badValue : Status := einval
def noInit : Status := -19
def ebusy : Status := -16
def noMemory : Status := -12
def nameNotFound : Status := -2
def notEnoughData : Status := -61
def badIndex : Status := -75
def badType : Status := 0x80000001 - 2 ^ 32
def fdsNotAllowed : Status := 0x80000007 - 2 ^ 32

end Status

end Droid
