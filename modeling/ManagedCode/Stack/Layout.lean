/-!
# Frames on the stack

Every compiled function lays out its frame the same way around the base address, in slots of
eight bytes. Above the base lie the saved base of the caller, the return address and the
arguments that the caller pushed, the last one lowest; below it lie the function's own copies of
the arguments, its locals and its operands, each growing downward. Only the numbers of arguments
and locals differ between functions.
-/

namespace ManagedCode.Stack

def slotSize : UInt64 := 8

/-- The distance from the base of the slot with `slots` others above it in the frame. -/
def below (slots : Nat) : Int32 :=
  Int32.ofInt (-(8 * (1 + slots : Int)))

def argumentOffset (index : Nat) : Int32 := below index

def localOffset (arguments index : Nat) : Int32 := below (arguments + index)

/-- The distance of an operand from the base; operand zero is the deepest. -/
def operandOffset (arguments locals index : Nat) : Int32 := below (arguments + locals + index)

/-- The distance of an argument that the caller pushed. -/
def callerArgumentOffset (arguments index : Nat) : Int32 :=
  Int32.ofNat (16 + 8 * (arguments - 1 - index))

/-- The address at a distance from a base. -/
def slotAddress (base : UInt64) (distance : Int32) : UInt64 :=
  base + distance.toInt64.toUInt64

end ManagedCode.Stack
