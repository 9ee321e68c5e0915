import ManagedCode.Machine.Basic

/-!
# Heap access by width
-/

namespace ManagedCode.Machine

open Memory (Region)
open Target (Width)

/-- Fills a slot from the bytes of a heap value: a byte is zero-extended, four bytes are
sign-extended. -/
def extend (width : Width) (word : UInt64) : UInt64 :=
  match width with
  | .byte | .qword => word
  | .dword => word.toUInt32.toInt32.toInt64.toUInt64

def loadFrom? (r : Region) (address : UInt64) (width : Width) : Option UInt64 :=
  (r.readWord? address width.bytes).map (extend width)

def storeTo (r : Region) (address : UInt64) (width : Width) (value : UInt64) : Region :=
  r.writeWord address width.bytes value

end ManagedCode.Machine
