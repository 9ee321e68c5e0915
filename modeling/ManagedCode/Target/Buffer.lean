import ManagedCode.Target.Codec

/-!
# Code buffers

Instructions are gathered in a buffer before their place in memory is known. Operands left open
are filled in there.
-/

namespace ManagedCode.Target

/-- The bytes of the instructions emitted so far. -/
structure Buffer where
  bytes : ByteArray
  deriving Inhabited

namespace Buffer

def empty : Buffer := ⟨ByteArray.empty⟩

def position (b : Buffer) : Nat := b.bytes.size

def emit (b : Buffer) (op : Op) : Buffer :=
  ⟨op.encode.foldl ByteArray.push b.bytes⟩

def emitAll (b : Buffer) (ops : List Op) : Buffer :=
  ops.foldl emit b

/-- Overwrites bytes from an offset on, if the buffer has that many there. -/
def patch? (b : Buffer) (offset : Nat) (data : List UInt8) : Option Buffer :=
  if offset + data.length ≤ b.bytes.size then
    some ⟨data.zipIdx.foldl (fun bytes (value, i) => bytes.set! (offset + i) value) b.bytes⟩
  else none

end Buffer

end ManagedCode.Target
