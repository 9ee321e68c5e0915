import ManagedCode.Memory.Region

/-!
# Object headers

Five bytes stand before the data of every object: the number of its type and one byte for the
collector. A reference holds the address of the data. A dead object is overwritten by a
tombstone, which has type zero and the collector byte `0xFF`, and whose first data word is the
size of the whole allocation.
-/

namespace ManagedCode.Heap

open Memory (Region)

def headerSize : Nat := 5

/-- An object has room for at least this much data, so that a tombstone fits. -/
def minDataSize : Nat := 4

/-- Bytes of the length that an array starts with. -/
def lengthSize : Nat := 4

/-- The largest object with its header; a tombstone records the size in four bytes. -/
def maxObjectSize : Nat := 0xFFFFFFFF

/-- The collector's byte: the mark in the lowest bit and above it the number of collections
survived. -/
structure GcInfo where
  byte : UInt8
  deriving DecidableEq, Repr, Inhabited

namespace GcInfo

def fresh : GcInfo := ⟨0⟩

def isMarked (i : GcInfo) : Bool := i.byte &&& 1 != 0

def marked (i : GcInfo) : GcInfo := ⟨i.byte ||| 1⟩

def unmarked (i : GcInfo) : GcInfo := ⟨i.byte &&& 0xFE⟩

def survivalCount (i : GcInfo) : UInt8 := i.byte >>> 1

/-- Counts one more collection; the count stops at 127. -/
def survived (i : GcInfo) : GcInfo :=
  ⟨(min (i.survivalCount + 1) 127 <<< 1) ||| (i.byte &&& 1)⟩

end GcInfo

/-- The header of an object; the type is zero in tombstones only. -/
structure Header where
  type : UInt32
  info : GcInfo
  deriving DecidableEq, Repr

namespace Header

def tombstone : Header := ⟨0, ⟨0xFF⟩⟩

def isTombstone (h : Header) : Bool := h.type == 0 && h.info.byte == 0xFF

/-- The header before the data at an address. -/
def read? (r : Region) (data : UInt64) : Option Header :=
  if data < 5 then none
  else do
    let type ← r.read32? (data - 5)
    let info ← r.read8? (data - 1)
    return ⟨type, ⟨info⟩⟩

/-- Puts a header before the data at an address. -/
def write (h : Header) (r : Region) (data : UInt64) : Region :=
  (r.writeWord (data - 5) 4 h.type.toUInt64).writeWord (data - 1) 1 h.info.byte.toUInt64

end Header

end ManagedCode.Heap
