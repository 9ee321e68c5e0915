import ManagedCode.Heap.Header
import ManagedCode.Memory.Page
import ManagedCode.TypeSystem.Table

/-!
# The object arena

Objects are allocated one after the other and never move. `Arena.walk` steps over the
allocations from the first to the last and lists the live objects; it reads the size of an
object from its type and stored length, and that of a tombstone from its first data word. Every
step covers at least nine bytes (`minSize_le_of_cell`), whatever the bytes are, so the walk ends.
-/

namespace ManagedCode.Heap

open Memory (Region MemoryError)
open TypeSystem (TypeId TypeTable Shape Layout)

inductive GcError where
  /-- No live object has its data at this address. -/
  | invalidReference (address : UInt64)
  /-- The bytes at this address are no object. -/
  | corruptHeap (address : UInt64)
  deriving DecidableEq, Repr

namespace GcError

def kind : GcError → String
  | invalidReference _ => "InvalidReference"
  | corruptHeap _ => "CorruptHeap"

def message : GcError → String
  | invalidReference address =>
      s!"reference {Text.hexWord address} does not point at a live heap object"
  | corruptHeap address => s!"heap is corrupt at {Text.hexWord address}"

end GcError

def minSize : Nat := headerSize + minDataSize

/-- Bytes of an object with its header, unless it would be too large. -/
def totalSize? (dataSize : Nat) : Option Nat :=
  let total := headerSize + max dataSize minDataSize
  if total ≤ maxObjectSize then some total else none

theorem minSize_le_of_totalSize? {dataSize total : Nat} (h : totalSize? dataSize = some total) :
    minSize ≤ total := by
  simp only [totalSize?] at h
  split at h
  · cases h
    exact Nat.add_le_add_left (Nat.le_max_right _ _) _
  · cases h

def arrayDataSize (elementSize length : Nat) : Nat :=
  elementSize * length + lengthSize

def heapBase : UInt64 := 0x40000000

/-- A region with the number of bytes handed out from its start. -/
structure Arena where
  region : Region
  used : Nat
  deriving Inhabited

/-- A live object as a walk finds it. -/
structure HeapObject where
  /-- The address of the data. -/
  address : UInt64
  type : TypeId
  info : GcInfo
  /-- Bytes of the allocation with its header. -/
  size : Nat

namespace Arena

def commit (size : Nat) : Except MemoryError Arena :=
  (Region.commit heapBase size).map (⟨·, 0⟩)

def base (a : Arena) : UInt64 := a.region.base

def capacity (a : Arena) : Nat := a.region.size

def next (a : Arena) : UInt64 := a.base + UInt64.ofNat a.used

def available (a : Arena) : Nat := a.capacity - a.used

/-- Whether an address could be that of an object's data. -/
def contains (a : Arena) (address : UInt64) : Bool :=
  a.base + 5 ≤ address && address < a.next

def header? (a : Arena) (data : UInt64) : Option Header :=
  Header.read? a.region data

def setHeader (a : Arena) (data : UInt64) (h : Header) : Arena :=
  { a with region := h.write a.region data }

def setInfo (a : Arena) (data : UInt64) (info : GcInfo) : Arena :=
  { a with region := a.region.writeWord (data - 1) 1 info.byte.toUInt64 }

/-- The bytes that an object with so much data would take, if they are free. -/
def fit? (a : Arena) (dataSize : Nat) : Option Nat :=
  (totalSize? dataSize).filter (· ≤ a.available)

def nextData (a : Arena) : UInt64 := a.next + UInt64.ofNat headerSize

/-- Hands out zeroed bytes. -/
def reserve (a : Arena) (total : Nat) : Arena :=
  { region := a.region.clear a.next total, used := a.used + total }

def reset (a : Arena) : Arena :=
  { region := a.region.clear a.base a.used, used := 0 }

/-- Bytes of the live object of a type at an address. -/
def objectSize? (a : Arena) (types : TypeTable) (type : TypeId) (data : UInt64) : Option Nat :=
  match types.shape? type with
  | some (.object (some layout)) => totalSize? (max layout.size minDataSize)
  | some (.array element) => do
      let length ← a.region.read32? data
      if length < 0x80000000 then totalSize? (arrayDataSize (types.size element) length.toNat)
      else none
  | _ => none

/-- Whether a tombstone can be put over an object of the given size. -/
def canBury (a : Arena) (data : UInt64) (total : Nat) : Bool :=
  a.region.contains data (total - headerSize)

def bury (a : Arena) (data : UInt64) (total : Nat) : Arena :=
  let cleared := a.region.clear data (total - headerSize)
  let sized := cleared.writeWord data 4 (UInt64.ofNat total)
  { a with region := Header.tombstone.write sized data }

/-- The allocation at an offset: its size, and the object if it is live. -/
def cell (a : Arena) (types : TypeTable) (offset : Nat) :
    Except GcError (Nat × Option HeapObject) :=
  let start := a.base + UInt64.ofNat offset
  let data := start + UInt64.ofNat headerSize
  let corrupt : GcError := .corruptHeap start
  match a.header? data with
  | none => .error corrupt
  | some header =>
      if header.isTombstone then
        match a.region.read32? data with
        | some size => if minSize ≤ size.toNat then .ok (size.toNat, none) else .error corrupt
        | none => .error corrupt
      else
        match TypeId.ofRaw? header.type with
        | none => .error corrupt
        | some type =>
            match a.objectSize? types type data with
            | some size => .ok (size, some ⟨data, type, header.info, size⟩)
            | none => .error corrupt

theorem minSize_le_of_objectSize? {a : Arena} {types : TypeTable} {type : TypeId}
    {data : UInt64} {size : Nat} (h : a.objectSize? types type data = some size) :
    minSize ≤ size := by
  unfold objectSize? at h
  split at h
  · exact minSize_le_of_totalSize? h
  · cases read : a.region.read32? data with
    | none => simp [read] at h
    | some length =>
        simp only [read, Option.bind_eq_bind, Option.bind_some] at h
        split at h
        · exact minSize_le_of_totalSize? h
        · cases h
  · cases h

/-- An allocation covers at least nine bytes. -/
theorem minSize_le_of_cell {a : Arena} {types : TypeTable} {offset size : Nat}
    {object : Option HeapObject} (h : a.cell types offset = .ok (size, object)) :
    minSize ≤ size := by
  simp only [cell] at h
  split at h
  · cases h
  · split at h
    · split at h
      · split at h
        · rename_i enough
          cases h
          exact enough
        · cases h
      · cases h
    · split at h
      · cases h
      · split at h
        · rename_i sized
          cases h
          exact minSize_le_of_objectSize? sized
        · cases h

set_option linter.unusedVariables false in
/-- The live objects from an offset on after those found before, and why the walk stopped if it
did not reach the end. -/
def walkFrom (a : Arena) (types : TypeTable) (offset : Nat) (found : Array HeapObject) :
    Array HeapObject × Option GcError :=
  if offset < a.used then
    match step : a.cell types offset with
    | .error e => (found, some e)
    | .ok (size, object) =>
        walkFrom a types (offset + size) (match object with
          | some o => found.push o
          | none => found)
  else (found, none)
termination_by a.used - offset
decreasing_by
  have := minSize_le_of_cell step
  simp only [minSize, headerSize, minDataSize] at this
  omega

/-- The live objects in order of allocation, and why the walk stopped if it did not reach the
end. -/
def walk (a : Arena) (types : TypeTable) : Array HeapObject × Option GcError :=
  a.walkFrom types 0 #[]

end Arena

end ManagedCode.Heap
