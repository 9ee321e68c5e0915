import ManagedCode.Heap.Arena

/-!
# The contents of objects

What an object holds as words: its fields in order, or the first elements of an array.
-/

namespace ManagedCode.Heap

open TypeSystem (TypeId TypeTable Shape Layout Field)

namespace Arena

/-- How many elements of an array are shown. -/
def shownElements : Nat := 64

/-- The address and width of each value in an object. -/
def places (a : Arena) (types : TypeTable) (o : HeapObject) : List (UInt64 × Nat) :=
  match types.shape? o.type with
  | some (.object (some layout)) =>
      layout.fields.map fun field => (o.address + UInt64.ofNat field.offset, field.size)
  | some (.array element) =>
      let width := types.size element
      let length := ((a.region.read32? o.address).getD 0).toNat
      (List.range (min length shownElements)).map fun i =>
        (o.address + UInt64.ofNat (lengthSize + i * width), width)
  | _ => []

/-- The values in an object, zero-extended; none stands for one outside the heap. -/
def contents (a : Arena) (types : TypeTable) (o : HeapObject) : List (Option UInt64) :=
  (a.places types o).map fun (address, width) => a.region.readWord? address width

end Arena

end ManagedCode.Heap
