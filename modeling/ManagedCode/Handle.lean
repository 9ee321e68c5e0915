/-!
# Handles and slot tables

A slot table stores values at numbered slots and hands out handles to them. A slot that is
emptied is used again, and its generation tells the handles of its successive tenants apart:
a handle whose generation is behind looks up nothing.

* `Handle` is a slot number with a generation; `Handle.toBits` packs it into one word.
* `SlotTable` has `insert`, `remove`, `get?`, `set`, `contains` and `toList`.
-/

namespace ManagedCode

/-- A slot number and the generation of the tenant it was issued for. -/
structure Handle where
  index : UInt32
  generation : UInt32
  deriving DecidableEq, Hashable, Repr, Inhabited

namespace Handle

/-- Generation in the upper half, slot number in the lower half. -/
def toBits (h : Handle) : UInt64 :=
  (h.generation.toUInt64 <<< 32) ||| h.index.toUInt64

def ofBits (w : UInt64) : Handle :=
  ⟨w.toUInt32, (w >>> 32).toUInt32⟩

def text (h : Handle) : String :=
  s!"Handle({h.index}v{h.generation})"

end Handle

/-- A slot with the generation of its current or next tenant. -/
structure Slot (α : Type) where
  generation : UInt32
  value : Option α

/-- Values at numbered slots. `free` lists the empty slots, the one emptied last first, and
`live` counts the others. -/
structure SlotTable (α : Type) where
  slots : Array (Slot α)
  free : List UInt32
  live : Nat

namespace SlotTable

variable {α : Type}

def empty : SlotTable α :=
  ⟨#[], [], 0⟩

instance : Inhabited (SlotTable α) := ⟨empty⟩

/-- The slot that a handle names, if it is of the handle's generation. -/
def slot? (t : SlotTable α) (h : Handle) : Option (Slot α) :=
  (t.slots[h.index.toNat]?).filter (·.generation == h.generation)

def get? (t : SlotTable α) (h : Handle) : Option α :=
  (t.slot? h).bind Slot.value

def contains (t : SlotTable α) (h : Handle) : Bool :=
  (t.get? h).isSome

/-- The generation of a slot; a slot that does not exist yet starts at zero. -/
def generationAt (t : SlotTable α) (index : UInt32) : UInt32 :=
  ((t.slots[index.toNat]?).map Slot.generation).getD 0

/-- Stores a value in the slot emptied last, or in a new one. -/
def insert (t : SlotTable α) (value : α) : Handle × SlotTable α :=
  match t.free with
  | index :: rest =>
      let generation := t.generationAt index
      (⟨index, generation⟩,
        { slots := t.slots.setIfInBounds index.toNat ⟨generation, some value⟩
          free := rest
          live := t.live + 1 })
  | [] =>
      (⟨UInt32.ofNat t.slots.size, 0⟩,
        { slots := t.slots.push ⟨0, some value⟩
          free := []
          live := t.live + 1 })

/-- Takes a value out and moves its slot to the next generation. -/
def remove (t : SlotTable α) (h : Handle) : Option α × SlotTable α :=
  match t.get? h with
  | some value =>
      (some value,
        { slots := t.slots.setIfInBounds h.index.toNat ⟨h.generation + 1, none⟩
          free := h.index :: t.free
          live := t.live - 1 })
  | none => (none, t)

def set (t : SlotTable α) (h : Handle) (value : α) : SlotTable α :=
  if t.contains h then
    { t with slots := t.slots.setIfInBounds h.index.toNat ⟨h.generation, some value⟩ }
  else t

/-- The live values with their handles, in slot order. -/
def toList (t : SlotTable α) : List (Handle × α) :=
  t.slots.toList.zipIdx.filterMap fun (slot, index) =>
    slot.value.map fun value => (⟨UInt32.ofNat index, slot.generation⟩, value)

end SlotTable

end ManagedCode
