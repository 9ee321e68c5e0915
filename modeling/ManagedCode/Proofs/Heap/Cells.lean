import ManagedCode.Heap.Collector
import ManagedCode.Proofs.Region
import ManagedCode.Proofs.TypeTable
import Mathlib.Data.List.Basic

/-!
# The cells of an arena

The used part of an arena is a row of cells, each an object or a tombstone. `Arena.Tiled` says so
for a list of cells; what the collector reads of a cell are nine bytes (`cell_eq`).

* `Tiled.walk`: the walk over a tiled arena reaches the end and finds the live objects in order.
* `Tiled.cell_mem`, `Tiled.pairwise`: every cell lies inside the used part, apart from the others.
* `slots`, `references`: where a live object holds references, and the ones it holds.
  `slot_inside` says that these places lie in the object's data.
-/

namespace ManagedCode.Heap

open Memory (Region)
open TypeSystem (TypeId TypeTable Shape Layout Field)

/-! ## Definitions -/

deriving instance DecidableEq for HeapObject

/-- An allocation: its offset and size, and the object in it if that is live. -/
structure Cell where
  offset : Nat
  size : Nat
  object : Option HeapObject

def objectsOf (cells : List Cell) : List HeapObject :=
  cells.filterMap Cell.object

namespace Arena

variable {a : Arena} {offset size : Nat} {types : TypeTable} {cells : List Cell} {x : HeapObject}
  {c : Cell}

/-- The arena has addresses for all its bytes and has handed out no more than these. -/
structure Placed (a : Arena) : Prop where
  below : a.region.base.toNat + a.region.size < 2 ^ 64
  used_le : a.used ≤ a.region.size

/-- The used part from an offset on is exactly these cells. -/
def Tiled (a : Arena) (types : TypeTable) : Nat → List Cell → Prop
  | offset, [] => offset = a.used
  | offset, c :: rest =>
    c.offset = offset ∧ a.cell types offset = .ok (c.size, c.object) ∧
      Tiled a types (offset + c.size) rest

instance (a : Arena) (types : TypeTable) :
    (offset : Nat) → (cells : List Cell) → Decidable (a.Tiled types offset cells)
  | offset, [] => inferInstanceAs (Decidable (offset = a.used))
  | offset, c :: rest =>
    have := instDecidableTiled a types (offset + c.size) rest
    inferInstanceAs (Decidable (c.offset = offset ∧
      a.cell types offset = .ok (c.size, c.object) ∧ a.Tiled types (offset + c.size) rest))

def dataAt (a : Arena) (offset : Nat) : UInt64 :=
  a.base + UInt64.ofNat offset + UInt64.ofNat headerSize

def firstWord (a : Arena) (offset : Nat) : UInt32 :=
  (a.region.wordAt (offset + headerSize) 4).toUInt32

def headerAt (a : Arena) (offset : Nat) : Header :=
  ⟨(a.region.wordAt offset 4).toUInt32, ⟨a.region.byte (offset + 4)⟩⟩

/-- Bytes of an object of a type whose data starts with the given word. -/
def sizeFrom (types : TypeTable) (type : TypeId) (first : UInt32) : Option Nat :=
  match types.shape? type with
  | some (.object (some layout)) => totalSize? (max layout.size minDataSize)
  | some (.array element) =>
    if first < 0x80000000 then totalSize? (arrayDataSize (types.size element) first.toNat)
    else none
  | _ => none

variable {type : TypeId} {first : UInt32} {found : Nat × Option HeapObject} {s : UInt64 × TypeId}

theorem sizeFrom_cases (sized : sizeFrom types type first = some size) :
    (∃ layout, types.layout? type = some layout ∧ types.shape? type = some (.object (some layout)) ∧
        totalSize? (max layout.size minDataSize) = some size) ∨
      ∃ element, types.element? type = some element ∧ types.shape? type = some (.array element) ∧
        first < 0x80000000 ∧
        totalSize? (arrayDataSize (types.size element) first.toNat) = some size := by
  unfold sizeFrom at sized
  split at sized
  · rename_i layout known
    exact .inl ⟨layout, by simp [TypeTable.layout?, known, Shape.layout?], known, sized⟩
  · rename_i element known
    split at sized
    · rename_i small
      exact .inr ⟨element, by simp [TypeTable.element?, known, Shape.element?], known, small, sized⟩
    · cases sized
  · cases sized

/-- The cell that a header and the first data word stand for. -/
def cellFrom (types : TypeTable) (data : UInt64) (header : Header) (first : UInt32) :
    Option (Nat × Option HeapObject) :=
  if header.isTombstone then
    if minSize ≤ first.toNat then some (first.toNat, none) else none
  else
    (TypeId.ofRaw? header.type).bind fun type =>
      (sizeFrom types type first).map fun size => (size, some ⟨data, type, header.info, size⟩)

def lengthAt (a : Arena) (data : UInt64) : Nat :=
  ((a.region.read32? data).getD 0).toNat

/-- Where an object holds references, each with the type of what it refers to. -/
def slots (a : Arena) (types : TypeTable) (type : TypeId) (data : UInt64) :
    List (UInt64 × TypeId) :=
  match types.shape? type with
  | some (.object (some layout)) =>
    layout.references.map fun f => (data + UInt64.ofNat f.offset, f.type)
  | some (.array element) =>
    if types.isReference element then
      (List.range (a.lengthAt data)).map fun i =>
        (data + UInt64.ofNat (lengthSize + 8 * i), element)
    else []
  | _ => []

/-- The references that an object holds, in order and without the null ones. -/
def references (a : Arena) (types : TypeTable) (x : HeapObject) : List UInt64 :=
  ((a.slots types x.type x.address).filterMap fun s => a.region.read64? s.1).filter (· ≠ 0)

theorem Placed.congr {b : Arena} (placed : a.Placed) (base : b.region.base = a.region.base)
    (size : b.region.size = a.region.size) (used : b.used = a.used) : b.Placed :=
  ⟨by rw [base, size]; exact placed.below, by rw [used, size]; exact placed.used_le⟩

/-! ## What is read of a cell -/

theorem dataAt_congr {b : Arena} (base : b.region.base = a.region.base) (offset : Nat) :
    b.dataAt offset = a.dataAt offset := by
  rw [dataAt, dataAt, Arena.base, Arena.base, base]

section Header

variable (placed : a.Placed) (inside : offset + headerSize ≤ a.region.size)

include placed inside

theorem toNat_dataAt : (a.dataAt offset).toNat = a.region.base.toNat + offset + headerSize := by
  have below := placed.below
  simp only [dataAt, base, headerSize] at *
  rw [UInt64.toNat_add, UInt64.toNat_add, UInt64.toNat_ofNat', UInt64.toNat_ofNat']
  omega

theorem toNat_dataAt_sub (k : UInt64) (small : k.toNat ≤ headerSize) :
    (a.dataAt offset - k).toNat = a.region.base.toNat + offset + headerSize - k.toNat := by
  have place := toNat_dataAt placed inside
  rw [UInt64.toNat_sub_of_le, place]
  rw [UInt64.le_iff_toNat_le, place]
  omega

/-- Where the words of a cell stand. -/
theorem offset?_type : a.region.offset? (a.dataAt offset - 5) 4 = some offset := by
  apply Region.offset?_of_inside
  · rw [toNat_dataAt_sub placed inside 5 (by decide)]
    simp only [headerSize, UInt64.reduceToNat]
    omega
  · simp only [headerSize] at inside
    omega

theorem offset?_info : a.region.offset? (a.dataAt offset - 1) 1 = some (offset + 4) := by
  apply Region.offset?_of_inside
  · rw [toNat_dataAt_sub placed inside 1 (by decide)]
    simp only [headerSize, UInt64.reduceToNat]
    omega
  · simp only [headerSize] at inside
    omega

end Header

theorem offset?_data (placed : a.Placed) {len : Nat}
    (inside : offset + headerSize + len ≤ a.region.size) :
    a.region.offset? (a.dataAt offset) len = some (offset + headerSize) := by
  apply Region.offset?_of_inside
  · rw [toNat_dataAt placed (by omega)]
    omega
  · omega

theorem header?_dataAt (placed : a.Placed) (inside : offset + headerSize ≤ a.region.size) :
    a.header? (a.dataAt offset) = some (a.headerAt offset) := by
  have high : ¬ a.dataAt offset < 5 := by
    rw [UInt64.lt_iff_toNat_lt, toNat_dataAt placed inside]
    simp only [headerSize, UInt64.reduceToNat]
    omega
  have type : a.region.read32? (a.dataAt offset - 5)
      = some (a.region.wordAt offset 4).toUInt32 := by
    rw [Region.read32?, Region.readWord?_of_offset? (offset?_type placed inside)]
    rfl
  have info : a.region.read8? (a.dataAt offset - 1) = some (a.region.byte (offset + 4)) := by
    rw [Region.read8?, Region.readWord?_of_offset? (offset?_info placed inside), Option.map_some,
      Region.wordAt_one]
  simp [header?, Header.read?, high, type, info, headerAt]

section

variable (placed : a.Placed) (inside : offset + minSize ≤ a.region.size)

include placed inside

theorem read32?_dataAt : a.region.read32? (a.dataAt offset) = some (a.firstWord offset) := by
  have place : a.region.offset? (a.dataAt offset) 4 = some (offset + headerSize) := by
    apply offset?_data placed
    simp only [minSize, headerSize, minDataSize] at *
    omega
  rw [Region.read32?, Region.readWord?_of_offset? place]
  rfl

theorem objectSize?_dataAt (types : TypeTable) (type : TypeId) :
    a.objectSize? types type (a.dataAt offset) = sizeFrom types type (a.firstWord offset) := by
  unfold objectSize? sizeFrom
  cases types.shape? type with
  | none => rfl
  | some shape =>
    cases shape with
    | primitive p => rfl
    | array element =>
      simp only [read32?_dataAt placed inside, Option.bind_eq_bind, Option.bind_some]
    | object layout => cases layout <;> rfl

/-- A cell is decided by its header and its first data word. -/
theorem cell_eq_ok_iff (types : TypeTable) :
    a.cell types offset = .ok found ↔
      cellFrom types (a.dataAt offset) (a.headerAt offset) (a.firstWord offset) = some found := by
  have header : a.header? (a.base + UInt64.ofNat offset + UInt64.ofNat headerSize)
      = some (a.headerAt offset) := by
    refine header?_dataAt placed ?_
    simp only [minSize] at inside
    omega
  unfold cell cellFrom
  simp only [header]
  split
  · rw [show a.base + UInt64.ofNat offset + UInt64.ofNat headerSize = a.dataAt offset from rfl,
      read32?_dataAt placed inside]
    dsimp only
    split <;> simp
  · cases TypeId.ofRaw? (a.headerAt offset).type with
    | none => simp
    | some type =>
      simp only [Option.bind_some]
      rw [show a.base + UInt64.ofNat offset + UInt64.ofNat headerSize = a.dataAt offset from rfl,
        objectSize?_dataAt placed inside]
      cases sizeFrom types type (a.firstWord offset) <;> simp

end

/-- The bytes that decide a cell. -/
theorem cell_congr {b : Arena} (placed : a.Placed) (base : b.region.base = a.region.base)
    (size : b.region.size = a.region.size) (used : b.used = a.used)
    (inside : offset + minSize ≤ a.region.size)
    (same : ∀ i, offset ≤ i → i < offset + minSize → b.region.byte i = a.region.byte i) :
    b.cell types offset = .ok found ↔ a.cell types offset = .ok found := by
  have placed' := placed.congr base size used
  simp only [minSize, headerSize, minDataSize] at same
  have header : b.headerAt offset = a.headerAt offset := by
    unfold headerAt
    rw [Region.wordAt_congr fun i low high => same i (by omega) (by omega),
      same (offset + 4) (by omega) (by omega)]
  have first : b.firstWord offset = a.firstWord offset := by
    unfold firstWord headerSize
    rw [Region.wordAt_congr fun i low high => same i (by omega) (by omega)]
  rw [cell_eq_ok_iff placed' (by rw [size]; exact inside), cell_eq_ok_iff placed inside, header,
    first, dataAt_congr base]

/-- What a cell with a live object says of the bytes. -/
structure Holds (a : Arena) (types : TypeTable) (offset : Nat) (x : HeapObject) : Prop where
  address : x.address = a.dataAt offset
  type : a.headerAt offset = ⟨x.type.raw, x.info⟩
  size : sizeFrom types x.type (a.firstWord offset) = some x.size

variable {data : UInt64} {header : Header} {d : Cell}

theorem cellFrom_eq_live_iff :
    cellFrom types data header first = some (size, some x) ↔
      size = x.size ∧ x.address = data ∧ header = ⟨x.type.raw, x.info⟩ ∧
        sizeFrom types x.type first = some x.size := by
  unfold cellFrom
  constructor
  · intro h
    split at h
    · split at h <;> cases h
    · obtain ⟨type, raw, rest⟩ := Option.bind_eq_some_iff.mp h
      obtain ⟨size', sized, same⟩ := Option.map_eq_some_iff.mp rest
      cases same
      unfold TypeId.ofRaw? at raw
      split at raw
      · cases raw
      · cases raw
        exact ⟨rfl, rfl, rfl, sized⟩
  · rintro ⟨rfl, rfl, rfl, sized⟩
    have alive : ¬ (Header.mk x.type.raw x.info).isTombstone = true := by
      have := x.type.ne_zero
      simp [Header.isTombstone, this]
    rw [if_neg alive]
    simp [TypeId.ofRaw?, x.type.ne_zero, sized]

theorem cellFrom_eq_dead_iff :
    cellFrom types data header first = some (size, none) ↔
      header = .tombstone ∧ first.toNat = size ∧ minSize ≤ size := by
  unfold cellFrom
  constructor
  · intro h
    split at h
    · rename_i dead
      split at h
      · rename_i enough
        cases h
        obtain ⟨type, info⟩ := header
        simp only [Header.isTombstone, Bool.and_eq_true, beq_iff_eq] at dead
        obtain ⟨rfl, full⟩ := dead
        refine ⟨?_, rfl, enough⟩
        obtain ⟨byte⟩ := info
        cases full
        rfl
      · cases h
    · obtain ⟨type, _, rest⟩ := Option.bind_eq_some_iff.mp h
      obtain ⟨size', _, same⟩ := Option.map_eq_some_iff.mp rest
      cases same
  · rintro ⟨rfl, rfl, enough⟩
    rw [if_pos (by decide), if_pos enough]

section

variable (placed : a.Placed) (inside : offset + minSize ≤ a.region.size)

include placed inside

theorem cell_eq_live_iff :
    a.cell types offset = .ok (size, some x) ↔ a.Holds types offset x ∧ size = x.size := by
  rw [cell_eq_ok_iff placed inside, cellFrom_eq_live_iff]
  constructor
  · rintro ⟨same, address, type, sized⟩
    exact ⟨⟨address, type, sized⟩, same⟩
  · rintro ⟨⟨address, type, sized⟩, same⟩
    exact ⟨same, address, type, sized⟩

theorem cell_eq_dead_iff :
    a.cell types offset = .ok (size, none) ↔
      a.headerAt offset = .tombstone ∧ (a.firstWord offset).toNat = size ∧ minSize ≤ size := by
  rw [cell_eq_ok_iff placed inside, cellFrom_eq_dead_iff]

end

/-! ## Tiled arenas -/

section Tiles

variable (tiled : a.Tiled types offset cells)

include tiled

theorem Tiled.le_used : offset ≤ a.used := by
  induction cells generalizing offset with
  | nil => exact Nat.le_of_eq tiled
  | cons c rest ih =>
    have := ih tiled.2.2
    omega

/-- Every cell is read as such and lies inside the used part. -/
theorem Tiled.cell_mem (mem : c ∈ cells) :
    a.cell types c.offset = .ok (c.size, c.object) ∧ offset ≤ c.offset ∧
      c.offset + c.size ≤ a.used := by
  induction cells generalizing offset with
  | nil => cases mem
  | cons d rest ih =>
    obtain ⟨start, here, later⟩ := tiled
    rcases List.mem_cons.mp mem with rfl | there
    · rw [start]
      exact ⟨here, Nat.le_refl _, later.le_used⟩
    · obtain ⟨read, low, high⟩ := ih later there
      exact ⟨read, by omega, high⟩

/-- The cells follow one another. -/
theorem Tiled.pairwise : cells.Pairwise fun c d => c.offset + c.size ≤ d.offset := by
  induction cells generalizing offset with
  | nil => exact .nil
  | cons c rest ih =>
    obtain ⟨start, _, later⟩ := tiled
    refine List.pairwise_cons.mpr ⟨fun d mem => ?_, ih later⟩
    have := (later.cell_mem mem).2.1
    omega

theorem Tiled.minSize_le (mem : c ∈ cells) : minSize ≤ c.size :=
  minSize_le_of_cell (tiled.cell_mem mem).1

/-- Two cells are one or lie apart. -/
theorem Tiled.eq_or_apart (hc : c ∈ cells) (hd : d ∈ cells) :
    c = d ∨ c.offset + c.size ≤ d.offset ∨ d.offset + d.size ≤ c.offset := by
  induction cells generalizing offset with
  | nil => cases hc
  | cons e rest ih =>
    obtain ⟨start, _, later⟩ := tiled
    rcases List.mem_cons.mp hc with rfl | inC <;> rcases List.mem_cons.mp hd with rfl | inD
    · exact .inl rfl
    · have := (later.cell_mem inD).2.1
      exact .inr (.inl (by omega))
    · have := (later.cell_mem inC).2.1
      exact .inr (.inr (by omega))
    · exact ih later inC inD

theorem Tiled.offset_ne {rest : List Cell} (some_ : cells = c :: rest) : offset ≠ a.used := by
  subst some_
  have enough := tiled.minSize_le List.mem_cons_self
  have bound := tiled.2.2.le_used
  simp only [minSize, headerSize, minDataSize] at enough
  omega

/-- The used part is one row of cells only. -/
theorem Tiled.unique {cells' : List Cell} (tiled' : a.Tiled types offset cells') :
    cells = cells' := by
  induction cells generalizing offset cells' with
  | nil =>
    cases cells' with
    | nil => rfl
    | cons d rest => exact absurd tiled (tiled'.offset_ne rfl)
  | cons c rest ih =>
    cases cells' with
    | nil => exact absurd tiled' (tiled.offset_ne rfl)
    | cons d rest' =>
      obtain ⟨start, here, later⟩ := tiled
      obtain ⟨start', here', later'⟩ := tiled'
      obtain ⟨offset, size, object⟩ := c
      obtain ⟨offset', size', object'⟩ := d
      cases here.symm.trans here'
      cases start.trans start'.symm
      rw [ih later later']

theorem Tiled.walkFrom (found : Array HeapObject) :
    a.walkFrom types offset found = (found ++ (objectsOf cells).toArray, none) := by
  induction cells generalizing offset found with
  | nil =>
    rw [Arena.walkFrom, if_neg (by rw [show offset = a.used from tiled]; omega)]
    simp [objectsOf]
  | cons c rest ih =>
    obtain ⟨start, total, object⟩ := c
    obtain ⟨_, here, later⟩ := tiled
    have progress := minSize_le_of_cell here
    have bound : offset + total ≤ a.used := later.le_used
    simp only [minSize, headerSize, minDataSize] at progress
    rw [Arena.walkFrom, if_pos (by omega)]
    split
    · rename_i failed
      rw [here] at failed
      cases failed
    · rename_i size object step
      rw [here] at step
      cases step
      rw [ih later]
      cases object <;> simp [objectsOf]

end Tiles

/-- The walk over a tiled arena reaches its end and finds the live objects in order. -/
theorem Tiled.walk (tiled : a.Tiled types 0 cells) :
    a.walk types = ((objectsOf cells).toArray, none) := by
  rw [Arena.walk, tiled.walkFrom, Array.empty_append]

theorem mem_objectsOf : x ∈ objectsOf cells ↔ ∃ c ∈ cells, c.object = some x :=
  List.mem_filterMap

section LiveCells

variable {a : Arena} {types : TypeTable} {offset : Nat} {cells : List Cell}
variable {c : Cell} {x : HeapObject}

section Inside

variable (placed : a.Placed) (tiled : a.Tiled types offset cells)

include placed tiled

section

variable (mem : c ∈ cells)

include mem

theorem Tiled.minSize_inside : c.offset + minSize ≤ a.region.size := by
  have bound := (tiled.cell_mem mem).2.2
  have enough := tiled.minSize_le mem
  have used := placed.used_le
  omega

theorem Tiled.header_inside : c.offset + headerSize ≤ a.region.size := by
  have inside := tiled.minSize_inside placed mem
  simp only [minSize] at inside
  omega

theorem Tiled.holds (live : c.object = some x) : a.Holds types c.offset x ∧ c.size = x.size := by
  have read := (tiled.cell_mem mem).1
  rw [live] at read
  exact (cell_eq_live_iff placed (tiled.minSize_inside placed mem)).mp read

/-- Where the data of a live object starts. -/
theorem Tiled.toNat_address (live : c.object = some x) :
    x.address.toNat = a.region.base.toNat + c.offset + headerSize := by
  rw [(tiled.holds placed mem live).1.address, toNat_dataAt placed (tiled.header_inside placed mem)]

end

/-- An object is found at one cell only. -/
theorem Tiled.cell_unique (hc : c ∈ cells) (hd : d ∈ cells) {y : HeapObject}
    (hx : c.object = some x) (hy : d.object = some y) (same : x.address = y.address) : c = d := by
  have placeC := tiled.toNat_address placed hc hx
  have placeD := tiled.toNat_address placed hd hy
  have sizeC := tiled.minSize_le hc
  have sizeD := tiled.minSize_le hd
  simp only [minSize, headerSize, minDataSize] at *
  rw [same] at placeC
  rcases tiled.eq_or_apart hc hd with equal | before | after
  · exact equal
  · omega
  · omega

end Inside

end LiveCells

/-! ## Slots -/

theorem data_le_of_totalSize? {dataSize total : Nat} (sized : totalSize? dataSize = some total) :
    headerSize + dataSize ≤ total ∧ total ≤ maxObjectSize := by
  simp only [totalSize?] at sized
  split at sized
  · rename_i small
    cases sized
    exact ⟨by omega, small⟩
  · cases sized

theorem size_le_of_sizeFrom (sized : sizeFrom types type first = some size) :
    minSize ≤ size ∧ size ≤ maxObjectSize := by
  rcases sizeFrom_cases sized with ⟨_, _, _, total⟩ | ⟨_, _, _, _, total⟩
  · exact ⟨minSize_le_of_totalSize? total, (data_le_of_totalSize? total).2⟩
  · exact ⟨minSize_le_of_totalSize? total, (data_le_of_totalSize? total).2⟩

/-- A reference takes eight bytes. -/
theorem size_of_isReference (h : types.isReference type = true) : types.size type = 8 := by
  cases known : types.shape? type with
  | none => simp [TypeTable.isReference, known] at h
  | some shape =>
    rw [TypeTable.isReference_of_shape? known] at h
    rw [TypeTable.size_of_shape? known]
    cases shape with
    | primitive p => cases h
    | array e | object l => rfl

/-- The places where an object holds references lie in its data. -/
theorem slot_inside (wf : types.WellFormed) (placed : a.Placed)
    (inside : offset + minSize ≤ a.region.size) (holds : a.Holds types offset x)
    (mem : s ∈ a.slots types x.type x.address) :
    ∃ k, s.1 = x.address + UInt64.ofNat k ∧ headerSize + k + 8 ≤ x.size := by
  unfold slots at mem
  rcases sizeFrom_cases holds.size with
    ⟨layout, known, shape, sized⟩ | ⟨element, _, shape, _, sized⟩
  · rw [shape] at mem
    obtain ⟨f, field, rfl⟩ := List.mem_map.mp mem
    obtain ⟨there, reference⟩ := List.mem_filter.mp field
    have bound := (wf.packed x.type layout known).offset_add_size_le there
    have fits := wf.fits x.type layout known f there
    have eight : f.size = 8 := by
      rw [fits.size]
      exact size_of_isReference (by rw [← fits.reference]; exact reference)
    have room := (data_le_of_totalSize? sized).1
    exact ⟨f.offset, rfl, by omega⟩
  · rw [shape] at mem
    dsimp only at mem
    split at mem
    · rename_i reference
      obtain ⟨i, small, rfl⟩ := List.mem_map.mp mem
      have room := (data_le_of_totalSize? sized).1
      have length : a.lengthAt x.address = (a.firstWord offset).toNat := by
        rw [lengthAt, holds.address, read32?_dataAt placed inside]
        rfl
      rw [List.mem_range, length] at small
      rw [arrayDataSize, size_of_isReference reference] at room
      exact ⟨lengthSize + 8 * i, rfl, by omega⟩
    · cases mem

/-- The address of a place in the data. -/
theorem toNat_place (placed : a.Placed) {k : Nat} (holds : a.Holds types offset x)
    (bound : offset + headerSize + k ≤ a.region.size) :
    (x.address + UInt64.ofNat k).toNat = a.region.base.toNat + offset + headerSize + k := by
  have below := placed.below
  rw [UInt64.toNat_add, holds.address, toNat_dataAt placed (by omega), UInt64.toNat_ofNat']
  omega

section SameData

variable {a b : Arena} {types : TypeTable} {offset : Nat} {x : HeapObject}

/-- Two arenas agree on the data of the cell at an offset. -/
def SameData (a b : Arena) (offset size : Nat) : Prop :=
  ∀ i, offset + headerSize ≤ i → i < offset + size → b.region.byte i = a.region.byte i

theorem slots_congr (placed : a.Placed) (base : b.region.base = a.region.base)
    (size : b.region.size = a.region.size) (inside : offset + minSize ≤ a.region.size)
    (holds : a.Holds types offset x) (enough : minSize ≤ x.size)
    (same : a.SameData b offset x.size) :
    b.slots types x.type x.address = a.slots types x.type x.address := by
  have length : b.lengthAt x.address = a.lengthAt x.address := by
    have room : offset + headerSize ≤ a.region.size := by
      simp only [minSize] at inside
      omega
    have place := toNat_dataAt placed room
    unfold lengthAt Region.read32?
    rw [Region.readWord?_congr base size]
    intro i low high
    rw [holds.address, place, base] at low high
    simp only [minSize, headerSize, minDataSize] at *
    exact same i (by simp only [headerSize]; omega) (by omega)
  unfold slots
  rw [length]

section

variable (wf : types.WellFormed) (placed : a.Placed) (base : b.region.base = a.region.base)

include wf placed base

theorem read64?_slot_congr (size : b.region.size = a.region.size)
    (bound : offset + x.size ≤ a.region.size) (enough : minSize ≤ x.size)
    (holds : a.Holds types offset x) (same : a.SameData b offset x.size)
    (mem : s ∈ a.slots types x.type x.address) : b.region.read64? s.1 = a.region.read64? s.1 := by
  obtain ⟨k, place, room⟩ := slot_inside wf placed (by omega) holds mem
  have here := toNat_place placed (k := k) holds (by omega)
  apply Region.readWord?_congr base size
  intro i low high
  rw [place, here, base] at low high
  exact same i (by omega) (by omega)

/-- The references of an object depend on its data only. -/
theorem references_congr (size : b.region.size = a.region.size)
    (bound : offset + x.size ≤ a.region.size) (enough : minSize ≤ x.size)
    (holds : a.Holds types offset x) (same : a.SameData b offset x.size) :
    b.references types x = a.references types x := by
  unfold references
  rw [slots_congr placed base size (by omega) holds enough same,
    List.filterMap_congr fun s mem =>
      read64?_slot_congr wf placed base size bound enough holds same mem]

end

theorem SameData.firstWord (same : a.SameData b offset size) (enough : minSize ≤ size) :
    b.firstWord offset = a.firstWord offset := by
  simp only [minSize, minDataSize] at enough
  unfold Arena.firstWord
  rw [Region.wordAt_congr fun i low high => same i low (by omega)]

/-- A live object whose data stays holds what it held. -/
theorem Tiled.references_congr (tiled : a.Tiled types 0 cells) (wf : types.WellFormed)
    (placed : a.Placed) (base : b.region.base = a.region.base)
    (size : b.region.size = a.region.size) (mem : c ∈ cells) (live : c.object = some x)
    (same : a.SameData b c.offset c.size) : b.references types x = a.references types x := by
  obtain ⟨holds, whole⟩ := tiled.holds placed mem live
  have bound := (tiled.cell_mem mem).2.2
  have used := placed.used_le
  have enough := tiled.minSize_le mem
  rw [whole] at bound enough same
  exact Arena.references_congr wf placed base size (by omega) enough holds same

end SameData

end Arena

end ManagedCode.Heap
