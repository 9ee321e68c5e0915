import ManagedCode.Machine.Access
import ManagedCode.Proofs.Heap.Exactness

/-!
# Objects of an arena

A program does not see the bytes of the heap but objects: a type and the words that its fields or
elements load as. `Arena.object?` is the object at an address. What a program does to the heap is
said by equations for it:

* `loadFrom?_place`, `loadFrom?_length`: what an access reads.
* `object?_store`: a store changes one word of one object.
* `object?_extended`: an allocation adds an object of zeros.
* `object?_settled`: a collection takes objects away and leaves the others as they are.
-/

namespace ManagedCode

/-- A word as it loads after a store of some width. -/
def Machine.cut (width : Target.Width) (value : UInt64) : UInt64 :=
  Machine.extend width (decodeLE (encodeLE width.bytes value))

namespace Heap

open Memory (Region)
open Target (Width)
open TypeSystem (TypeId TypeTable Shape Layout Field Packed)
open Memory.Region (byte_clearAt byte_setBytes_apart wordAt_congr wordAt_setBytes_apart
  writeWord_of_offset?)

/-! ## Definitions -/

structure Object where
  type : TypeId
  /-- What the fields or elements load as, in order. -/
  words : List UInt64

/-- The offset in the data and the type of every field of a class, or of so many elements of an
array. -/
def placesIn (types : TypeTable) (type : TypeId) (length : Nat) : List (Nat × TypeId) :=
  match types.shape? type with
  | some (.object (some layout)) => layout.fields.map fun f => (f.offset, f.type)
  | some (.array element) =>
    (List.range length).map fun i => (lengthSize + i * types.size element, element)
  | _ => []

/-- The offset in the data and the type of every word of an object. -/
def Object.places (types : TypeTable) (o : Object) : List (Nat × TypeId) :=
  placesIn types o.type o.words.length

def Object.slotTypes (types : TypeTable) (o : Object) : List TypeId :=
  (o.places types).map Prod.snd

namespace Arena

/-- The word that the value of a type at an offset loads as. -/
def valueAt (a : Arena) (types : TypeTable) (offset : Nat) (type : TypeId) : UInt64 :=
  match Width.ofSize? (types.size type) with
  | some width => Machine.extend width (a.region.wordAt offset width.bytes)
  | none => 0

/-- The words of an object of a type in the cell at an offset. -/
def wordsAt (a : Arena) (types : TypeTable) (offset : Nat) (type : TypeId) : List UInt64 :=
  (placesIn types type (a.firstWord offset).toNat).map fun p =>
    a.valueAt types (offset + headerSize + p.1) p.2

/-- The object that a walk finds at an address. -/
def object? (a : Arena) (types : TypeTable) (address : UInt64) : Option Object :=
  ((a.walk types).1.toList.find? (·.address == address)).map fun x =>
    ⟨x.type, a.wordsAt types (x.address.toNat - a.base.toNat - headerSize) x.type⟩

/-- The used part is a row of cells, and no object is marked. -/
structure Regular (a : Arena) (types : TypeTable) (cells : List Cell) : Prop where
  placed : a.Placed
  tiled : a.Tiled types 0 cells
  clear : ∀ x ∈ objectsOf cells, x.info.isMarked = false

end Arena

/-! ## Places -/

variable {element : TypeId} {offset : Nat}

section Places

variable {types : TypeTable} {type : TypeId} {length : Nat}
variable {i : Nat} {p : Nat × TypeId}

variable {layout : Layout} {j : Nat}

theorem shape?_of_layout? (known : types.layout? type = some layout) :
    types.shape? type = some (.object (some layout)) := by
  obtain ⟨shape, found, object⟩ := Option.bind_eq_some_iff.mp known
  cases shape with
  | object layout' =>
    cases object
    exact found
  | primitive p | array element => cases object

theorem shape?_of_element? (known : types.element? type = some element) :
    types.shape? type = some (.array element) := by
  obtain ⟨shape, found, array⟩ := Option.bind_eq_some_iff.mp known
  cases shape with
  | array element' =>
    cases array
    exact found
  | primitive p | object layout => cases array

/-- Everything that has a size can be moved. -/
theorem width_of_size_ne (sized : types.size type ≠ 0) :
    ∃ width, Width.ofSize? (types.size type) = some width ∧ width.bytes = types.size type := by
  obtain ⟨shape, known⟩ := TypeTable.shape?_of_size_ne sized
  rw [TypeTable.size_of_shape? known] at sized ⊢
  cases shape with
  | primitive p =>
    cases p with
    | int | float => exact ⟨.dword, rfl, rfl⟩
    | bool => exact ⟨.byte, rfl, rfl⟩
    | void => exact absurd rfl sized
  | array element | object layout => exact ⟨.qword, rfl, rfl⟩

theorem placesIn_of_layout (known : types.layout? type = some layout) :
    placesIn types type length = layout.fields.map fun f => (f.offset, f.type) := by
  unfold placesIn
  rw [shape?_of_layout? known]

theorem placesIn_of_element (known : types.element? type = some element) :
    placesIn types type length
      = (List.range length).map fun i => (lengthSize + i * types.size element, element) := by
  unfold placesIn
  rw [shape?_of_element? known]

theorem placesIn_of_plain (object : types.layout? type = none)
    (array : types.element? type = none) : placesIn types type length = [] := by
  unfold placesIn
  split
  · rename_i shape
    simp [TypeTable.layout?, shape, Shape.layout?] at object
  · rename_i shape
    simp [TypeTable.element?, shape, Shape.element?] at array
  · rfl

/-- Only classes with a layout and arrays have places. -/
theorem placesIn_cases (here : (placesIn types type length)[i]? = some p) :
    (∃ layout f, types.layout? type = some layout ∧ layout.fields[i]? = some f ∧
        p = (f.offset, f.type)) ∨
      ∃ element, types.element? type = some element ∧ i < length ∧
        p = (lengthSize + i * types.size element, element) := by
  cases object : types.layout? type with
  | some layout =>
    rw [placesIn_of_layout object, List.getElem?_map] at here
    obtain ⟨f, field, rfl⟩ := Option.map_eq_some_iff.mp here
    exact .inl ⟨layout, f, rfl, field, rfl⟩
  | none =>
    cases array : types.element? type with
    | some element =>
      rw [placesIn_of_element array, List.getElem?_map] at here
      obtain ⟨j, there, rfl⟩ := Option.map_eq_some_iff.mp here
      obtain ⟨bound, rfl⟩ := List.getElem?_eq_some_iff.mp there
      rw [List.length_range] at bound
      rw [List.getElem_range]
      exact .inr ⟨element, rfl, bound, rfl⟩
    | none =>
      rw [placesIn_of_plain object array] at here
      cases here

theorem width_of_place (wf : types.WellFormed) (here : (placesIn types type length)[i]? = some p) :
    ∃ width, Width.ofSize? (types.size p.2) = some width ∧ width.bytes = types.size p.2 := by
  refine width_of_size_ne ?_
  rcases placesIn_cases here with ⟨layout, f, known, field, rfl⟩ | ⟨element, known, _, rfl⟩
  · have fits := wf.fits type layout known f (List.mem_of_getElem? field)
    exact fits.size ▸ fits.nonempty
  · exact wf.element type element known

/-- Fields that follow one another lie apart. -/
theorem packed_apart {fields : List Field} (packed : Packed offset fields) {f g : Field}
    (here : fields[i]? = some f) (there : fields[j]? = some g) (before : i < j) :
    f.offset + f.size ≤ g.offset := by
  induction fields generalizing offset i j with
  | nil => cases here
  | cons h rest ih =>
    obtain ⟨start, later⟩ := packed
    cases j with
    | zero => exact absurd before (Nat.not_lt_zero i)
    | succ j =>
      cases i with
      | zero =>
        cases here
        have behind := (later.field_le (List.mem_of_getElem? there)).1
        omega
      | succ i => exact ih later here there (Nat.lt_of_succ_lt_succ before)

/-- The places of an object lie apart. -/
theorem places_apart (wf : types.WellFormed) {q : Nat × TypeId}
    (here : (placesIn types type length)[i]? = some p)
    (there : (placesIn types type length)[j]? = some q) (before : i < j) :
    p.1 + types.size p.2 ≤ q.1 := by
  rcases placesIn_cases here with ⟨layout, f, known, field, rfl⟩ | ⟨element, known, _, rfl⟩
  · rw [placesIn_of_layout known, List.getElem?_map] at there
    obtain ⟨g, second, rfl⟩ := Option.map_eq_some_iff.mp there
    have fits := wf.fits type layout known f (List.mem_of_getElem? field)
    have apart := packed_apart (wf.packed type layout known) field second before
    rwa [fits.size] at apart
  · rw [placesIn_of_element known, List.getElem?_map] at there
    obtain ⟨n, second, rfl⟩ := Option.map_eq_some_iff.mp there
    obtain ⟨bound, rfl⟩ := List.getElem?_eq_some_iff.mp second
    have step : (i + 1) * types.size element ≤ j * types.size element :=
      Nat.mul_le_mul_right _ before
    rw [Nat.succ_mul] at step
    rw [List.getElem_range]
    show lengthSize + i * types.size element + types.size element
      ≤ lengthSize + j * types.size element
    omega

/-- The places of an object lie in its data. -/
theorem place_inside (wf : types.WellFormed) {first : UInt32} {size : Nat}
    (sized : Arena.sizeFrom types type first = some size)
    (here : (placesIn types type first.toNat)[i]? = some p) :
    headerSize + p.1 + types.size p.2 ≤ size := by
  rcases Arena.sizeFrom_cases sized with
    ⟨layout, known, _, total⟩ | ⟨element, known, _, _, total⟩
  · rw [placesIn_of_layout known, List.getElem?_map] at here
    obtain ⟨f, field, rfl⟩ := Option.map_eq_some_iff.mp here
    have fits := wf.fits type layout known f (List.mem_of_getElem? field)
    have inside := (wf.packed type layout known).offset_add_size_le (List.mem_of_getElem? field)
    have room := (Arena.data_le_of_totalSize? total).1
    rw [fits.size] at inside
    show headerSize + f.offset + types.size f.type ≤ size
    omega
  · rcases placesIn_cases here with ⟨_, _, object, _⟩ | ⟨_, known', bound, rfl⟩
    · cases (shape?_of_layout? object).symm.trans (shape?_of_element? known)
    · cases known.symm.trans known'
      have room := (Arena.data_le_of_totalSize? total).1
      have step : (i + 1) * types.size element ≤ first.toNat * types.size element :=
        Nat.mul_le_mul_right _ bound
      rw [arrayDataSize, Nat.mul_comm] at room
      rw [Nat.succ_mul] at step
      show headerSize + (lengthSize + i * types.size element) + types.size element ≤ size
      omega

/-- The number of places decides them. -/
theorem placesIn_length : placesIn types type (placesIn types type length).length
    = placesIn types type length := by
  cases object : types.layout? type with
  | some layout => rw [placesIn_of_layout object, placesIn_of_layout object]
  | none =>
    cases array : types.element? type with
    | some element =>
      rw [placesIn_of_element array, placesIn_of_element array, List.length_map,
        List.length_range]
    | none => rw [placesIn_of_plain object array, placesIn_of_plain object array]

end Places

namespace Arena

section Objects

variable {a b : Arena} {types : TypeTable} {cells : List Cell} {r : UInt64} {o : Object}
variable {c : Cell} {x : HeapObject} {total : Nat}

/-! ## Cells and objects -/

theorem object?_eq_some_iff (regular : a.Regular types cells) :
    a.object? types r = some o ↔ ∃ c ∈ cells, ∃ x, c.object = some x ∧ x.address = r ∧
      o = ⟨x.type, a.wordsAt types c.offset x.type⟩ := by
  have offset : ∀ c ∈ cells, ∀ x, c.object = some x →
      x.address.toNat - a.base.toNat - headerSize = c.offset := by
    intro c mem x live
    rw [regular.tiled.toNat_address regular.placed mem live, Arena.base]
    omega
  unfold object?
  rw [regular.tiled.walk, Option.map_eq_some_iff]
  constructor
  · rintro ⟨x, found, rfl⟩
    obtain ⟨c, mem, live⟩ := mem_objectsOf.mp (List.mem_of_find?_eq_some found)
    have same := List.find?_some found
    exact ⟨c, mem, x, live, eq_of_beq same, by rw [offset c mem x live]⟩
  · rintro ⟨c, mem, x, live, rfl, rfl⟩
    have there : (objectsOf cells).find? (·.address == x.address) ≠ none := fun none_ =>
      absurd (beq_self_eq_true x.address)
        (by simpa using List.find?_eq_none.mp none_ x (mem_objectsOf.mpr ⟨c, mem, live⟩))
    obtain ⟨y, found⟩ := Option.ne_none_iff_exists'.mp there
    obtain ⟨d, mem', live'⟩ := mem_objectsOf.mp (List.mem_of_find?_eq_some found)
    have same := List.find?_some found
    cases regular.tiled.cell_unique regular.placed mem' mem live' live (eq_of_beq same)
    cases live'.symm.trans live
    exact ⟨x, found, by rw [offset c mem x live]⟩

/-- A live object in a cell. -/
structure At (a : Arena) (types : TypeTable) (cells : List Cell) (r : UInt64) (o : Object)
    (c : Cell) (x : HeapObject) : Prop where
  mem : c ∈ cells
  live : c.object = some x
  address : x.address = r
  holds : a.Holds types c.offset x
  size : c.size = x.size
  inside : c.offset + x.size ≤ a.used
  type : o.type = x.type
  words : o.words = a.wordsAt types c.offset x.type
  places : o.places types = placesIn types x.type (a.firstWord c.offset).toNat

theorem at_of_object? (regular : a.Regular types cells) (here : a.object? types r = some o) :
    ∃ c x, a.At types cells r o c x := by
  obtain ⟨c, mem, x, live, same, rfl⟩ := (object?_eq_some_iff regular).mp here
  obtain ⟨holds, size⟩ := regular.tiled.holds regular.placed mem live
  have inside := (regular.tiled.cell_mem mem).2.2
  refine ⟨c, x, mem, live, same, holds, size, size ▸ inside, rfl, rfl, ?_⟩
  unfold Object.places wordsAt
  rw [List.length_map]
  exact placesIn_length

/-- Where a place of an object stands in the region. -/
theorem At.offset? (wf : types.WellFormed) (regular : a.Regular types cells)
    (at_ : a.At types cells r o c x) {i : Nat} {p : Nat × TypeId}
    (place : (o.places types)[i]? = some p) :
    c.offset + headerSize + p.1 + types.size p.2 ≤ c.offset + x.size ∧
      a.region.offset? (r + UInt64.ofNat p.1) (types.size p.2)
        = some (c.offset + headerSize + p.1) := by
  rw [at_.places] at place
  have bound := place_inside wf at_.holds.size place
  have inside := at_.inside
  have used := regular.placed.used_le
  refine ⟨by omega, Region.offset?_of_inside ?_ (by omega)⟩
  rw [← at_.address, toNat_place regular.placed at_.holds (by omega)]
  omega

/-- The words of an object depend on its data only. -/
theorem wordsAt_congr (wf : types.WellFormed) (holds : a.Holds types offset x)
    (first : placesIn types x.type (b.firstWord offset).toNat = placesIn types x.type (a.firstWord offset).toNat)
    (same : a.SameData b offset x.size) :
    b.wordsAt types offset x.type = a.wordsAt types offset x.type := by
  unfold wordsAt
  rw [first]
  refine List.map_congr_left fun p mem => ?_
  obtain ⟨i, place⟩ := List.getElem?_of_mem mem
  have bound := place_inside wf holds.size place
  obtain ⟨width, moved, bytes⟩ := width_of_place wf place
  unfold valueAt
  rw [moved]
  dsimp only
  rw [wordAt_congr fun j low high => same j (by omega) (by omega)]

/-- A live object whose data stays has the words that it had. -/
theorem Tiled.wordsAt_congr (tiled : a.Tiled types 0 cells) (wf : types.WellFormed)
    (placed : a.Placed) (mem : c ∈ cells) (live : c.object = some x)
    (same : a.SameData b c.offset c.size) :
    b.wordsAt types c.offset x.type = a.wordsAt types c.offset x.type := by
  obtain ⟨holds, size⟩ := tiled.holds placed mem live
  have first := same.firstWord (tiled.minSize_le mem)
  exact Arena.wordsAt_congr wf holds (by rw [first]) (size ▸ same)

/-- The object that a live cell holds. -/
theorem Regular.at_of_mem (regular : a.Regular types cells) (mem : x ∈ objectsOf cells) :
    ∃ o c, a.object? types x.address = some o ∧ a.At types cells x.address o c x := by
  obtain ⟨c, there, live⟩ := mem_objectsOf.mp mem
  have here := (object?_eq_some_iff regular).mpr ⟨c, there, x, live, rfl, rfl⟩
  obtain ⟨c', x', at_⟩ := at_of_object? regular here
  cases regular.tiled.cell_unique regular.placed at_.mem there at_.live live at_.address
  cases at_.live.symm.trans live
  exact ⟨_, c, here, at_⟩

/-! ## Loads -/

section Places

variable (wf : types.WellFormed) (regular : a.Regular types cells) {i : Nat} {p : Nat × TypeId}
  (place : (o.places types)[i]? = some p) {width : Width}
  (moved : Width.ofSize? (types.size p.2) = some width)

include wf regular place moved

/-- Where an access to a place stands in the region. -/
theorem At.offset?_moved (at_ : a.At types cells r o c x) :
    width.bytes = types.size p.2 ∧
      a.region.offset? (r + UInt64.ofNat p.1) width.bytes
        = some (c.offset + headerSize + p.1) := by
  have offset := (at_.offset? wf regular place).2
  rw [at_.places] at place
  obtain ⟨width', moved', bytes⟩ := width_of_place wf place
  cases moved.symm.trans moved'
  exact ⟨bytes, bytes ▸ offset⟩

theorem contains_place (here : a.object? types r = some o) :
    a.region.contains (r + UInt64.ofNat p.1) width.bytes = true := by
  obtain ⟨c, x, at_⟩ := at_of_object? regular here
  unfold Region.contains
  rw [(at_.offset?_moved wf regular place moved).2]
  rfl

/-- An access to a place reads the word of the object. -/
theorem loadFrom?_place (here : a.object? types r = some o) :
    ∃ w, o.words[i]? = some w ∧
      Machine.loadFrom? a.region (r + UInt64.ofNat p.1) width = some w := by
  obtain ⟨c, x, at_⟩ := at_of_object? regular here
  obtain ⟨_, offset⟩ := at_.offset?_moved wf regular place moved
  refine ⟨a.valueAt types (c.offset + headerSize + p.1) p.2, ?_, ?_⟩
  · rw [at_.words, wordsAt, List.getElem?_map, ← at_.places, place, Option.map_some]
  · unfold Machine.loadFrom? valueAt
    rw [Region.readWord?_of_offset? offset, moved, Option.map_some]

end Places

/-- The number of elements that the first word of an array gives. -/
theorem At.length (at_ : a.At types cells r o c x) (array : types.element? o.type = some element) :
    o.words.length = (a.firstWord c.offset).toNat ∧ o.words.length < 2 ^ 31 := by
  rw [at_.type] at array
  have length : o.words.length = (a.firstWord c.offset).toNat := by
    rw [at_.words, wordsAt, List.length_map, placesIn_of_element array, List.length_map,
      List.length_range]
  refine ⟨length, ?_⟩
  rcases sizeFrom_cases at_.holds.size with ⟨_, _, shape, _⟩ | ⟨_, _, _, small, _⟩
  · cases shape.symm.trans (shape?_of_element? array)
  · rw [length]
    exact UInt32.lt_iff_toNat_lt.mp small

/-- The first word of an array is the number of its elements. -/
theorem loadFrom?_length (regular : a.Regular types cells) (here : a.object? types r = some o)
    (array : types.element? o.type = some element) :
    o.words.length < 2 ^ 31 ∧
      Machine.loadFrom? a.region r .dword = some (Int32.ofNat o.words.length).toInt64.toUInt64 := by
  obtain ⟨c, x, at_⟩ := at_of_object? regular here
  obtain ⟨length, small⟩ := at_.length array
  have inside := regular.tiled.minSize_inside regular.placed at_.mem
  have offset : a.region.offset? r Width.dword.bytes = some (c.offset + headerSize) := by
    rw [← at_.address, at_.holds.address]
    refine offset?_data regular.placed ?_
    simp only [minSize, minDataSize] at inside
    exact inside
  refine ⟨small, ?_⟩
  unfold Machine.loadFrom?
  rw [Region.readWord?_of_offset? offset, Option.map_some, length]
  show some (a.firstWord c.offset).toInt32.toInt64.toUInt64 = _
  rw [← UInt32.toInt32_ofNat', UInt32.ofNat_toNat]

/-! ## Writes -/

/-- `b` is the arena `a` but for bytes of one live object, behind its header and, if it is an array,
behind its length. -/
structure Within (a : Arena) (types : TypeTable) (r : UInt64) (b : Arena) : Prop where
  base : b.region.base = a.region.base
  size : b.region.size = a.region.size
  used : b.used = a.used
  bytes : ∃ cells, a.Tiled types 0 cells ∧ ∃ c ∈ cells, ∃ x, c.object = some x ∧ x.address = r ∧
    ∀ j, b.region.byte j ≠ a.region.byte j →
      c.offset + headerSize + (if (types.element? x.type).isSome then lengthSize else 0) ≤ j ∧
        j < c.offset + c.size

section Within

variable {d : Cell} (within : a.Within types r b)

include within

theorem Within.placed (placed : a.Placed) : b.Placed :=
  placed.congr within.base within.size within.used

/-- A write within an object leaves the bytes of all others. -/
theorem Within.apart (tiled : a.Tiled types 0 cells) (mem : d ∈ cells)
    (other : ∀ x, d.object = some x → x.address ≠ r) :
    ∀ j, d.offset ≤ j → j < d.offset + d.size → b.region.byte j = a.region.byte j := by
  obtain ⟨cells', tiled', c, there, x, live, address, bytes⟩ := within.bytes
  cases tiled.unique tiled'
  intro j low high
  by_contra changed
  have := bytes j changed
  rcases tiled.eq_or_apart mem there with rfl | before | after
  · exact other x live address
  · omega
  · omega

/-- A write within an object leaves every cell what it is. -/
theorem Within.cell (placed : a.Placed) (tiled : a.Tiled types 0 cells) (mem : d ∈ cells) :
    b.cell types d.offset = .ok (d.size, d.object) := by
  obtain ⟨cells', tiled', c, there, x, live, address, bytes⟩ := within.bytes
  cases tiled.unique tiled'
  have read := (tiled.cell_mem mem).1
  have inside := tiled.minSize_inside placed mem
  have enough := tiled.minSize_le mem
  by_cases here : d = c
  · subst here
    have same : ∀ j, j < d.offset + headerSize +
        (if (types.element? x.type).isSome then lengthSize else 0) →
        b.region.byte j = a.region.byte j := by
      intro j outside
      by_contra changed
      have := bytes j changed
      omega
    rw [live] at read ⊢
    rw [cell_eq_live_iff placed inside] at read
    obtain ⟨holds, size⟩ := read
    rw [cell_eq_live_iff (within.placed placed) (by rw [within.size]; exact inside)]
    refine ⟨⟨holds.address.trans (dataAt_congr within.base _).symm, ?_, ?_⟩, size⟩
    · rw [← holds.type, headerAt, headerAt, same _ (by simp only [headerSize]; omega),
        wordAt_congr fun j _ high => same j (by simp only [headerSize]; omega)]
    · -- Only the size of an array depends on its first word, which the write leaves alone.
      rw [← holds.size]
      cases array : types.element? x.type with
      | some element =>
        rw [array] at same
        simp only [Option.isSome_some, if_true] at same
        have first : b.firstWord d.offset = a.firstWord d.offset := by
          unfold firstWord
          rw [wordAt_congr fun j _ high =>
            same j (by simp only [headerSize, lengthSize] at *; omega)]
        rw [first]
      | none =>
        unfold sizeFrom
        split
        · rfl
        · rename_i known
          simp [TypeTable.element?, known, Shape.element?] at array
        · rfl
  · have other : ∀ y, d.object = some y → y.address ≠ r := fun y alive same =>
      here (tiled.cell_unique placed mem there alive live (same.trans address.symm))
    exact (cell_congr placed within.base within.size within.used inside fun j low high =>
      within.apart tiled mem other j low (by omega)).mpr read

theorem Within.tiled (placed : a.Placed) (tiled : a.Tiled types 0 cells) :
    b.Tiled types 0 cells := by
  rw [← List.map_id cells]
  exact tiled.map within.used (fun _ => ⟨rfl, rfl⟩) fun d mem => within.cell placed tiled mem

end Within

/-! ## Stores -/

section Store

variable {c : Cell} {x : HeapObject} {i : Nat} {p : Nat × TypeId} {width : Width} {v : UInt64}

/-- The arena after a value is put at an address. -/
def stored (a : Arena) (address : UInt64) (width : Width) (v : UInt64) : Arena :=
  { a with region := Machine.storeTo a.region address width v }

section Stored

variable (wf : types.WellFormed) (regular : a.Regular types cells) (at_ : a.At types cells r o c x)
  (place : (o.places types)[i]? = some p) (moved : Width.ofSize? (types.size p.2) = some width)

include wf regular at_ place moved

/-- A store to a place changes the bytes of the place only. -/
theorem At.byte_stored :
    ((a.stored (r + UInt64.ofNat p.1) width v).region
        = a.region.setBytes (c.offset + headerSize + p.1) (encodeLE width.bytes v)) ∧
      width.bytes = types.size p.2 := by
  obtain ⟨bytes, offset⟩ := at_.offset?_moved wf regular place moved
  exact ⟨writeWord_of_offset? v offset, bytes⟩

/-- A store keeps the number of the places. -/
theorem At.places_stored :
    placesIn types x.type ((a.stored (r + UInt64.ofNat p.1) width v).firstWord c.offset).toNat
      = placesIn types x.type (a.firstWord c.offset).toNat := by
  obtain ⟨region, _⟩ := at_.byte_stored (v := v) wf regular place moved
  rw [at_.places] at place
  rcases placesIn_cases place with ⟨layout, f, known, _, _⟩ | ⟨element, known, _, rfl⟩
  · rw [placesIn_of_layout known, placesIn_of_layout known]
  · have same : (a.stored (r + UInt64.ofNat (lengthSize + i * types.size element)) width
        v).firstWord c.offset = a.firstWord c.offset := by
      unfold firstWord
      rw [region, wordAt_setBytes_apart]
      left
      simp only [lengthSize]
      omega
    rw [same]

theorem At.words_stored :
    (a.stored (r + UInt64.ofNat p.1) width v).wordsAt types c.offset x.type
      = o.words.set i (Machine.cut width v) := by
  obtain ⟨region, bytes⟩ := at_.byte_stored (v := v) wf regular place moved
  have first := at_.places_stored (v := v) wf regular place moved
  rw [at_.places] at place
  apply List.ext_getElem?
  intro j
  rw [wordsAt, first, at_.words, List.getElem?_map, List.getElem?_set, wordsAt, List.length_map,
    List.getElem?_map]
  by_cases same : i = j
  · subst same
    have inside := (List.getElem?_eq_some_iff.mp place).1
    rw [if_pos rfl, if_pos inside, place, Option.map_some]
    unfold valueAt Machine.cut
    rw [moved]
    dsimp only
    rw [region, Region.wordAt_setBytes_self]
  · rw [if_neg same]
    cases there : (placesIn types x.type (a.firstWord c.offset).toNat)[j]? with
    | none => rfl
    | some q =>
      obtain ⟨width', moved', bytes'⟩ := width_of_place wf there
      have apart : q.1 + width'.bytes ≤ p.1 ∨ p.1 + width.bytes ≤ q.1 := by
        rw [bytes, bytes']
        rcases Nat.lt_or_gt_of_ne same with before | after
        · exact .inr (places_apart wf place there before)
        · exact .inl (places_apart wf there place after)
      rw [Option.map_some, Option.map_some]
      unfold valueAt
      rw [moved']
      dsimp only
      rw [region, wordAt_setBytes_apart]
      rw [length_encodeLE]
      omega

end Stored

section Stored

variable (wf : types.WellFormed) (regular : a.Regular types cells)
  (here : a.object? types r = some o) (place : (o.places types)[i]? = some p)
  (moved : Width.ofSize? (types.size p.2) = some width)

include wf regular here place moved

/-- A store to a place of an object stays within the object. -/
theorem within_stored : a.Within types r (a.stored (r + UInt64.ofNat p.1) width v) := by
  obtain ⟨c, x, at_⟩ := at_of_object? regular here
  obtain ⟨region, bytes⟩ := at_.byte_stored (v := v) wf regular place moved
  have bound := (at_.offset? wf regular place).1
  have size := at_.size
  refine ⟨by rw [region]; simp, by rw [region]; simp, rfl, cells, regular.tiled, c, at_.mem, x,
    at_.live, at_.address, fun j changed => ?_⟩
  have inside : c.offset + headerSize + p.1 ≤ j ∧ j < c.offset + headerSize + p.1 + width.bytes := by
    by_contra outside
    refine changed ?_
    rw [region, byte_setBytes_apart]
    rw [length_encodeLE]
    omega
  rw [at_.places] at place
  rcases placesIn_cases place with ⟨layout, f, known, _, _⟩ | ⟨element, known, _, rfl⟩
  · have plain : types.element? x.type = none := by
      simp [TypeTable.element?, shape?_of_layout? known, Shape.element?]
    rw [plain]
    simp only [Option.isSome_none, Bool.false_eq_true, if_false]
    omega
  · rw [known]
    simp only [Option.isSome_some, if_true]
    dsimp only at inside bound bytes
    omega

theorem regular_stored : (a.stored (r + UInt64.ofNat p.1) width v).Regular types cells := by
  have within := within_stored (v := v) wf regular here place moved
  exact ⟨within.placed regular.placed, within.tiled regular.placed regular.tiled, regular.clear⟩

/-- A store changes one word of one object. -/
theorem object?_stored (r' : UInt64) :
    (a.stored (r + UInt64.ofNat p.1) width v).object? types r'
      = if r' = r then some { o with words := o.words.set i (Machine.cut width v) }
        else a.object? types r' := by
  have regular' := regular_stored (v := v) wf regular here place moved
  by_cases same : r' = r
  · obtain ⟨c, x, at_⟩ := at_of_object? regular here
    subst same
    rw [if_pos rfl, object?_eq_some_iff regular']
    refine ⟨c, at_.mem, x, at_.live, at_.address, ?_⟩
    rw [at_.words_stored wf regular place moved, at_.type]
  · rw [if_neg same]
    apply Option.ext
    intro o'
    rw [object?_eq_some_iff regular', object?_eq_some_iff regular]
    have within := within_stored (v := v) wf regular here place moved
    have other : ∀ d ∈ cells, ∀ y, d.object = some y → y.address = r' →
        (a.stored (r + UInt64.ofNat p.1) width v).wordsAt types d.offset y.type
          = a.wordsAt types d.offset y.type := by
      intro d mem y live address
      refine regular.tiled.wordsAt_congr wf regular.placed mem live fun j low high =>
        within.apart regular.tiled mem (fun z alive moved => ?_) j (by omega) high
      cases live.symm.trans alive
      exact same (address.symm.trans moved)
    constructor
    · rintro ⟨d, mem, y, live, address, rfl⟩
      exact ⟨d, mem, y, live, address, by rw [other d mem y live address]⟩
    · rintro ⟨d, mem, y, live, address, rfl⟩
      exact ⟨d, mem, y, live, address, by rw [other d mem y live address]⟩

end Stored

end Store

/-! ## Allocations -/

/-- `b` is the arena `a` with one more object, which is zeros but for its first word. -/
structure Extended (a : Arena) (types : TypeTable) (type : TypeId) (total : Nat) (b : Arena) :
    Prop where
  base : b.region.base = a.region.base
  size : b.region.size = a.region.size
  used : b.used = a.used + total
  room : a.used + total ≤ a.region.size
  below : ∀ j, j < a.used → b.region.byte j = a.region.byte j
  header : b.headerAt a.used = ⟨type.raw, .fresh⟩
  sized : sizeFrom types type (b.firstWord a.used) = some total
  zero : ∀ p ∈ placesIn types type (b.firstWord a.used).toNat, ∀ j,
    a.used + headerSize + p.1 ≤ j → j < a.used + total → b.region.byte j = 0

/-- The cell of the object that an allocation adds. -/
def newCell (a : Arena) (type : TypeId) (total : Nat) : Cell :=
  ⟨a.used, total, some ⟨a.nextData, type, .fresh, total⟩⟩

theorem Tiled.snoc (tiled : a.Tiled types offset cells)
    (kept : ∀ c ∈ cells, b.cell types c.offset = .ok (c.size, c.object))
    (behind : c.offset = a.used) (last : b.cell types c.offset = .ok (c.size, c.object))
    (used : b.used = a.used + c.size) : b.Tiled types offset (cells ++ [c]) := by
  induction cells generalizing offset with
  | nil =>
    have start : offset = a.used := tiled
    subst start
    exact ⟨behind, behind ▸ last, used.symm⟩
  | cons d rest ih =>
    obtain ⟨start, _, later⟩ := tiled
    exact ⟨start, start ▸ kept d List.mem_cons_self,
      ih later fun e mem => kept e (List.mem_cons_of_mem _ mem)⟩

section Extended

variable {type : TypeId} {total : Nat}

theorem Extended.placed (extended : a.Extended types type total b) (placed : a.Placed) :
    b.Placed :=
  ⟨by rw [extended.base, extended.size]; exact placed.below,
    by rw [extended.used, extended.size]; exact extended.room⟩

theorem Extended.regular (extended : a.Extended types type total b)
    (regular : a.Regular types cells) : b.Regular types (cells ++ [a.newCell type total]) := by
  have placed := extended.placed regular.placed
  have enough := (size_le_of_sizeFrom extended.sized).1
  have room := extended.room
  refine ⟨placed, regular.tiled.snoc (fun c mem => ?_) rfl ?_ extended.used, ?_⟩
  · have inside := regular.tiled.minSize_inside regular.placed mem
    have bound := (regular.tiled.cell_mem mem).2.2
    have least := regular.tiled.minSize_le mem
    have read := (regular.tiled.cell_mem mem).1
    -- The cells of `a` keep their bytes, though `b` has more of them.
    exact (cell_congr (b := { b with used := a.used }) regular.placed extended.base extended.size
      rfl inside fun j _ high => extended.below j (by omega)).mpr read
  · show b.cell types a.used = .ok (total, some _)
    rw [cell_eq_live_iff placed (by rw [extended.size]; omega)]
    exact ⟨⟨(dataAt_congr extended.base a.used).symm, extended.header, extended.sized⟩, rfl⟩
  · intro x mem
    rw [objectsOf, List.filterMap_append, List.mem_append] at mem
    rcases mem with old | new
    · exact regular.clear x old
    · cases List.mem_singleton.mp new
      exact (show GcInfo.fresh.isMarked = false by decide)

/-- No object is where the next one will be. -/
theorem object?_nextData (regular : a.Regular types cells)
    (room : a.used + minSize ≤ a.region.size) : a.object? types a.nextData = none := by
  cases here : a.object? types a.nextData with
  | none => rfl
  | some o =>
    obtain ⟨c, x, at_⟩ := at_of_object? regular here
    have inside := at_.inside
    have enough := regular.tiled.minSize_le at_.mem
    have place := regular.tiled.toNat_address regular.placed at_.mem at_.live
    have next : a.nextData.toNat = a.region.base.toNat + a.used + headerSize :=
      toNat_dataAt regular.placed (by simp only [minSize] at room; omega)
    rw [at_.address, next] at place
    rw [at_.size] at enough
    simp only [minSize, headerSize, minDataSize] at enough
    omega

/-- An allocation adds an object of zeros. -/
theorem object?_extended (wf : types.WellFormed) (extended : a.Extended types type total b)
    (regular : a.Regular types cells) (r : UInt64) :
    b.object? types r
      = if r = a.nextData then
          some ⟨type, List.replicate (placesIn types type (b.firstWord a.used).toNat).length 0⟩
        else a.object? types r := by
  have regular' := extended.regular regular
  have enough := (size_le_of_sizeFrom extended.sized).1
  have room := extended.room
  by_cases new : r = a.nextData
  · subst new
    rw [if_pos rfl, object?_eq_some_iff regular']
    refine ⟨a.newCell type total, List.mem_append_right _ List.mem_cons_self, _, rfl, rfl, ?_⟩
    congr 1
    show _ = b.wordsAt types a.used type
    refine (List.eq_replicate_iff.mpr ⟨?_, fun w mem => ?_⟩).symm
    · rw [wordsAt, List.length_map]
    · obtain ⟨p, place, rfl⟩ := List.mem_map.mp mem
      obtain ⟨i, there⟩ := List.getElem?_of_mem place
      have bound := place_inside wf extended.sized there
      obtain ⟨width, moved, bytes⟩ := width_of_place wf there
      unfold valueAt
      rw [moved]
      dsimp only
      rw [Region.wordAt_eq_zero fun j low high => extended.zero p place j low (by omega)]
      cases width <;> rfl
  · rw [if_neg new]
    apply Option.ext
    intro o
    rw [object?_eq_some_iff regular', object?_eq_some_iff regular]
    have old : ∀ c ∈ cells, ∀ x, c.object = some x →
        b.wordsAt types c.offset x.type = a.wordsAt types c.offset x.type := by
      intro c mem x live
      have bound := (regular.tiled.cell_mem mem).2.2
      exact regular.tiled.wordsAt_congr wf regular.placed mem live fun j _ high =>
        extended.below j (by omega)
    constructor
    · rintro ⟨c, mem, x, live, address, rfl⟩
      rcases List.mem_append.mp mem with before | last
      · exact ⟨c, before, x, live, address, by rw [old c before x live]⟩
      · cases List.mem_singleton.mp last
        cases live
        exact absurd address.symm new
    · rintro ⟨c, mem, x, live, address, rfl⟩
      exact ⟨c, List.mem_append_left _ mem, x, live, address, by rw [old c mem x live]⟩

end Extended

/-- The bytes of an arena after an allocation. -/
theorem region_allocated (placed : a.Placed) (type : TypeId) (enough : minSize ≤ total)
    (room : a.used + total ≤ a.region.size) :
    ((a.reserve total).setHeader a.nextData ⟨type.raw, .fresh⟩).region
      = ((a.region.clearAt a.used total).setBytes a.used (encodeLE 4 type.raw.toUInt64)).setBytes
          (a.used + 4) (encodeLE 1 0) := by
  simp only [minSize] at enough
  have inside : a.used + headerSize ≤ a.region.size := by omega
  have next : a.region.offset? a.next total = some a.used := by
    refine Region.offset?_of_inside ?_ room
    have below := placed.below
    rw [Arena.next, Arena.base, UInt64.toNat_add, UInt64.toNat_ofNat']
    omega
  have type_ : a.region.offset? (a.nextData - 5) 4 = some a.used := offset?_type placed inside
  have info : a.region.offset? (a.nextData - 1) 1 = some (a.used + 4) := offset?_info placed inside
  have byte : GcInfo.fresh.byte.toUInt64 = 0 := rfl
  simp only [setHeader, reserve, Header.write, byte]
  rw [Region.clear_of_offset? next,
    writeWord_of_offset? _ ((Region.offset?_clearAt ..).trans type_),
    writeWord_of_offset? _ (((Region.offset?_setBytes ..).trans
      (Region.offset?_clearAt ..)).trans info)]

/-- `b` is the arena `a` with one more cell, whose data starts with some bytes and is zeros behind
them. -/
structure Carved (a : Arena) (type : TypeId) (front : List UInt8) (total : Nat) (b : Arena) : Prop
    where
  base : b.region.base = a.region.base
  size : b.region.size = a.region.size
  used : b.used = a.used + total
  below : ∀ j, j < a.used → b.region.byte j = a.region.byte j
  header : b.headerAt a.used = ⟨type.raw, .fresh⟩
  starts : b.region.bytesAt (a.used + headerSize) front.length = front
  zero : ∀ j, a.used + headerSize + front.length ≤ j → j < a.used + total → b.region.byte j = 0

/-- One more cell, whose data is zeros. -/
abbrev Blank (a : Arena) (type : TypeId) (total : Nat) (b : Arena) : Prop := a.Carved type [] total b

theorem blank_allocated (placed : a.Placed) {type : TypeId} (enough : minSize ≤ total)
    (room : a.used + total ≤ a.region.size) :
    a.Blank type total ((a.reserve total).setHeader a.nextData ⟨type.raw, .fresh⟩) := by
  have region := region_allocated placed type enough room
  simp only [minSize, headerSize, minDataSize] at enough
  refine ⟨by rw [region]; simp, by rw [region]; simp, rfl, fun j low => ?_, ?_, rfl,
    fun j low high => ?_⟩
  · rw [region, byte_setBytes_apart (.inl (by omega)),
      byte_setBytes_apart (.inl low), byte_clearAt, if_neg (by omega)]
  · rw [headerAt, region, wordAt_setBytes_apart (.inl (Nat.le_refl _)),
      Region.wordAt_setBytes_self, toUInt32_decodeLE_encodeLE, ← Region.wordAt_one,
      Region.wordAt_setBytes_self]
    rfl
  · simp only [headerSize, List.length_nil] at low
    rw [region, byte_setBytes_apart (.inr (by rw [length_encodeLE]; omega)),
      byte_setBytes_apart (.inr (by rw [length_encodeLE]; omega)), byte_clearAt,
      if_pos (by omega)]

section Blank

variable {type : TypeId} {total : Nat}

theorem Carved.firstWord_blank (blank : a.Blank type total b) (enough : minSize ≤ total) :
    b.firstWord a.used = 0 := by
  simp only [minSize, headerSize, minDataSize] at enough
  have zero : b.region.wordAt (a.used + headerSize) 4 = 0 :=
    Region.wordAt_eq_zero fun j low high => blank.zero j low (by
      simp only [headerSize] at high
      omega)
  rw [Arena.firstWord, zero]
  rfl

theorem Carved.firstWord_length {length : Nat}
    (carved : a.Carved type (encodeLE lengthSize (UInt64.ofNat length)) total b) :
    b.firstWord a.used = UInt32.ofNat length := by
  have starts := carved.starts
  rw [length_encodeLE, lengthSize] at starts
  apply UInt32.toNat_inj.mp
  rw [Arena.firstWord, Region.wordAt, starts, UInt64.toNat_toUInt32,
    toNat_decodeLE_encodeLE 4 _ (by decide), UInt64.toNat_ofNat', UInt32.toNat_ofNat']
  omega

/-- The length of a new array is written behind its header. -/
theorem Carved.writeLength (blank : a.Blank type total b) (placed : a.Placed)
    (enough : minSize ≤ total) (room : a.used + total ≤ a.region.size) (length : Nat) :
    a.Carved type (encodeLE lengthSize (UInt64.ofNat length)) total
      { b with region := b.region.writeWord a.nextData 4 (UInt64.ofNat length) } := by
  simp only [minSize, headerSize, minDataSize] at enough
  have offset : b.region.offset? a.nextData 4 = some (a.used + headerSize) := by
    rw [Region.offset?_congr blank.base blank.size]
    exact offset?_data placed (by rw [headerSize]; omega)
  have region := writeWord_of_offset? (UInt64.ofNat length) offset
  refine ⟨?_, ?_, blank.used, fun j low => ?_, ?_, ?_, fun j low high => ?_⟩
  · rw [region, Region.base_setBytes]
    exact blank.base
  · rw [region, Region.size_setBytes]
    exact blank.size
  · rw [region, byte_setBytes_apart (.inl (by omega))]
    exact blank.below j low
  · rw [← blank.header, headerAt, headerAt, region,
      wordAt_setBytes_apart (.inl (by simp only [headerSize]; omega)),
      byte_setBytes_apart (.inl (by simp only [headerSize]; omega))]
  · rw [region, lengthSize, Region.bytesAt_setBytes_self]
  · rw [length_encodeLE] at low
    rw [region, byte_setBytes_apart (.inr (by rw [length_encodeLE]; exact low))]
    exact blank.zero j (Nat.le_trans (Nat.le_add_right ..) low) high

theorem Carved.object (blank : a.Blank type total b) (room : a.used + total ≤ a.region.size)
    (sized : sizeFrom types type 0 = some total) : a.Extended types type total b := by
  have first := Carved.firstWord_blank blank (size_le_of_sizeFrom sized).1
  exact ⟨blank.base, blank.size, blank.used, room, blank.below, blank.header, first ▸ sized,
    fun p _ j low high => blank.zero j (Nat.le_trans (Nat.le_add_right ..) low) high⟩

/-- A new array, once its length is written. -/
theorem Carved.array {length : Nat}
    (carved : a.Carved type (encodeLE lengthSize (UInt64.ofNat length)) total b)
    (room : a.used + total ≤ a.region.size) (array : types.element? type = some element)
    (sized : sizeFrom types type (UInt32.ofNat length) = some total) :
    a.Extended types type total b := by
  refine ⟨carved.base, carved.size, carved.used, room, carved.below, carved.header,
    carved.firstWord_length ▸ sized, fun p mem j low high => carved.zero j ?_ high⟩
  rw [placesIn_of_element array] at mem
  obtain ⟨i, _, rfl⟩ := List.mem_map.mp mem
  rw [length_encodeLE]
  omega

end Blank

/-! ## Collections -/

variable {M : List UInt64}

/-- A collection takes objects away and leaves the others as they are. -/
theorem Settled.regular (settled : Settled a types cells M b) (regular : a.Regular types cells) :
    b.Regular types (cells.map (Cell.settled M)) := by
  refine ⟨settled.placed regular.placed, settled.tiled, fun y mem => ?_⟩
  obtain ⟨x, there, _, rfl⟩ := mem_objectsOf_settled.mp mem
  exact GcInfo.isMarked_survived (regular.clear x there)

theorem object?_settled (wf : types.WellFormed) (settled : Settled a types cells M b)
    (regular : a.Regular types cells) (r : UInt64) :
    b.object? types r = if r ∈ M then a.object? types r else none := by
  have regular' := settled.regular regular
  have kept : ∀ c ∈ cells, ∀ x, c.object = some x → x.address ∈ M →
      b.wordsAt types c.offset x.type = a.wordsAt types c.offset x.type :=
    fun c mem x live kept =>
      regular.tiled.wordsAt_congr wf regular.placed mem live (settled.data c mem x live kept)
  apply Option.ext
  intro o
  rw [object?_eq_some_iff regular']
  constructor
  · rintro ⟨d, mem, y, live, rfl, rfl⟩
    obtain ⟨c, there, rfl⟩ := List.mem_map.mp mem
    obtain ⟨x, object, left⟩ := Option.bind_eq_some_iff.mp live
    split at left
    · rename_i stays
      cases left
      show (if x.address ∈ M then a.object? types x.address else none) = _
      rw [if_pos stays, object?_eq_some_iff regular]
      exact ⟨c, there, x, object, rfl, congrArg _ (kept c there x object stays)⟩
    · cases left
  · intro found
    split at found
    · rename_i stays
      obtain ⟨c, mem, x, live, rfl, rfl⟩ := (object?_eq_some_iff regular).mp found
      refine ⟨c.settled M, List.mem_map_of_mem mem, x.aged, ?_, rfl, ?_⟩
      · simp [Cell.settled, live, stays]
      · exact congrArg _ (kept c mem x live stays).symm
    · cases found

section

variable (wf : types.WellFormed) (regular : a.Regular types cells) (at_ : a.At types cells r o c x)

include wf regular at_

/-- The slots of an object are its places of reference types. -/
theorem At.mem_slots {s : UInt64 × TypeId} :
    s ∈ a.slots types x.type x.address ↔ ∃ (i : Nat) (p : Nat × TypeId),
      (o.places types)[i]? = some p ∧ types.isReference p.2 = true ∧
        s = (r + UInt64.ofNat p.1, p.2) := by
  rw [at_.places, at_.address]
  cases object : types.layout? x.type with
  | some layout =>
    unfold slots
    rw [placesIn_of_layout object, shape?_of_layout? object]
    constructor
    · intro mem
      obtain ⟨f, field, rfl⟩ := List.mem_map.mp mem
      obtain ⟨there, reference⟩ := List.mem_filter.mp field
      obtain ⟨i, here⟩ := List.getElem?_of_mem there
      have fits := wf.fits x.type layout object f there
      exact ⟨i, (f.offset, f.type), by rw [List.getElem?_map, here, Option.map_some],
        fits.reference ▸ reference, rfl⟩
    · rintro ⟨i, p, place, reference, rfl⟩
      rw [List.getElem?_map] at place
      obtain ⟨f, here, rfl⟩ := Option.map_eq_some_iff.mp place
      have there := List.mem_of_getElem? here
      have fits := wf.fits x.type layout object f there
      exact List.mem_map.mpr ⟨f, List.mem_filter.mpr ⟨there, fits.reference.trans reference⟩, rfl⟩
  | none =>
    cases array : types.element? x.type with
    | some element =>
      have inside := regular.tiled.minSize_inside regular.placed at_.mem
      have length : a.lengthAt r = (a.firstWord c.offset).toNat := by
        rw [lengthAt, ← at_.address, at_.holds.address, read32?_dataAt regular.placed inside]
        rfl
      unfold slots
      rw [placesIn_of_element array, shape?_of_element? array, length]
      dsimp only
      constructor
      · intro mem
        split at mem
        · rename_i reference
          obtain ⟨i, bound, rfl⟩ := List.mem_map.mp mem
          rw [List.mem_range] at bound
          refine ⟨i, (lengthSize + i * types.size element, element), ?_, reference, ?_⟩
          · rw [List.getElem?_map, List.getElem?_range bound, Option.map_some]
          · rw [size_of_isReference reference, Nat.mul_comm]
        · cases mem
      · rintro ⟨i, p, place, reference, rfl⟩
        rw [List.getElem?_map] at place
        obtain ⟨j, here, rfl⟩ := Option.map_eq_some_iff.mp place
        rw [if_pos reference]
        refine List.mem_map.mpr ⟨j, List.mem_of_getElem? here, ?_⟩
        rw [size_of_isReference reference, Nat.mul_comm]
    | none =>
      constructor
      · intro mem
        unfold slots at mem
        split at mem
        · rename_i shape
          simp [TypeTable.layout?, shape, Shape.layout?] at object
        · rename_i shape
          simp [TypeTable.element?, shape, Shape.element?] at array
        · cases mem
      · rintro ⟨i, p, place, _⟩
        rw [placesIn_of_plain object array] at place
        cases place

/-- The references of an object are its words of reference types, without the null ones. -/
theorem At.mem_references {w : UInt64} :
    w ∈ a.references types x ↔ w ≠ 0 ∧ ∃ (i : Nat) (p : Nat × TypeId),
      (o.places types)[i]? = some p ∧ types.isReference p.2 = true ∧ o.words[i]? = some w := by
  have read : ∀ (i : Nat) (p : Nat × TypeId), (o.places types)[i]? = some p →
      types.isReference p.2 = true →
      a.region.read64? (r + UInt64.ofNat p.1) = o.words[i]? := by
    intro i p place reference
    have offset := (at_.offset? wf regular place).2
    rw [size_of_isReference reference] at offset
    rw [at_.places] at place
    rw [Region.read64?, Region.readWord?_of_offset? offset, at_.words, wordsAt, List.getElem?_map,
      place, Option.map_some]
    unfold valueAt
    rw [size_of_isReference reference]
    rfl
  unfold references
  rw [List.mem_filter, List.mem_filterMap]
  constructor
  · rintro ⟨⟨s, slot, value⟩, nonnull⟩
    obtain ⟨i, p, place, reference, rfl⟩ := (at_.mem_slots wf regular).mp slot
    rw [read i p place reference] at value
    exact ⟨of_decide_eq_true nonnull, i, p, place, reference, value⟩
  · rintro ⟨nonnull, i, p, place, reference, value⟩
    refine ⟨⟨_, (at_.mem_slots wf regular).mpr ⟨i, p, place, reference, rfl⟩, ?_⟩,
      decide_eq_true nonnull⟩
    rw [read i p place reference]
    exact value

end

end Objects

end Arena

namespace Collector

variable {c : Collector} {types : TypeTable} {type : TypeId}

theorem fit?_eq_some {a : Arena} {dataSize total : Nat} (fits : a.fit? dataSize = some total) :
    totalSize? dataSize = some total ∧ total ≤ a.capacity - a.used := by
  obtain ⟨sized, room⟩ := Option.filter_eq_some_iff.mp fits
  exact ⟨sized, of_decide_eq_true room⟩

theorem allocate_spec (types : TypeTable) (type : TypeId) (placed : c.heap.Placed)
    (dataSize : Nat) :
    (c.heap.fit? dataSize = none ∧ allocate types type dataSize c
        = .error (.heapExhausted dataSize c.heap.available) c) ∨
      ∃ total c', c.heap.fit? dataSize = some total ∧ totalSize? dataSize = some total ∧
        c.heap.used + total ≤ c.heap.region.size ∧
        allocate types type dataSize c = .ok c.heap.nextData c' ∧
        c.heap.Blank type total c'.heap := by
  obtain ⟨heap, stats, journal, options⟩ := c
  unfold allocate
  dsimp only
  cases fits : heap.fit? dataSize with
  | none => exact .inl ⟨rfl, rfl⟩
  | some total =>
    obtain ⟨sized, room⟩ := fit?_eq_some fits
    have enough := minSize_le_of_totalSize? sized
    simp only [minSize, headerSize, minDataSize, Arena.capacity] at enough room
    have inside : heap.used + total ≤ heap.region.size := by omega
    exact .inr ⟨total, ⟨_, _, _, _⟩, rfl, sized, inside, rfl,
      Arena.blank_allocated placed (minSize_le_of_totalSize? sized) inside⟩

theorem newObject_spec (placed : c.heap.Placed) {layout : TypeSystem.Layout}
    (object : types.layout? type = some layout) :
    (c.heap.fit? (max layout.size minDataSize) = none ∧ newObject types type c
        = .error (.heapExhausted (max layout.size minDataSize) c.heap.available) c) ∨
      ∃ total c', c.heap.fit? (max layout.size minDataSize) = some total ∧
        newObject types type c = .ok c.heap.nextData c' ∧
        c.heap.Extended types type total c'.heap := by
  unfold newObject
  rw [object]
  dsimp only
  rcases allocate_spec types type placed (max layout.size minDataSize) with
    failed | ⟨total, c', fits, sized, room, run, blank⟩
  · exact .inl failed
  · refine .inr ⟨total, c', fits, run, blank.object room ?_⟩
    unfold Arena.sizeFrom
    rw [shape?_of_layout? object]
    exact sized

theorem newArray_spec (placed : c.heap.Placed) (array : types.element? type = some element)
    {length : Nat} (small : length < 2 ^ 31) :
    (c.heap.fit? (arrayDataSize (types.size element) length) = none ∧
        newArray types type length c = .error
          (.heapExhausted (arrayDataSize (types.size element) length) c.heap.available) c) ∨
      ∃ total c', c.heap.fit? (arrayDataSize (types.size element) length) = some total ∧
        newArray types type length c = .ok c.heap.nextData c' ∧
        c.heap.Extended types type total c'.heap ∧
        c'.heap.firstWord c.heap.used = UInt32.ofNat length := by
  unfold newArray
  rw [array]
  dsimp only
  have natural : (0 : Int) ≤ length ∧ (length : Int) < 0x80000000 := by omega
  rw [if_pos natural, Int.toNat_natCast]
  rcases allocate_spec types type placed
      (arrayDataSize (types.size element) length) with
    ⟨full, failed⟩ | ⟨total, c', fits, sized, room, run, blank⟩
  · exact .inl ⟨full, bind_of_error failed⟩
  · have sized : Arena.sizeFrom types type (UInt32.ofNat length) = some total := by
      have value : (UInt32.ofNat length).toNat = length := by
        rw [UInt32.toNat_ofNat']
        omega
      unfold Arena.sizeFrom
      rw [shape?_of_element? array]
      dsimp only
      rw [if_pos (UInt32.lt_iff_toNat_lt.mpr (by rw [value]; exact small)), value]
      exact sized
    have carved := Arena.Carved.writeLength blank placed (Arena.size_le_of_sizeFrom sized).1 room length
    exact .inr ⟨total, setLength c.heap.nextData length c', fits, bind_of_ok run,
      carved.array room array sized, carved.firstWord_length⟩

end Collector

end Heap

end ManagedCode
