import ManagedCode.Proofs.Heap.Rejection
import Mathlib.Algebra.Group.Int.Defs

/-!
# Allocations

An allocation is granted exactly if what is asked for makes sense and fits, whatever the heap holds. It
cuts its bytes from the end of the used part, fills in the header and the length, and touches nothing
before them. An allocation that fails touches nothing at all.

* `Request.Demands`: the bytes of data that a request needs, for requests that make sense.
* `Collector.Allocates`: what a program sees of an arena with one more cell.
* `Request.run_exact`: both ways in which a request can end.
* `Collector.allocation_exact`: when a request is granted, and what is left either way.
-/

namespace ManagedCode.Heap

open Memory (Region)
open TypeSystem (TypeId TypeTable Shape Layout)
open Collector (allocate newArray newObject setLength)

/-! ## Definitions -/

namespace Request

def type : Request → TypeId
  | object type => type
  | array type _ => type

/-- The bytes that the data starts with; the rest of it is zeros. -/
def front : Request → List UInt8
  | object _ => []
  | array _ length => encodeLE lengthSize (UInt64.ofNat length.toNat)

/-- A request makes sense and needs so many bytes of data: those of the fields of a defined class, or
those of a length and so many elements. -/
inductive Demands (types : TypeTable) : Request → Nat → Prop where
  | object {type : TypeId} {layout : Layout}
      (defined : types.shape? type = some (.object (some layout))) :
      Demands types (.object type) layout.size
  | array {type element : TypeId} {length : Int}
      (array : types.shape? type = some (.array element)) (natural : 0 ≤ length)
      (small : length ≤ 2 ^ 31 - 1) :
      Demands types (.array type length) (types.size element * length.toNat + 4)

/-- The bytes of an allocation: a header and at least four bytes of data. -/
def total (dataSize : Nat) : Nat := 5 + max 4 dataSize

/-- There is room for so many bytes of data, and a tombstone can hold their number. -/
def Fits (c : Collector) (dataSize : Nat) : Prop :=
  total dataSize ≤ 2 ^ 32 - 1 ∧ total dataSize ≤ c.heap.available

end Request

/-- What an allocation does, as a program sees it: the data starts behind the header at the old end of
the used part, and what lies before that end stays. -/
structure Collector.Allocates (c : Collector) (request : Request) (dataSize : Nat) (data : UInt64)
    (c' : Collector) : Prop where
  address : data.toNat = c.heap.next.toNat + 5
  header : c'.heap.header? data = some ⟨request.type.raw, ⟨0⟩⟩
  length : ∀ type length, request = .array type length →
    ∃ word, c'.heap.region.read32? data = some word ∧ (word.toNat : Int) = length
  zero : ∀ k, request.front.length ≤ k → k < max 4 dataSize →
    c'.heap.region.read8? (data + UInt64.ofNat k) = some 0
  next : c'.heap.next.toNat = c.heap.next.toNat + Request.total dataSize
  earlier : ∀ address, address < c.heap.next →
    c'.heap.region.read8? address = c.heap.region.read8? address
  place : c'.heap.base = c.heap.base ∧ c'.heap.capacity = c.heap.capacity
  noted : c.NotesAllocation data c'

/-! ## Cells -/

section Cells

variable {a b : Arena} {type : TypeId} {total : Nat}

/-- A byte at an offset, read at its address. -/
theorem read8?_of_offset {r : Region} {address : UInt64} {j : Nat}
    (place : address.toNat = r.base.toNat + j) (inside : j < r.size) :
    r.read8? address = some (r.byte j) := by
  rw [Region.read8?, Region.readWord?_of_offset? (Region.offset?_of_inside place inside),
    Option.map_some, Region.wordAt_one]

theorem Arena.toNat_next (placed : a.Placed) : a.next.toNat = a.region.base.toNat + a.used := by
  have below := placed.below
  have used := placed.used_le
  rw [next, Arena.base, UInt64.toNat_add, UInt64.toNat_ofNat']
  omega

theorem Arena.Carved.placed {front : List UInt8} (carved : a.Carved type front total b)
    (placed : a.Placed) (room : a.used + total ≤ a.region.size) : b.Placed := by
  refine ⟨?_, ?_⟩
  · rw [carved.base, carved.size]
    exact placed.below
  · rw [carved.used, carved.size]
    exact room

end Cells

section Requests

variable {types : TypeTable} {c c' : Collector} {request : Request} {dataSize : Nat}

theorem Request.Fits.room (fits : Request.Fits c dataSize) :
    c.heap.used + Request.total dataSize ≤ c.heap.region.size := by
  have enough := fits.2
  simp only [Request.total, Arena.available, Arena.capacity] at enough ⊢
  omega

/-- Where something fits, no more has been handed out than there is. -/
theorem Request.Fits.placed (fits : Request.Fits c dataSize)
    (below : c.heap.region.base.toNat + c.heap.region.size < 2 ^ 64) : c.heap.Placed :=
  ⟨below, Nat.le_trans (Nat.le_add_right ..) fits.room⟩

/-- What a program sees of one more cell. -/
theorem Arena.Carved.allocates (placed : c.heap.Placed)
    (carved : c.heap.Carved request.type request.front (Request.total dataSize) c'.heap)
    (demands : request.Demands types dataSize) (fits : Request.Fits c dataSize)
    (noted : c.NotesAllocation c.heap.nextData c') :
    c.Allocates request dataSize c.heap.nextData c' := by
  have below := placed.below
  have used := placed.used_le
  have room := fits.room
  have placed' := carved.placed placed room
  have total : Request.total dataSize = 5 + max 4 dataSize := rfl
  have inside : c.heap.used + headerSize ≤ c.heap.region.size := by
    rw [headerSize]
    omega
  have place : c.heap.nextData.toNat = c.heap.region.base.toNat + c.heap.used + headerSize :=
    toNat_dataAt placed inside
  have data : c.heap.nextData = c'.heap.dataAt c.heap.used :=
    (dataAt_congr carved.base c.heap.used).symm
  refine ⟨?_, ?_, ?_, fun k low high => ?_, ?_, fun address earlier => ?_, ⟨carved.base, carved.size⟩,
    noted⟩
  · rw [place, Arena.toNat_next placed]
    rfl
  · rw [data, header?_dataAt placed' (by rw [carved.size]; exact inside), carved.header]
    rfl
  · rintro type length rfl
    cases demands with
    | array _ natural small =>
      refine ⟨c'.heap.firstWord c.heap.used, ?_, ?_⟩
      · rw [data]
        refine read32?_dataAt placed' ?_
        rw [carved.size, minSize, headerSize, minDataSize]
        omega
      · have carved : c.heap.Carved _ (encodeLE lengthSize (UInt64.ofNat length.toNat)) _ _ := carved
        rw [carved.firstWord_length, UInt32.toNat_ofNat']
        omega
  · have offset : (c.heap.nextData + UInt64.ofNat k).toNat
        = c'.heap.region.base.toNat + (c.heap.used + headerSize + k) := by
      rw [UInt64.toNat_add, UInt64.toNat_ofNat', place, carved.base]
      rw [headerSize] at *
      omega
    rw [read8?_of_offset offset (by rw [carved.size, headerSize]; omega),
      carved.zero _ (by omega) (by rw [headerSize]; omega)]
  · rw [Arena.toNat_next placed', Arena.toNat_next placed, carved.base, carved.used]
    omega
  · rw [UInt64.lt_iff_toNat_lt, Arena.toNat_next placed] at earlier
    rw [Region.read8?, Region.read8?]
    refine congrArg _ (Region.readWord?_congr carved.base carved.size fun j low high => ?_)
    rw [carved.base] at low high
    exact carved.below j (by omega)

/-! ## Requests -/

instance (c : Collector) (dataSize : Nat) : Decidable (Request.Fits c dataSize) :=
  inferInstanceAs (Decidable (_ ∧ _))

theorem Request.Demands.unique {m n : Nat} (first : request.Demands types m)
    (second : request.Demands types n) : m = n := by
  cases first with
  | object defined =>
    cases second with
    | object defined' => cases defined.symm.trans defined'; rfl
  | array array =>
    cases second with
    | array array' => cases array.symm.trans array'; rfl

theorem fit?_eq (c : Collector) (dataSize : Nat) :
    c.heap.fit? dataSize
      = if Request.Fits c dataSize then some (Request.total dataSize) else none := by
  have total : headerSize + max dataSize minDataSize = Request.total dataSize := by
    rw [Request.total, headerSize, minDataSize, Nat.max_comm]
  unfold Arena.fit? totalSize?
  rw [total]
  by_cases small : Request.total dataSize ≤ 2 ^ 32 - 1
  · have small' : Request.total dataSize ≤ maxObjectSize := small
    by_cases room : Request.total dataSize ≤ c.heap.available
    · rw [if_pos small', if_pos ⟨small, room⟩]
      simp [room]
    · rw [if_pos small', if_neg fun fits => room fits.2]
      simp [Nat.lt_of_not_le room]
  · have small' : ¬ Request.total dataSize ≤ maxObjectSize := small
    rw [if_neg small', if_neg fun fits => small fits.1]
    rfl

/-- An allocation is refused for want of room, or cuts a cell of zeros. -/
theorem allocate_exact (types : TypeTable) (type : TypeId)
    (below : c.heap.region.base.toNat + c.heap.region.size < 2 ^ 64) (dataSize : Nat) :
    (¬ Request.Fits c dataSize ∧ ∃ e, allocate types type dataSize c = .error e c) ∨
      Request.Fits c dataSize ∧ ∃ c', allocate types type dataSize c
          = .ok c.heap.nextData c' ∧
        c.heap.Blank type (Request.total dataSize) c'.heap := by
  have fit := fit?_eq c dataSize
  by_cases fits : Request.Fits c dataSize
  · rw [if_pos fits] at fit
    rcases Collector.allocate_spec types type (fits.placed below) dataSize with
      ⟨full, _⟩ | ⟨total, c', fit', _, _, run, blank⟩
    · cases full.symm.trans fit
    · cases fit'.symm.trans fit
      exact .inr ⟨fits, c', run, blank⟩
  · rw [if_neg fits] at fit
    refine .inl ⟨fits, .heapExhausted dataSize c.heap.available, ?_⟩
    obtain ⟨heap, stats, journal, options⟩ := c
    unfold allocate
    dsimp only at fit ⊢
    rw [fit]

/-- The two ways in which a request ends: it is refused and leaves all as it was, because it makes no
sense or does not fit, or it is granted. -/
def Request.Exact (types : TypeTable) (c : Collector) (request : Request) : Prop :=
  ((∀ dataSize, request.Demands types dataSize → ¬ Request.Fits c dataSize) ∧
      ∃ e, request.run types c = .error e c) ∨
    ∃ dataSize c', request.Demands types dataSize ∧ Request.Fits c dataSize ∧
      request.run types c = .ok c.heap.nextData c' ∧
      c.Allocates request dataSize c.heap.nextData c'

/-- A class is padded to four bytes of data, which the total has anyway. -/
theorem fits_padded (c : Collector) (dataSize : Nat) :
    Request.Fits c (max dataSize minDataSize) ↔ Request.Fits c dataSize := by
  unfold Request.Fits Request.total minDataSize
  omega

theorem newObject_exact (types : TypeTable)
    (below : c.heap.region.base.toNat + c.heap.region.size < 2 ^ 64) (type : TypeId) :
    Request.Exact types c (.object type) := by
  cases object : types.layout? type with
  | none =>
    refine .inl ⟨fun dataSize demands => ?_, .notAClass type.raw, ?_⟩
    · cases demands with
      | object defined =>
        rw [TypeTable.layout?, defined] at object
        cases object
    · show newObject types type c = _
      unfold newObject
      rw [object]
      rfl
  | some layout =>
    have demands : Request.Demands types (.object type) layout.size :=
      .object (shape?_of_layout? object)
    have run : Request.run types (.object type) c
        = allocate types type (max layout.size minDataSize) c := by
      show newObject types type c = _
      unfold newObject
      rw [object]
    rcases allocate_exact types type below (max layout.size minDataSize) with
      ⟨full, e, failed⟩ | ⟨fits, c', done, blank⟩
    · refine .inl ⟨fun dataSize other => ?_, e, run.trans failed⟩
      cases other.unique demands
      rwa [fits_padded] at full
    · have total : Request.total (max layout.size minDataSize) = Request.total layout.size := by
        unfold Request.total minDataSize
        omega
      rw [total] at blank
      rw [fits_padded] at fits
      exact .inr ⟨layout.size, c', demands, fits, run.trans done,
        blank.allocates (fits.placed below) demands fits (Request.noted (run.trans done))⟩

theorem newArray_exact (types : TypeTable)
    (below : c.heap.region.base.toNat + c.heap.region.size < 2 ^ 64) (type : TypeId) (length : Int) :
    Request.Exact types c (.array type length) := by
  cases array : types.element? type with
  | none =>
    refine .inl ⟨fun dataSize demands => ?_, .notAnArray type.raw, ?_⟩
    · cases demands with
      | array known =>
        rw [TypeTable.element?, known] at array
        cases array
    · show newArray types type length c = _
      unfold newArray
      rw [array]
      rfl
  | some element =>
    by_cases natural : 0 ≤ length ∧ length < 0x80000000
    · have demands : Request.Demands types (.array type length)
          (arrayDataSize (types.size element) length.toNat) :=
        .array (shape?_of_element? array) natural.1 (by omega)
      have run : Request.run types (.array type length) c
          = (allocate types type (arrayDataSize (types.size element) length.toNat)
              >>= fun data => do
                modify (setLength data length.toNat)
                return data) c := by
        show newArray types type length c = _
        unfold newArray
        rw [array]
        dsimp only
        rw [if_pos natural]
      rcases allocate_exact types type below (arrayDataSize (types.size element) length.toNat) with
        ⟨full, e, failed⟩ | ⟨fits, c', done, blank⟩
      · refine .inl ⟨fun dataSize other => ?_, e, run.trans (bind_of_error failed)⟩
        cases other.unique demands
        exact full
      · have placed := fits.placed below
        have enough : minSize ≤ Request.total (arrayDataSize (types.size element) length.toNat) := by
          unfold minSize Request.total headerSize minDataSize
          omega
        have carved := Arena.Carved.writeLength blank placed enough fits.room length.toNat
        have granted := run.trans (bind_of_ok done)
        exact .inr ⟨_, setLength c.heap.nextData length.toNat c', demands, fits, granted,
          carved.allocates placed demands fits (Request.noted granted)⟩
    · refine .inl ⟨fun dataSize demands => ?_, .invalidLength length, ?_⟩
      · cases demands with
        | array _ low high => exact absurd ⟨low, by omega⟩ natural
      · show newArray types type length c = _
        unfold newArray
        rw [array]
        dsimp only
        rw [if_neg natural]
        rfl

theorem Request.run_exact (types : TypeTable)
    (below : c.heap.region.base.toNat + c.heap.region.size < 2 ^ 64) (request : Request) :
    request.Exact types c := by
  cases request with
  | object type => exact newObject_exact types below type
  | array type length => exact newArray_exact types below type length

end Requests

/-- **Allocations are exact.** Whatever a heap holds, an object of a class or an array is allocated
exactly if the class is defined, or the type is one of arrays and the length is natural and below
2 ^ 31, and the allocation takes less than 2 ^ 32 bytes and no more than are left. Its data then starts
five bytes behind the old end of the used part. The header before it holds the type and a cleared byte
for the collector; the length of an array comes first, and the rest is zeros. The used part grows by the
allocation, and no byte before it changes. An allocation that fails changes nothing. -/
theorem Collector.allocation_exact (types : TypeTable) {c : Collector}
    (below : c.heap.region.base.toNat + c.heap.region.size < 2 ^ 64) (request : Request) :
    ((∃ data c', request.run types c = .ok data c') ↔
      ∃ dataSize, request.Demands types dataSize ∧ 5 + max 4 dataSize ≤ 2 ^ 32 - 1 ∧
        5 + max 4 dataSize ≤ c.heap.available) ∧
    (∀ data c', request.run types c = .ok data c' →
      ∃ dataSize, request.Demands types dataSize ∧ c.Allocates request dataSize data c') ∧
    ∀ e c', request.run types c = .error e c' → c' = c := by
  rcases request.run_exact types below with ⟨never, e, failed⟩ | ⟨size, c', demands, fits, run, done⟩
  · refine ⟨⟨?_, ?_⟩, ?_, ?_⟩
    · rintro ⟨data, c', run⟩
      cases failed.symm.trans run
    · rintro ⟨size, demands, fits⟩
      exact absurd fits (never size demands)
    · intro data c' run
      cases failed.symm.trans run
    · intro e' c' other
      cases failed.symm.trans other
      rfl
  · refine ⟨⟨?_, ?_⟩, ?_, ?_⟩
    · exact fun _ => ⟨size, demands, fits⟩
    · exact fun _ => ⟨_, c', run⟩
    · intro data c'' other
      cases run.symm.trans other
      exact ⟨size, demands, done⟩
    · intro e c'' failed
      cases run.symm.trans failed

/-- A page has room for an array of 1021 integers, and none for one of 1022. -/
theorem Collector.allocation_exact_page :
    (∃ data c', Request.run rowTypes (.array (.ofIndex 4) 1021) blank = .ok data c' ∧
      ∃ dataSize, blank.Allocates (.array (.ofIndex 4) 1021) dataSize data c') ∧
    ∃ e, Request.run rowTypes (.array (.ofIndex 4) 1022) blank = .error e blank := by
  have below : blank.heap.region.base.toNat + blank.heap.region.size < 2 ^ 64 := by decide
  have array : rowTypes.shape? (.ofIndex 4) = some (.array (.ofIndex 0)) := by cbv
  have four : rowTypes.size (.ofIndex 0) = 4 := by decide +kernel
  have demands (length : Nat) (small : (length : Int) ≤ 2 ^ 31 - 1) :
      Request.Demands rowTypes (.array (.ofIndex 4) length) (4 * length + 4) := by
    have all := Request.Demands.array array (Int.natCast_nonneg length) small
    rwa [four, Int.toNat_natCast] at all
  constructor
  · obtain ⟨granted, spec, _⟩ := allocation_exact rowTypes below (.array (.ofIndex 4) 1021)
    obtain ⟨data, c', run⟩ := granted.mpr ⟨_, demands 1021 (by decide), by decide, by decide⟩
    obtain ⟨dataSize, _, allocates⟩ := spec data c' run
    exact ⟨data, c', run, dataSize, allocates⟩
  · obtain ⟨granted, _, failed⟩ := allocation_exact rowTypes below (.array (.ofIndex 4) 1022)
    cases run : Request.run rowTypes (.array (.ofIndex 4) 1022) blank with
    | ok data c' =>
      obtain ⟨dataSize, needs, _, room⟩ := granted.mp ⟨data, c', run⟩
      cases needs.unique (demands 1022 (by decide))
      exact absurd room (by decide)
    | error e c' =>
      cases failed e c' run
      exact ⟨e, rfl⟩

end ManagedCode.Heap
