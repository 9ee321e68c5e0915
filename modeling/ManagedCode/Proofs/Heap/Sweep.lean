import ManagedCode.Proofs.Heap.Marking

/-!
# What a sweep leaves

The sweep goes over the live objects in order. An object with the mark loses it and counts one more
collection survived; any other is overwritten by a tombstone of its size. Each step writes inside
the object's own cell only, so the row of cells stays as it is (`Swept.tiled`).

* `sweepOne_live`, `sweepOne_dead`: what one step does to the arena and to the report.
* `sweepAll_spec`: a sweep of a row of cells succeeds and sweeps each cell.
-/

namespace ManagedCode.Heap

open Memory (Region)
open TypeSystem (TypeId TypeTable)

def Cell.swept (c : Cell) : Cell :=
  { c with object := c.object.bind fun x =>
      if x.info.isMarked then some { x with info := x.info.unmarked.survived } else none }

def bytesOf (objects : List HeapObject) : Nat :=
  objects.foldr (fun x total => x.size + total) 0

def Report.after (report : Report) (objects : List HeapObject) : Report :=
  let live := objects.filter (·.info.isMarked)
  let dead := objects.filter (!·.info.isMarked)
  { report with
    deallocated := report.deallocated ++ (dead.map (·.address)).toArray
    freedBytes := report.freedBytes + bytesOf dead
    liveObjects := report.liveObjects + live.length
    liveBytes := report.liveBytes + bytesOf live }

theorem Report.after_cons (report : Report) (x : HeapObject) (objects : List HeapObject) :
    (report.after [x]).after objects = report.after (x :: objects) := by
  cases h : x.info.isMarked <;> simp [Report.after, bytesOf, h] <;> omega

namespace Arena

variable {a b : Arena} {types : TypeTable} {cells : List Cell}

/-- Each of the cells of `a` is swept in `b`, and nothing else changed. -/
structure Swept (a : Arena) (types : TypeTable) (cells : List Cell) (b : Arena) : Prop where
  base : b.region.base = a.region.base
  size : b.region.size = a.region.size
  used : b.used = a.used
  read : ∀ c ∈ cells, b.cell types c.offset = .ok (c.size, c.swept.object)
  data : ∀ c ∈ cells, ∀ x, c.object = some x → x.info.isMarked = true →
    a.SameData b c.offset c.size
  outside : ∀ i, (∀ c ∈ cells, i < c.offset ∨ c.offset + c.size ≤ i) →
    b.region.byte i = a.region.byte i

variable {offset : Nat}

/-- A row whose cells hold other objects. -/
theorem Tiled.map {f : Cell → Cell} (tiled : a.Tiled types offset cells) (used : b.used = a.used)
    (place : ∀ c, (f c).offset = c.offset ∧ (f c).size = c.size)
    (read : ∀ c ∈ cells, b.cell types c.offset = .ok (c.size, (f c).object)) :
    b.Tiled types offset (cells.map f) := by
  induction cells generalizing offset with
  | nil => exact Eq.trans tiled used.symm
  | cons c rest ih =>
    obtain ⟨start, _, later⟩ := tiled
    refine ⟨(place c).1.trans start, ?_, ?_⟩
    · rw [(place c).2, ← start]
      exact read c List.mem_cons_self
    · rw [(place c).2]
      exact ih later fun d mem => read d (List.mem_cons_of_mem _ mem)

theorem Swept.tiled (swept : Swept a types cells b) (tiled : a.Tiled types 0 cells) :
    b.Tiled types 0 (cells.map Cell.swept) :=
  tiled.map swept.used (fun _ => ⟨rfl, rfl⟩) swept.read

theorem Swept.placed (swept : Swept a types cells b) (placed : a.Placed) : b.Placed :=
  placed.congr swept.base swept.size swept.used

/-! ## One step -/

section Step

variable {a : Arena} {types : TypeTable} {c : Cell} {x : HeapObject}

section

variable (placed : a.Placed) (inside : c.offset + minSize ≤ a.region.size)
  (holds : a.Holds types c.offset x) (info : GcInfo)

include placed inside holds info

/-- The collector's byte of an object is the only one that `setInfo` changes. -/
theorem byte_setInfo :
    (a.setInfo x.address info).region = a.region.setByte (c.offset + 4) info.byte := by
  apply setInfo_eq
  rw [holds.address]
  simp only [minSize] at inside
  exact offset?_info placed (by omega)

/-- An object with another collector's byte. -/
theorem holds_setInfo : (a.setInfo x.address info).Holds types c.offset { x with info } := by
  have region := byte_setInfo placed inside holds info
  have header := holds.type
  simp only [headerAt, Header.mk.injEq] at header
  refine ⟨?_, ?_, ?_⟩
  · exact holds.address.trans (dataAt_congr (by rw [region, Region.base_setByte]) _).symm
  · have type : ((a.region.setByte (c.offset + 4) info.byte).wordAt c.offset 4)
        = a.region.wordAt c.offset 4 :=
      Region.wordAt_congr fun i low high => by
        rw [Region.byte_setByte, if_neg (by omega)]
    rw [headerAt, region, type, header.1, Region.byte_setByte, if_pos rfl]
  · have first : ((a.region.setByte (c.offset + 4) info.byte).wordAt (c.offset + headerSize) 4)
        = a.region.wordAt (c.offset + headerSize) 4 :=
      Region.wordAt_congr fun i low high => by
        simp only [headerSize] at low
        rw [Region.byte_setByte, if_neg (by omega)]
    rw [firstWord, region, first]
    exact holds.size

end

theorem swept_setInfo (placed : a.Placed) (bound : c.offset + c.size ≤ a.used)
    (read : a.cell types c.offset = .ok (c.size, c.object)) (live : c.object = some x)
    (marked : x.info.isMarked = true) :
    Swept a types [c] (a.setInfo x.address x.info.unmarked.survived) := by
  have enough := minSize_le_of_cell read
  have used := placed.used_le
  have inside : c.offset + minSize ≤ a.region.size := by omega
  rw [live, cell_eq_live_iff placed inside] at read
  obtain ⟨holds, same⟩ := read
  have region := byte_setInfo placed inside holds x.info.unmarked.survived
  have byte : ∀ i, i ≠ c.offset + 4 →
      (a.setInfo x.address x.info.unmarked.survived).region.byte i = a.region.byte i := by
    intro i elsewhere
    rw [region, Region.byte_setByte, if_neg elsewhere]
  have base : (a.setInfo x.address x.info.unmarked.survived).region.base = a.region.base := by
    rw [region, Region.base_setByte]
  have size : (a.setInfo x.address x.info.unmarked.survived).region.size = a.region.size := by
    rw [region, Region.size_setByte]
  simp only [minSize, headerSize, minDataSize] at enough
  refine ⟨base, size, rfl, ?_, ?_, ?_⟩
  · intro d mem
    cases List.mem_singleton.mp mem
    have after : c.swept.object = some { x with info := x.info.unmarked.survived } := by
      simp [Cell.swept, live, marked]
    rw [after, cell_eq_live_iff (placed.congr base size rfl) (by rw [size]; exact inside)]
    exact ⟨holds_setInfo placed inside holds _, same⟩
  · intro d mem _ _ _ i low _
    cases List.mem_singleton.mp mem
    simp only [headerSize] at low
    exact byte i (by omega)
  · intro i elsewhere
    have := elsewhere c List.mem_cons_self
    exact byte i (by omega)

/-- The bytes under a tombstone. -/
theorem region_bury (placed : a.Placed) (bound : c.offset + x.size ≤ a.region.size)
    (enough : minSize ≤ x.size) (holds : a.Holds types c.offset x) :
    a.canBury x.address x.size = true ∧
      (a.bury x.address x.size).region
        = (((a.region.clearAt (c.offset + headerSize) (x.size - headerSize)).setBytes
            (c.offset + headerSize) (encodeLE 4 (UInt64.ofNat x.size))).setBytes
              c.offset (encodeLE 4 0)).setBytes (c.offset + 4) (encodeLE 1 0xFF) := by
  simp only [minSize] at enough
  have room : c.offset + headerSize ≤ a.region.size := by omega
  have data : a.region.offset? x.address (x.size - headerSize) = some (c.offset + headerSize) := by
    rw [holds.address]
    exact offset?_data placed (by omega)
  have first : a.region.offset? x.address 4 = some (c.offset + headerSize) := by
    rw [holds.address]
    exact offset?_data placed (by simp only [minDataSize] at enough; omega)
  have type : a.region.offset? (x.address - 5) 4 = some c.offset := by
    rw [holds.address]
    exact offset?_type placed room
  have info : a.region.offset? (x.address - 1) 1 = some (c.offset + 4) := by
    rw [holds.address]
    exact offset?_info placed room
  refine ⟨by rw [canBury, Region.contains, data]; rfl, ?_⟩
  have word : Header.tombstone.type.toUInt64 = 0 := rfl
  have byte : Header.tombstone.info.byte.toUInt64 = 0xFF := rfl
  simp only [bury, Header.write, word, byte]
  rw [Region.clear_of_offset? data,
    Region.writeWord_of_offset? _ ((Region.offset?_clearAt ..).trans first),
    Region.writeWord_of_offset? _ (((Region.offset?_setBytes ..).trans
      (Region.offset?_clearAt ..)).trans type),
    Region.writeWord_of_offset? _ ((((Region.offset?_setBytes ..).trans
      (Region.offset?_setBytes ..)).trans (Region.offset?_clearAt ..)).trans info)]

theorem swept_bury (placed : a.Placed) (bound : c.offset + c.size ≤ a.used)
    (read : a.cell types c.offset = .ok (c.size, c.object)) (live : c.object = some x)
    (unmarked : x.info.isMarked = false) :
    a.canBury x.address x.size = true ∧ Swept a types [c] (a.bury x.address x.size) := by
  have enough := minSize_le_of_cell read
  have used := placed.used_le
  have inside : c.offset + minSize ≤ a.region.size := by omega
  rw [live, cell_eq_live_iff placed inside] at read
  obtain ⟨holds, same⟩ := read
  have small := (size_le_of_sizeFrom holds.size).2
  obtain ⟨can, region⟩ := region_bury placed (by omega) (by omega) holds
  have base : (a.bury x.address x.size).region.base = a.region.base := by rw [region]; simp
  have size : (a.bury x.address x.size).region.size = a.region.size := by rw [region]; simp
  have header : (a.bury x.address x.size).headerAt c.offset = .tombstone := by
    have type : (a.bury x.address x.size).region.wordAt c.offset 4 = 0 := by
      rw [region, Region.wordAt_setBytes_apart (by omega), Region.wordAt_setBytes_self]
      rfl
    have info : (a.bury x.address x.size).region.byte (c.offset + 4) = 0xFF := by
      rw [region, ← Region.wordAt_one, Region.wordAt_setBytes_self]
      rfl
    rw [headerAt, type, info]
    rfl
  have first : ((a.bury x.address x.size).firstWord c.offset).toNat = c.size := by
    rw [firstWord, region, Region.wordAt_setBytes_apart (by simp [headerSize]),
      Region.wordAt_setBytes_apart (by simp [headerSize]), Region.wordAt_setBytes_self,
      UInt64.toNat_toUInt32, toNat_decodeLE_encodeLE 4 _ (by decide), UInt64.toNat_ofNat']
    simp only [maxObjectSize] at small
    omega
  refine ⟨can, base, size, rfl, ?_, ?_, ?_⟩
  · intro d mem
    cases List.mem_singleton.mp mem
    have after : c.swept.object = none := by simp [Cell.swept, live, unmarked]
    rw [after, cell_eq_dead_iff (placed.congr base size rfl) (by rw [size]; exact inside)]
    exact ⟨header, first, enough⟩
  · intro d mem y alive marked
    cases List.mem_singleton.mp mem
    rw [live] at alive
    cases alive
    rw [unmarked] at marked
    cases marked
  · intro i elsewhere
    have apart := elsewhere c List.mem_cons_self
    simp only [minSize, headerSize, minDataSize] at enough
    rw [region, Region.byte_setBytes_apart (by simp; omega),
      Region.byte_setBytes_apart (by simp; omega), Region.byte_setBytes_apart (by simp [headerSize]; omega), Region.byte_clearAt, if_neg]
    simp only [headerSize]
    omega

/-- A cell without a live object is left alone. -/
theorem swept_dead (read : a.cell types c.offset = .ok (c.size, c.object))
    (dead : c.object = none) : Swept a types [c] a := by
  refine ⟨rfl, rfl, rfl, ?_, ?_, fun _ _ => rfl⟩
  · intro d mem
    cases List.mem_singleton.mp mem
    rw [read, show c.swept.object = none by simp [Cell.swept, dead], dead]
  · intro d mem x live _
    cases List.mem_singleton.mp mem
    rw [dead] at live
    cases live

end Step

/-! ## A whole sweep -/

section Whole

variable {a b h : Arena} {types : TypeTable} {c : Cell} {cells : List Cell}

theorem Swept.cell_congr (swept : Swept a types cells b) (placed : a.Placed) {size : Nat}
    {object : Option HeapObject} (read : a.cell types offset = .ok (size, object))
    (bound : offset + size ≤ a.used)
    (apart : ∀ d ∈ cells, offset + size ≤ d.offset ∨ d.offset + d.size ≤ offset) :
    b.cell types offset = .ok (size, object) := by
  have enough := minSize_le_of_cell read
  have used := placed.used_le
  rw [Arena.cell_congr placed swept.base swept.size swept.used (by omega)]
  · exact read
  · intro i low high
    refine swept.outside i fun d mem => ?_
    have := apart d mem
    omega

theorem Swept.cons (placed : a.Placed) (bound : c.offset + c.size ≤ a.used)
    (after : ∀ d ∈ cells, c.offset + c.size ≤ d.offset) (first : Swept a types [c] b)
    (rest : Swept b types cells h) : Swept a types (c :: cells) h := by
  refine ⟨rest.base.trans first.base, rest.size.trans first.size, rest.used.trans first.used,
    ?_, ?_, ?_⟩
  · intro d mem
    rcases List.mem_cons.mp mem with rfl | later
    · refine rest.cell_congr (first.placed placed) (first.read d List.mem_cons_self) ?_ ?_
      · rw [first.used]
        exact bound
      · exact fun e there => .inl (after e there)
    · exact rest.read d later
  · intro d mem x live marked i low high
    rcases List.mem_cons.mp mem with rfl | later
    · have outside := rest.outside i fun e there => .inl (by have := after e there; omega)
      rw [outside]
      exact first.data d List.mem_cons_self x live marked i low high
    · have outside := first.outside i fun e there => by
        cases List.mem_singleton.mp there
        have := after d later
        omega
      rw [rest.data d later x live marked i low high, outside]
  · intro i elsewhere
    rw [rest.outside i fun d mem => elsewhere d (List.mem_cons_of_mem _ mem),
      first.outside i fun d mem => elsewhere d (by
        rw [List.mem_singleton.mp mem]
        exact List.mem_cons_self)]

end Whole

end Arena

namespace Collector

open Arena

variable {x : HeapObject} {c : Collector}

theorem sweepOne_live (types : TypeTable) (c : Collector) (report : Report)
    (marked : x.info.isMarked = true) :
    sweepOne types report x c
      = .ok (report.after [x])
          { c with heap := c.heap.setInfo x.address x.info.unmarked.survived } := by
  simp [sweepOne, Report.after, bytesOf, marked]

theorem sweepOne_dead (types : TypeTable) (report : Report) (unmarked : x.info.isMarked = false)
    (can : c.heap.canBury x.address x.size = true) :
    ∃ journal, sweepOne types report x c
      = .ok (report.after [x]) { c with heap := c.heap.bury x.address x.size, journal } := by
  refine ⟨c.journal.noteDeallocation c.options (types.name x.type) report.collection x.address, ?_⟩
  simp only [sweepOne, unmarked, can, Bool.false_eq_true, if_false, if_true]
  simp [Report.after, bytesOf, unmarked]

/-- A sweep of a row of cells succeeds, sweeps each cell and reports what it found. -/
theorem sweepAll_spec {types : TypeTable} {cells : List Cell} (report : Report)
    (placed : c.heap.Placed) (apart : cells.Pairwise fun d e => d.offset + d.size ≤ e.offset)
    (read : ∀ d ∈ cells, c.heap.cell types d.offset = .ok (d.size, d.object)
      ∧ d.offset + d.size ≤ c.heap.used) :
    ∃ heap journal, sweepAll types (objectsOf cells) report c
        = .ok (report.after (objectsOf cells)) { c with heap, journal } ∧
      Swept c.heap types cells heap := by
  induction cells generalizing c report with
  | nil =>
    refine ⟨c.heap, c.journal, ?_, rfl, rfl, rfl, ?_, ?_, fun _ _ => rfl⟩
    · simp [objectsOf, sweepAll, Report.after, bytesOf]
      rfl
    · exact fun d mem => absurd mem List.not_mem_nil
    · exact fun d mem => absurd mem List.not_mem_nil
  | cons d rest ih =>
    obtain ⟨after, apart⟩ := List.pairwise_cons.mp apart
    obtain ⟨here, bound⟩ := read d List.mem_cons_self
    -- Once the first cell is swept, the others still read as before.
    have later : ∀ {b : Arena}, Swept c.heap types [d] b → ∀ e ∈ rest,
        b.cell types e.offset = .ok (e.size, e.object) ∧ e.offset + e.size ≤ b.used := by
      intro b first e mem
      obtain ⟨there, inside⟩ := read e (List.mem_cons_of_mem _ mem)
      refine ⟨first.cell_congr placed there inside ?_, ?_⟩
      · intro f only
        cases List.mem_singleton.mp only
        exact .inr (after e mem)
      · rw [first.used]
        exact inside
    cases object : d.object with
    | none =>
      have first := swept_dead here object
      obtain ⟨heap, journal, run, swept⟩ := ih report placed apart (later first)
      refine ⟨heap, journal, ?_, .cons placed bound after first swept⟩
      rw [show objectsOf (d :: rest) = objectsOf rest by simp [objectsOf, object]]
      exact run
    | some x =>
      have objects : objectsOf (d :: rest) = x :: objectsOf rest := by simp [objectsOf, object]
      rw [objects, ← Report.after_cons]
      cases marked : x.info.isMarked with
      | true =>
        have first := swept_setInfo placed bound here object marked
        have step := sweepOne_live types c report marked
        obtain ⟨heap, journal, run, swept⟩ :=
          ih (c := { c with heap := _ }) (report.after [x]) (first.placed placed) apart
            (later first)
        refine ⟨heap, journal, ?_, .cons placed bound after first swept⟩
        simp only [sweepAll, bind, EStateM.bind, step]
        exact run
      | false =>
        obtain ⟨can, first⟩ := swept_bury placed bound here object marked
        obtain ⟨noted, step⟩ := sweepOne_dead types report marked can
        obtain ⟨heap, journal, run, swept⟩ :=
          ih (c := { c with heap := _, journal := noted }) (report.after [x])
            (first.placed placed) apart (later first)
        refine ⟨heap, journal, ?_, .cons placed bound after first swept⟩
        simp only [sweepAll, bind, EStateM.bind, step]
        exact run

end Collector

end ManagedCode.Heap
