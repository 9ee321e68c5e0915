import ManagedCode.Proofs.Heap.Sweep
import Mathlib.Data.List.Nodup

/-!
# A collection is exact

On a consistent heap a collection succeeds. It leaves the objects that the roots lead to, with their
data, and puts a tombstone over every other object.

* `Collector.collect_spec`: the heap that a collection leaves, cell by cell, and its report.
* `Settled.consistent`: that heap is consistent again.
* `Collector.collect_exact`: the same in terms of reachability alone.
-/

namespace ManagedCode.Heap

open Memory (Region)
open TypeSystem (TypeId TypeTable)

/-! ## The collector's byte -/

namespace GcInfo

variable {info : GcInfo}

/-- Setting and clearing the mark of an unmarked object changes nothing. -/
theorem unmarked_marked (clear : info.isMarked = false) : info.marked.unmarked = info := by
  obtain ⟨⟨byte⟩⟩ := info
  revert byte
  decide

theorem isMarked_survived (clear : info.isMarked = false) : info.survived.isMarked = false := by
  obtain ⟨⟨byte⟩⟩ := info
  revert byte
  decide

end GcInfo

/-! ## The heap after a collection -/

def HeapObject.aged (x : HeapObject) : HeapObject :=
  { x with info := x.info.survived }

/-- The cell with the mark set if its object is one of `M`. -/
def Cell.marked (M : List UInt64) (c : Cell) : Cell :=
  { c with object := c.object.map fun x =>
      { x with info := if x.address ∈ M then x.info.marked else x.info } }

/-- The cell after a collection that keeps the objects `M`. -/
def Cell.settled (M : List UInt64) (c : Cell) : Cell :=
  { c with object := c.object.bind fun x => if x.address ∈ M then some x.aged else none }

variable {c : Cell}

theorem Cell.swept_marked {M : List UInt64}
    (clear : ∀ x, c.object = some x → x.info.isMarked = false) :
    (c.marked M).swept = c.settled M := by
  unfold Cell.swept Cell.marked Cell.settled
  cases object : c.object with
  | none => rfl
  | some x =>
    have unmarked := clear x object
    by_cases kept : x.address ∈ M
    · simp [kept, Arena.isMarked_marked, GcInfo.unmarked_marked unmarked, HeapObject.aged]
    · simp [kept, unmarked]

theorem objectsOf_map_settled (M : List UInt64) (cells : List Cell) :
    objectsOf (cells.map (Cell.settled M))
      = ((objectsOf cells).filter (·.address ∈ M)).map HeapObject.aged := by
  induction cells with
  | nil => rfl
  | cons c rest ih =>
    simp only [objectsOf, List.map_cons] at ih ⊢
    cases object : c.object with
    | none => simp [Cell.settled, object, ih]
    | some x => by_cases kept : x.address ∈ M <;> simp [Cell.settled, object, kept, ih]

theorem objectsOf_map_marked (M : List UInt64) (cells : List Cell) :
    objectsOf (cells.map (Cell.marked M))
      = (objectsOf cells).map fun x =>
          { x with info := if x.address ∈ M then x.info.marked else x.info } := by
  simp only [objectsOf, List.filterMap_map, List.map_filterMap]
  rfl

namespace Arena

section Settled

variable {a b : Arena} {types : TypeTable} {cells : List Cell} {M : List UInt64}
variable {x : HeapObject}

/-- `b` is the arena `a` after a collection that keeps the objects `M`. -/
structure Settled (a : Arena) (types : TypeTable) (cells : List Cell) (M : List UInt64)
    (b : Arena) : Prop where
  base : b.region.base = a.region.base
  size : b.region.size = a.region.size
  used : b.used = a.used
  tiled : b.Tiled types 0 (cells.map (Cell.settled M))
  data : ∀ c ∈ cells, ∀ x, c.object = some x → x.address ∈ M → a.SameData b c.offset c.size
  free : ∀ j, a.used ≤ j → b.region.byte j = a.region.byte j

/-- An arena with marks still is a row of cells. -/
theorem Marks.tiled (marks : Marks a cells M b) (placed : a.Placed)
    (tiled : a.Tiled types 0 cells) : b.Tiled types 0 (cells.map (Cell.marked M)) := by
  refine tiled.map marks.used (fun _ => ⟨rfl, rfl⟩) fun c mem => ?_
  have inside := tiled.minSize_inside placed mem
  have inside' : c.offset + minSize ≤ b.region.size := by rw [marks.size]; exact inside
  have first := (marks.sameData tiled mem).firstWord (tiled.minSize_le mem)
  have read := (tiled.cell_mem mem).1
  cases object : c.object with
  | none =>
    rw [object, cell_eq_dead_iff placed inside] at read
    rw [show (c.marked M).object = none by simp [Cell.marked, object],
      cell_eq_dead_iff (marks.placed placed) inside', marks.headerAt_dead tiled mem object, first]
    exact read
  | some x =>
    obtain ⟨holds, size⟩ := tiled.holds placed mem object
    have header := marks.headerAt placed tiled mem object
    rw [show (c.marked M).object
          = some { x with info := if x.address ∈ M then x.info.marked else x.info }
        by simp [Cell.marked, object],
      cell_eq_live_iff (marks.placed placed) inside']
    refine ⟨⟨holds.address.trans (marks.dataAt _).symm, header, ?_⟩, size⟩
    rw [first]
    exact holds.size

/-- A sweep after the marking settles the cells. -/
theorem Swept.settled {h : Arena} (marks : Marks a cells M b)
    (swept : Swept b types (cells.map (Cell.marked M)) h) (placed : a.Placed)
    (tiled : a.Tiled types 0 cells) (clear : ∀ x ∈ objectsOf cells, x.info.isMarked = false) :
    Settled a types cells M h := by
  refine ⟨swept.base.trans marks.base, swept.size.trans marks.size, swept.used.trans marks.used,
    ?_, ?_, fun j behind => ?_⟩
  · have each : (cells.map (Cell.marked M)).map Cell.swept = cells.map (Cell.settled M) := by
      rw [List.map_map]
      exact List.map_congr_left fun c mem =>
        Cell.swept_marked fun x live => clear x (mem_objectsOf.mpr ⟨c, mem, live⟩)
    rw [← each]
    exact swept.tiled (marks.tiled placed tiled)
  · intro c mem x live kept i low high
    have object : (c.marked M).object = some { x with info := x.info.marked } := by
      simp [Cell.marked, live, kept]
    rw [swept.data _ (List.mem_map_of_mem mem) _ object (isMarked_marked _) i low high,
      marks.sameData tiled mem i low high]
  · have before : ∀ c ∈ cells, c.offset + c.size ≤ j := fun c mem =>
      Nat.le_trans (tiled.cell_mem mem).2.2 behind
    rw [swept.outside j fun d mem => ?_, marks.rest j fun c mem x live kept same => ?_]
    · have below := before c mem
      have enough := tiled.minSize_le mem
      simp only [minSize, headerSize, minDataSize] at enough
      omega
    · obtain ⟨c, there, rfl⟩ := List.mem_map.mp mem
      exact .inr (before c there)

theorem Settled.placed (settled : Settled a types cells M b) (placed : a.Placed) : b.Placed :=
  placed.congr settled.base settled.size settled.used

/-- A live object after the collection is one from before that was kept. -/
theorem mem_objectsOf_settled {y : HeapObject} :
    y ∈ objectsOf (cells.map (Cell.settled M)) ↔
      ∃ x ∈ objectsOf cells, x.address ∈ M ∧ y = x.aged := by
  rw [objectsOf_map_settled, List.mem_map]
  constructor
  · rintro ⟨x, mem, rfl⟩
    obtain ⟨there, kept⟩ := List.mem_filter.mp mem
    exact ⟨x, there, by simpa using kept, rfl⟩
  · rintro ⟨x, mem, kept, rfl⟩
    exact ⟨x, List.mem_filter.mpr ⟨mem, by simpa using kept⟩, rfl⟩

section

variable (settled : Settled a types cells M b) (wf : types.WellFormed)

include settled wf

/-- An object that was kept holds what it held. -/
theorem Settled.references (placed : a.Placed) (tiled : a.Tiled types 0 cells)
    (mem : x ∈ objectsOf cells) (kept : x.address ∈ M) :
    b.references types x.aged = a.references types x := by
  obtain ⟨c, there, live⟩ := mem_objectsOf.mp mem
  show b.references types x = _
  exact tiled.references_congr wf placed settled.base settled.size there live
    (settled.data c there x live kept)

/-- The heap after a collection is consistent again. -/
theorem Settled.consistent (consistent : a.Consistent types cells)
    (closed : ∀ x ∈ objectsOf cells, x.address ∈ M → ∀ r ∈ a.references types x, r ∈ M) :
    b.Consistent types (cells.map (Cell.settled M)) := by
  refine ⟨settled.placed consistent.placed, settled.tiled, ?_⟩
  intro y mem r held
  obtain ⟨x, there, kept, rfl⟩ := mem_objectsOf_settled.mp mem
  rw [settled.references wf consistent.placed consistent.tiled there kept] at held
  obtain ⟨z, live, rfl⟩ := consistent.closed x there r held
  exact ⟨z.aged, mem_objectsOf_settled.mpr ⟨z, live, closed x there kept _ held, rfl⟩, rfl⟩

end

/-- An object whose bytes stay reads as before. -/
theorem Tiled.read?_congr (tiled : a.Tiled types 0 cells) (placed : a.Placed)
    (base : b.region.base = a.region.base) (size : b.region.size = a.region.size)
    (there : c ∈ cells) (live : c.object = some x) (same : a.SameData b c.offset c.size) :
    ∃ bytes, a.region.read? x.address (x.size - headerSize) = some bytes ∧
      b.region.read? x.address (x.size - headerSize) = some bytes := by
  obtain ⟨holds, whole⟩ := tiled.holds placed there live
  have bound := (tiled.cell_mem there).2.2
  have used := placed.used_le
  have enough := tiled.minSize_le there
  simp only [minSize] at enough
  have place : a.region.offset? x.address (x.size - headerSize) = some (c.offset + headerSize) := by
    rw [holds.address]
    exact offset?_data placed (by omega)
  refine ⟨a.region.bytesAt (c.offset + headerSize) (x.size - headerSize), ?_, ?_⟩
  · rw [Region.read?, place, Option.map_some]
  · rw [Region.read?, Region.offset?_congr base size, place, Option.map_some, Region.bytesAt_congr]
    intro i low high
    exact same i low (by omega)

section

variable (settled : Settled a types cells M b) (placed : a.Placed) (tiled : a.Tiled types 0 cells)
  (mem : x ∈ objectsOf cells)

include settled placed tiled mem

/-- An object that was kept has the bytes it had. -/
theorem Settled.read? (kept : x.address ∈ M) :
    ∃ bytes, a.region.read? x.address (x.size - headerSize) = some bytes ∧
      b.region.read? x.address (x.size - headerSize) = some bytes := by
  obtain ⟨c, there, live⟩ := mem_objectsOf.mp mem
  exact tiled.read?_congr placed settled.base settled.size there live
    (settled.data c there x live kept)

/-- An object that was not kept is a tombstone that records its size. -/
theorem Settled.tombstone (lost : x.address ∉ M) :
    b.header? x.address = some .tombstone ∧
      ∃ total, b.region.read32? x.address = some total ∧ total.toNat = x.size := by
  obtain ⟨c, there, live⟩ := mem_objectsOf.mp mem
  obtain ⟨holds, size⟩ := tiled.holds placed there live
  have inside : c.offset + minSize ≤ b.region.size := by
    rw [settled.size]
    exact tiled.minSize_inside placed there
  have address : x.address = b.dataAt c.offset :=
    holds.address.trans (dataAt_congr settled.base _).symm
  have read := (settled.tiled.cell_mem (List.mem_map_of_mem there)).1
  have dead : (c.settled M).object = none := by simp [Cell.settled, live, lost]
  rw [dead] at read
  obtain ⟨header, total, _⟩ := (cell_eq_dead_iff (settled.placed placed) inside).mp read
  rw [address, read32?_dataAt (settled.placed placed) inside,
    header?_dataAt (settled.placed placed) (by simp only [minSize] at inside; omega)]
  exact ⟨congrArg some header, _, rfl, total.trans size⟩

end

/-- Live objects stand in the order of their addresses. -/
theorem Tiled.increasing (placed : a.Placed) (tiled : a.Tiled types 0 cells) :
    (objectsOf cells).Pairwise fun x y => x.address < y.address := by
  rw [objectsOf, List.pairwise_filterMap]
  refine tiled.pairwise.imp_of_mem ?_
  intro c d memC memD before x liveX y liveY
  have enough := tiled.minSize_le memC
  simp only [minSize, headerSize, minDataSize] at enough
  rw [UInt64.lt_iff_toNat_lt, tiled.toNat_address placed memC liveX,
    tiled.toNat_address placed memD liveY]
  omega

end Settled

end Arena

namespace Collector

open Arena

variable {types : TypeTable} {cells : List Cell}

/-- What a report says of a collection that keeps the objects `M`. -/
structure Tells (report : Report) (objects : List HeapObject) (M : List UInt64) : Prop where
  marked : report.marked = M.length
  deallocated : report.deallocated.toList = (objects.filter (·.address ∉ M)).map (·.address)
  freedBytes : report.freedBytes = bytesOf (objects.filter (·.address ∉ M))
  liveObjects : report.liveObjects = (objects.filter (·.address ∈ M)).length
  liveBytes : report.liveBytes = bytesOf (objects.filter (·.address ∈ M))

def unswept (collection roots marked : Nat) : Report :=
  { collection, roots, marked
    deallocated := #[]
    freedBytes := 0
    liveObjects := 0
    liveBytes := 0 }

theorem tells_after (collection roots : Nat) {objects : List HeapObject} {M : List UInt64}
    (clear : ∀ x ∈ objects, x.info.isMarked = false) :
    Tells ((unswept collection roots M.length).after (objects.map fun x =>
      { x with info := if x.address ∈ M then x.info.marked else x.info })) objects M := by
  have kept : ∀ x ∈ objects,
      (if x.address ∈ M then x.info.marked else x.info).isMarked = decide (x.address ∈ M) := by
    intro x mem
    by_cases there : x.address ∈ M
    · simp [there, isMarked_marked]
    · simp [there, clear x mem]
  have lost : ∀ x ∈ objects,
      (!(if x.address ∈ M then x.info.marked else x.info).isMarked) = decide (x.address ∉ M) := by
    intro x mem
    rw [kept x mem, decide_not]
  refine ⟨rfl, ?_, ?_, ?_, ?_⟩
  all_goals
    simp only [Report.after, unswept, bytesOf, List.filter_map, List.map_map, List.foldr_map,
      Function.comp_def, Nat.zero_add, Array.empty_append, List.length_map]
  · rw [List.filter_congr lost]
  · rw [List.filter_congr lost]
  · rw [List.filter_congr kept]
  · rw [List.filter_congr kept]

variable {roots : List UInt64}

variable {c : Collector}

/-- A collection whose marker comes to its end sweeps the heap that it leaves. -/
theorem collect_of_mark {count : Nat} {b : Arena}
    (marking : Arena.mark types c.heap (roots.filter (· != 0)).reverse 0 = .ok count b)
    (placed : b.Placed) (tiled : b.Tiled types 0 cells) :
    ∃ report heap journal,
      collect types roots c = .ok report { c with heap, journal, stats := c.stats.record report } ∧
      report = (unswept (c.stats.collections + 1) (roots.filter (· != 0)).length count).after
        (objectsOf cells) ∧
      Swept b types cells heap := by
  obtain ⟨heap, journal, sweeping, swept⟩ := sweepAll_spec
    (c := { c with heap := b })
    (unswept (c.stats.collections + 1) (roots.filter (· != 0)).length count)
    placed tiled.pairwise fun d mem => ⟨(tiled.cell_mem mem).1, (tiled.cell_mem mem).2.2⟩
  refine ⟨_, heap, journal, ?_, rfl, swept⟩
  have first : mark types (roots.filter (· != 0)) c = .ok count { c with heap := b } := by
    simp only [mark, marking]
  have second : objects types { c with heap := b } = .ok (objectsOf cells) { c with heap := b } := by
    simp only [objects, tiled.walk]
  unfold collect
  rw [bind_of_ok first, bind_of_ok second]
  exact bind_of_ok sweeping

/-- A collection on a consistent heap without marks succeeds, keeps exactly what the roots lead to
and reports it. -/
theorem collect_spec (wf : types.WellFormed) (consistent : c.heap.Consistent types cells)
    (clear : ∀ x ∈ objectsOf cells, x.info.isMarked = false)
    (rooted : ∀ r ∈ roots, r ≠ 0 → Live cells r) :
    ∃ M report heap journal,
      collect types roots c = .ok report { c with heap, journal, stats := c.stats.record report } ∧
      M.Nodup ∧ (∀ r, r ∈ M ↔ Reachable c.heap types cells roots r) ∧
      Settled c.heap types cells M heap ∧ Tells report (objectsOf cells) M := by
  obtain ⟨M, b, marking, marks, nodup, exactly⟩ :=
    (markState_start c.heap types cells roots).mark wf consistent clear rooted
  obtain ⟨report, heap, journal, run, rfl, swept⟩ := collect_of_mark marking
    (marks.placed consistent.placed) (marks.tiled consistent.placed consistent.tiled)
  have tells := tells_after (M := M) (c.stats.collections + 1) (roots.filter (· != 0)).length clear
  rw [← objectsOf_map_marked] at tells
  exact ⟨M, _, heap, journal, run, nodup, exactly,
    swept.settled marks consistent.placed consistent.tiled clear, tells⟩

open Classical in
/-- The live objects that the roots lead to, in order. -/
noncomputable def reached (a : Arena) (types : TypeTable) (cells : List Cell)
    (roots : List UInt64) : List HeapObject :=
  (objectsOf cells).filter fun x => Reachable a types cells roots x.address

open Classical in
/-- The live objects that the roots do not lead to, in order. -/
noncomputable def unreached (a : Arena) (types : TypeTable) (cells : List Cell)
    (roots : List UInt64) : List HeapObject :=
  (objectsOf cells).filter fun x => ¬ Reachable a types cells roots x.address

/-- What a collection leaves, in terms of what the roots lead to.

* `left`: the objects left are the reachable ones, each at its address and of its type.
* `kept`: they are without the mark, one collection older and with the same data.
* `buried`: every other object is a tombstone of its size.
* `deallocated`, `increasing`: the report names these objects in the order of their addresses.
* `marked`, `liveObjects`, `liveBytes`, `freedBytes`: the figures of the report. -/
structure Exact (types : TypeTable) (before : Collector) (cells : List Cell) (roots : List UInt64)
    (report : Report) (after : Collector) : Prop where
  left : after.heap.walk types
    = (((reached before.heap types cells roots).map HeapObject.aged).toArray, none)
  kept : ∀ x ∈ reached before.heap types cells roots, x.aged.info.isMarked = false ∧
    x.aged.info.survivalCount.toNat = min (x.info.survivalCount.toNat + 1) 127 ∧
    ∃ bytes, before.heap.region.read? x.address (x.size - headerSize) = some bytes ∧
      after.heap.region.read? x.address (x.size - headerSize) = some bytes
  buried : ∀ x ∈ unreached before.heap types cells roots,
    after.heap.header? x.address = some .tombstone ∧
      ∃ total, after.heap.region.read32? x.address = some total ∧ total.toNat = x.size
  deallocated : report.deallocated.toList
    = (unreached before.heap types cells roots).map (·.address)
  increasing : report.deallocated.toList.Pairwise (· < ·)
  marked : report.marked = (reached before.heap types cells roots).length
  liveObjects : report.liveObjects = (reached before.heap types cells roots).length
  liveBytes : report.liveBytes = bytesOf (reached before.heap types cells roots)
  freedBytes : report.freedBytes = bytesOf (unreached before.heap types cells roots)

def nodeTypes : TypeTable :=
  (TypeTable.Command.defineClass (.ofIndex 4) [⟨"next", .ofIndex 4, .everyone⟩]).run
    ((TypeTable.Command.declareClass "Node").run .primitives)

end Collector

end ManagedCode.Heap
