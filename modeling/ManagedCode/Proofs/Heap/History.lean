import ManagedCode.Proofs.Heap.Objects

/-!
# What happens to a heap

The history of a heap: types are made, memory is asked for and given or refused, programs write to
objects, and collections free what their roots do not lead to. `History` says which histories there
are, and records every allocation with the bytes that it took and every collection with its report.

* `Tracked`: a heap is what its history says, cell by cell. `History.tracked` carries it along.
* `Collector.heap_represents`: the used part is a row of allocations, each still an object of the size
  that it took or a tombstone of that size, and the walk finds the objects that were not freed.
-/

namespace ManagedCode.Heap

open Memory (Region)
open TypeSystem (TypeId TypeTable Shape Layout)
open Collector (Tells newArray)

variable {c : Collector}

/-! ## Histories -/

/-- What a program can ask for. -/
inductive Request where
  | object (type : TypeId)
  | array (type : TypeId) (length : Int)

def Request.run (types : TypeTable) : Request → EStateM AllocationError Collector UInt64
  | .object type => Collector.newObject types type
  | .array type length => newArray types type length

namespace Arena

/-- The walk finds an object with its data at the address. -/
def Alive (a : Arena) (types : TypeTable) (address : UInt64) : Prop :=
  ∃ x ∈ (a.walk types).1.toList, x.address = address

/-- The roots lead to the address. -/
def Reaches (a : Arena) (types : TypeTable) (roots : List UInt64) (address : UInt64) : Prop :=
  ∃ cells, a.Tiled types 0 cells ∧ Reachable a types cells roots address

/-- `b` is the arena `a` after a program wrote to the data of one object. An array keeps its length,
and the references in the object are null or lead to objects. -/
def Rewritten (a : Arena) (types : TypeTable) (b : Arena) : Prop :=
  ∃ r, a.Within types r b ∧ ∀ x ∈ (a.walk types).1.toList, x.address = r →
    ∀ w ∈ b.references types x, a.Alive types w

end Arena

/-- The memory that an allocation gave: the address for the data, and the bytes taken. -/
structure Block where
  address : UInt64
  size : Nat
  deriving DecidableEq

/-- What a history records. -/
inductive Event where
  | made (block : Block)
  /-- A collection of the heap as it was, from these roots. -/
  | collected (types : TypeTable) (heap : Arena) (roots : List UInt64) (report : Report)

namespace Event

def block? : Event → Option Block
  | made block => some block
  | collected .. => none

def report? : Event → Option Report
  | made _ => none
  | collected _ _ _ report => some report

def freed : Event → List UInt64
  | made _ => []
  | collected _ _ _ report => report.deallocated.toList

/-- Whether an object at an address outlives the event. -/
def Spares (address : UInt64) : Event → Prop
  | made _ => True
  | collected types heap roots _ => heap.Reaches types roots address

end Event

def blocksIn (events : List Event) : List Block := events.filterMap Event.block?

def reportsIn (events : List Event) : List Report := events.filterMap Event.report?

def freedIn (events : List Event) : List UInt64 := events.flatMap Event.freed

/-- An object was made at the address, and all collections since then could reach it. -/
def Spared (events : List Event) (address : UInt64) : Prop :=
  ∃ before size after, events = before ++ .made ⟨address, size⟩ :: after ∧
    ∀ e ∈ after, e.Spares address

/-- A table of types, a heap with its bookkeeping, and what happened to it.

* `fresh`: nothing has happened yet.
* `typed`: an operation on the types, which may have failed.
* `made`, `refused`: an allocation gave memory or failed.
* `rewritten`: a program wrote to an object.
* `collected`, `failed`: a collection from roots that are null or objects. -/
inductive History : TypeTable → Collector → List Event → Prop where
  | fresh (region : Region) (options : JournalOptions)
      (below : region.base.toNat + region.size < 2 ^ 64) :
      History .primitives ⟨⟨region, 0⟩, {}, {}, options⟩ []
  | typed {types : TypeTable} {c : Collector} {events : List Event} (command : TypeTable.Command)
      (before : History types c events) : History (command.run types) c events
  | made {types : TypeTable} {c c' : Collector} {events : List Event} {data : UInt64}
      (request : Request) (before : History types c events)
      (run : request.run types c = .ok data c') :
      History types c' (events ++ [.made ⟨data, c'.heap.used - c.heap.used⟩])
  | refused {types : TypeTable} {c c' : Collector} {events : List Event} {e : AllocationError}
      (request : Request) (before : History types c events)
      (run : request.run types c = .error e c') : History types c' events
  | rewritten {types : TypeTable} {c : Collector} {events : List Event} {b : Arena}
      (before : History types c events) (change : c.heap.Rewritten types b) :
      History types { c with heap := b } events
  | collected {types : TypeTable} {c c' : Collector} {events : List Event} {roots : List UInt64}
      {report : Report} (before : History types c events)
      (rooted : ∀ r ∈ roots, r = 0 ∨ c.heap.Alive types r)
      (run : Collector.collect types roots c = .ok report c') :
      History types c' (events ++ [.collected types c.heap roots report])
  | failed {types : TypeTable} {c c' : Collector} {events : List Event} {roots : List UInt64}
      {e : GcError} (before : History types c events)
      (rooted : ∀ r ∈ roots, r = 0 ∨ c.heap.Alive types r)
      (run : Collector.collect types roots c = .error e c') : History types c' events

/-! ## Events -/

variable {roots : List UInt64} {x : HeapObject}

variable {report : Report} {total : Nat}

section Events

variable {events : List Event} {r : UInt64}

theorem append_singleton_eq_iff {α : Type} {l before after : List α} {e x : α} :
    l ++ [e] = before ++ x :: after ↔
      after = [] ∧ l = before ∧ e = x ∨ ∃ rest, after = rest ++ [e] ∧ l = before ++ x :: rest := by
  rcases List.eq_nil_or_concat after with rfl | ⟨rest, last, rfl⟩
  · constructor
    · intro same
      obtain ⟨front, ends⟩ := List.append_inj' same rfl
      exact .inl ⟨rfl, front, List.singleton_inj.mp ends⟩
    · rintro (⟨_, rfl, rfl⟩ | ⟨rest, none_, _⟩)
      · rfl
      · exact absurd none_.symm (List.append_ne_nil_of_right_ne_nil _ (List.cons_ne_nil _ _))
  · rw [List.concat_eq_append, ← List.cons_append, ← List.append_assoc]
    constructor
    · intro same
      obtain ⟨front, ends⟩ := List.append_inj' same rfl
      exact .inr ⟨rest, by rw [List.singleton_inj.mp ends], front⟩
    · rintro (⟨none_, _⟩ | ⟨rest', same, rfl⟩)
      · exact absurd none_ (List.append_ne_nil_of_right_ne_nil _ (List.cons_ne_nil _ _))
      · obtain ⟨rfl, ends⟩ := List.append_inj' same rfl
        rw [List.singleton_inj.mp ends]

theorem blocksIn_made (events : List Event) (block : Block) :
    blocksIn (events ++ [.made block]) = blocksIn events ++ [block] :=
  List.filterMap_append

theorem blocksIn_collected (events : List Event) (types : TypeTable) (heap : Arena)
    (roots : List UInt64) (report : Report) :
    blocksIn (events ++ [.collected types heap roots report]) = blocksIn events :=
  List.filterMap_append.trans (List.append_nil _)

theorem reportsIn_made (events : List Event) (block : Block) :
    reportsIn (events ++ [.made block]) = reportsIn events :=
  List.filterMap_append.trans (List.append_nil _)

theorem reportsIn_collected (events : List Event) (types : TypeTable) (heap : Arena)
    (roots : List UInt64) (report : Report) :
    reportsIn (events ++ [.collected types heap roots report]) = reportsIn events ++ [report] :=
  List.filterMap_append

theorem freedIn_made (events : List Event) (block : Block) :
    freedIn (events ++ [.made block]) = freedIn events :=
  List.flatMap_append.trans (List.append_nil _)

theorem freedIn_collected (events : List Event) (types : TypeTable) (heap : Arena)
    (roots : List UInt64) (report : Report) :
    freedIn (events ++ [.collected types heap roots report])
      = freedIn events ++ report.deallocated.toList :=
  List.flatMap_append.trans (congrArg _ (List.append_nil _))

theorem not_spared_nil : ¬ Spared [] r := by
  rintro ⟨before, size, after, split, _⟩
  exact absurd split.symm (List.append_ne_nil_of_right_ne_nil _ (List.cons_ne_nil _ _))

/-- What was spared before an event, and what the event makes. -/
theorem spared_snoc {e : Event} :
    Spared (events ++ [e]) r ↔ Spared events r ∧ e.Spares r ∨ ∃ size, e = .made ⟨r, size⟩ := by
  constructor
  · rintro ⟨before, size, after, split, spares⟩
    rcases append_singleton_eq_iff.mp split with ⟨_, _, last⟩ | ⟨rest, rfl, front⟩
    · exact .inr ⟨size, last⟩
    · exact .inl ⟨⟨before, size, rest, front, fun e mem => spares e (List.mem_append_left _ mem)⟩,
        spares _ (List.mem_append_right _ List.mem_cons_self)⟩
  · rintro (⟨⟨before, size, after, rfl, spares⟩, outlives⟩ | ⟨size, rfl⟩)
    · refine ⟨before, size, after ++ [e], by simp, fun e' mem => ?_⟩
      rcases List.mem_append.mp mem with earlier | last
      · exact spares e' earlier
      · rw [List.mem_singleton.mp last]
        exact outlives
    · exact ⟨events, size, [], rfl, fun e mem => absurd mem List.not_mem_nil⟩

theorem spared_made {block : Block} :
    Spared (events ++ [.made block]) r ↔ Spared events r ∨ r = block.address := by
  rw [spared_snoc]
  refine or_congr (and_iff_left trivial) ⟨?_, ?_⟩
  · rintro ⟨size, same⟩
    cases same
    rfl
  · rintro rfl
    exact ⟨block.size, rfl⟩

theorem spared_collected {types : TypeTable} {heap : Arena} :
    Spared (events ++ [.collected types heap roots report]) r ↔
      Spared events r ∧ heap.Reaches types roots r := by
  rw [spared_snoc]
  refine or_iff_left ?_
  rintro ⟨size, same⟩
  cases same

end Events

/-! ## Rows of cells -/

namespace Arena

section Rows

variable {a b : Arena} {types types' : TypeTable} {cells cells' : List Cell}
variable {r : UInt64} {offset : Nat} {type : TypeId}

theorem alive_iff (tiled : a.Tiled types 0 cells) : a.Alive types r ↔ Live cells r := by
  unfold Alive Live
  rw [tiled.walk]

theorem reaches_iff (tiled : a.Tiled types 0 cells) :
    a.Reaches types roots r ↔ Reachable a types cells roots r := by
  constructor
  · rintro ⟨cells', tiled', reached⟩
    rwa [tiled.unique tiled']
  · exact fun reached => ⟨cells, tiled, reached⟩

/-! ### Types -/

section Grows

variable (wf : types.WellFormed) (grows : types.Grows types') {first : UInt32} {size : Nat}
  (sized : sizeFrom types type first = some size)

include wf grows sized

theorem sizeFrom_grows : sizeFrom types' type first = some size := by
  unfold sizeFrom
  rcases sizeFrom_cases sized with ⟨layout, object, _, total⟩ | ⟨element, array, _, small, total⟩
  · rw [shape?_of_layout? (grows.layout? object)]
    exact total
  · rw [shape?_of_element? (grows.element? array)]
    dsimp only
    rw [if_pos small, grows.keeps.size (wf.element type element array)]
    exact total

theorem slots_grows (data : UInt64) : a.slots types' type data = a.slots types type data := by
  unfold slots
  rcases sizeFrom_cases sized with ⟨layout, object, shape, _⟩ | ⟨element, array, shape, _⟩
  · rw [shape?_of_layout? (grows.layout? object), shape]
  · obtain ⟨kind, has⟩ := TypeTable.shape?_of_size_ne (wf.element type element array)
    obtain ⟨kind', has', _, reference⟩ := grows.keeps element kind has
    have same : types'.isReference element = types.isReference element := by
      rw [TypeTable.isReference_of_shape? has', TypeTable.isReference_of_shape? has, reference]
    rw [shape?_of_element? (grows.element? array), shape]
    dsimp only
    rw [same]

end Grows

theorem cell_grows (wf : types.WellFormed) (grows : types.Grows types') (placed : a.Placed)
    (inside : offset + minSize ≤ a.region.size) {found : Nat × Option HeapObject}
    (read : a.cell types offset = .ok found) : a.cell types' offset = .ok found := by
  obtain ⟨size, object⟩ := found
  cases object with
  | none =>
    rw [cell_eq_dead_iff placed inside] at read ⊢
    exact read
  | some x =>
    rw [cell_eq_live_iff placed inside] at read ⊢
    exact ⟨⟨read.1.address, read.1.type, sizeFrom_grows wf grows read.1.size⟩, read.2⟩

theorem Tiled.grows (wf : types.WellFormed) (grows : types.Grows types') (placed : a.Placed)
    (tiled : a.Tiled types offset cells) : a.Tiled types' offset cells := by
  induction cells generalizing offset with
  | nil => exact tiled
  | cons c rest ih =>
    have inside := tiled.minSize_inside placed List.mem_cons_self
    obtain ⟨start, here, later⟩ := tiled
    exact ⟨start, cell_grows wf grows placed (start ▸ inside) here, ih later⟩

/-- More types do not change what the heap is. -/
theorem Consistent.grows (wf : types.WellFormed) (grows : types.Grows types')
    (consistent : a.Consistent types cells) : a.Consistent types' cells := by
  refine ⟨consistent.placed, consistent.tiled.grows wf grows consistent.placed, fun x mem r held => ?_⟩
  obtain ⟨c, there, live⟩ := mem_objectsOf.mp mem
  have sized := (consistent.tiled.holds consistent.placed there live).1.size
  unfold references at held
  rw [slots_grows wf grows sized] at held
  exact consistent.closed x mem r held

/-! ### Writes -/

/-- A write to an object that puts null or objects in its references. -/
theorem Rewritten.consistent (wf : types.WellFormed) (change : a.Rewritten types b)
    (consistent : a.Consistent types cells) : b.Consistent types cells := by
  obtain ⟨r, within, refers⟩ := change
  have placed := consistent.placed
  have tiled := consistent.tiled
  refine ⟨within.placed placed, within.tiled placed tiled, fun x mem w held => ?_⟩
  by_cases here : x.address = r
  · refine (alive_iff tiled).mp (refers x ?_ here w held)
    rw [tiled.walk]
    exact mem
  · obtain ⟨d, there, live⟩ := mem_objectsOf.mp mem
    have other : ∀ y, d.object = some y → y.address ≠ r := fun y alive => by
      cases live.symm.trans alive
      exact here
    rw [tiled.references_congr wf placed within.base within.size there live fun j low high =>
      within.apart tiled there other j (by omega) high] at held
    exact consistent.closed x mem w held

/-! ### Allocations -/

theorem objectsOf_snoc {c : Cell} (object : c.object = some x) :
    objectsOf (cells ++ [c]) = objectsOf cells ++ [x] := by
  rw [objectsOf, List.filterMap_append, objectsOf]
  simp [object]

theorem live_snoc {c : Cell} (object : c.object = some x) :
    Live (cells ++ [c]) r ↔ Live cells r ∨ r = x.address := by
  unfold Live
  rw [objectsOf_snoc object]
  constructor
  · rintro ⟨y, mem, rfl⟩
    rcases List.mem_append.mp mem with old | last
    · exact .inl ⟨y, old, rfl⟩
    · exact .inr (congrArg _ (List.mem_singleton.mp last))
  · rintro (⟨y, old, rfl⟩ | rfl)
    · exact ⟨y, List.mem_append_left _ old, rfl⟩
    · exact ⟨x, List.mem_append_right _ List.mem_cons_self, rfl⟩

/-- A new object refers to nothing. -/
theorem Extended.consistent (wf : types.WellFormed) (extended : a.Extended types type total b)
    (consistent : a.Consistent types cells) (clear : ∀ x ∈ objectsOf cells, x.info.isMarked
      = false) :
    b.Consistent types (cells ++ [a.newCell type total]) := by
  have regular : a.Regular types cells := ⟨consistent.placed, consistent.tiled, clear⟩
  have regular' := extended.regular regular
  refine ⟨regular'.placed, regular'.tiled, fun x mem w held => ?_⟩
  obtain ⟨c, there, live⟩ := mem_objectsOf.mp mem
  rcases List.mem_append.mp there with old | last
  · have object := mem_objectsOf.mpr ⟨c, old, live⟩
    have bound := (consistent.tiled.cell_mem old).2.2
    rw [consistent.tiled.references_congr wf consistent.placed extended.base extended.size old live
      fun j _ high => extended.below j (by omega)] at held
    exact (live_snoc rfl).mpr (.inl (consistent.closed x object w held))
  · cases List.mem_singleton.mp last
    cases live
    obtain ⟨o, c', here, at_⟩ := regular'.at_of_mem mem
    rw [object?_extended wf extended regular, if_pos rfl] at here
    cases here
    obtain ⟨nonnull, i, p, _, _, value⟩ := (at_.mem_references wf regular').mp held
    exact absurd (List.eq_of_mem_replicate (List.mem_of_getElem? value)) nonnull

end Rows

end Arena

/-- An allocation fails and leaves all as it was, or adds an object behind the used part. -/
theorem Request.run_cases (types : TypeTable) (placed : c.heap.Placed) (request : Request) :
    (∃ e, request.run types c = .error e c) ∨
      ∃ type total c', request.run types c = .ok c.heap.nextData c' ∧
        c.heap.Extended types type total c'.heap := by
  cases request with
  | object type =>
    show (∃ e, Collector.newObject types type c = _) ∨ ∃ t total c',
      Collector.newObject types type c = _ ∧ _
    cases object : types.layout? type with
    | none => exact .inl ⟨.notAClass type.raw, by unfold Collector.newObject; rw [object]; rfl⟩
    | some layout =>
      rcases Collector.newObject_spec placed object with ⟨_, failed⟩ | ⟨total, c', _, run, extended⟩
      · exact .inl ⟨_, failed⟩
      · exact .inr ⟨type, total, c', run, extended⟩
  | array type length =>
    show (∃ e, newArray types type length c = _) ∨ ∃ t total c',
      newArray types type length c = _ ∧ _
    cases array : types.element? type with
    | none => exact .inl ⟨.notAnArray type.raw, by unfold newArray; rw [array]; rfl⟩
    | some element =>
      by_cases fits : 0 ≤ length ∧ length < 0x80000000
      · obtain ⟨n, rfl⟩ := Int.eq_ofNat_of_zero_le fits.1
        rcases Collector.newArray_spec placed array (show n < 2 ^ 31 by omega) with
          ⟨_, failed⟩ | ⟨total, c', _, run, extended, _⟩
        · exact .inl ⟨_, failed⟩
        · exact .inr ⟨type, total, c', run, extended⟩
      · refine .inl ⟨.invalidLength length, ?_⟩
        unfold newArray
        rw [array]
        dsimp only
        rw [if_neg fits]
        rfl

/-! ## Heaps and their histories -/

open Arena

def Arena.block (a : Arena) (d : Cell) : Block := ⟨a.dataAt d.offset, d.size⟩

/-- A heap is what its history says.

* `blocks`: the cells are the allocations in order.
* `freed`: the tombstones are what was freed, and `once`: nothing was freed twice.
* `spared`: the objects are what all collections since could reach.
* `fair`: each collection freed what it could not reach of what there was. -/
structure Tracked (types : TypeTable) (a : Arena) (events : List Event) (cells : List Cell) :
    Prop where
  built : types.Built
  consistent : a.Consistent types cells
  clear : ∀ x ∈ objectsOf cells, x.info.isMarked = false
  blocks : blocksIn events = cells.map a.block
  freed : ∀ r, r ∈ freedIn events ↔ ∃ d ∈ cells, d.object = none ∧ a.dataAt d.offset = r
  once : (freedIn events).Nodup
  spared : ∀ r, Spared events r ↔ Live cells r
  fair : ∀ before t heap roots report after,
    events = before ++ .collected t heap roots report :: after →
      ∀ r, r ∈ report.deallocated.toList ↔ Spared before r ∧ ¬ heap.Reaches t roots r

section Tracked

variable {types : TypeTable} {a b : Arena} {events : List Event} {cells : List Cell}
variable {M : List UInt64}

theorem tracked_fresh {region : Region} (below : region.base.toNat + region.size < 2 ^ 64) :
    Tracked .primitives ⟨region, 0⟩ [] [] where
  built := .primitives
  consistent := ⟨⟨below, Nat.zero_le _⟩, rfl, fun _ mem => absurd mem List.not_mem_nil⟩
  clear := fun _ mem => absurd mem List.not_mem_nil
  blocks := rfl
  freed := fun _ => ⟨fun mem => absurd mem List.not_mem_nil,
    fun ⟨_, mem, _⟩ => absurd mem List.not_mem_nil⟩
  once := List.nodup_nil
  spared := fun _ => ⟨fun spared => absurd spared not_spared_nil,
    fun ⟨_, mem, _⟩ => absurd mem List.not_mem_nil⟩
  fair := fun _ _ _ _ _ _ split =>
    absurd split.symm (List.append_ne_nil_of_right_ne_nil _ (List.cons_ne_nil _ _))

theorem Tracked.typed (tracked : Tracked types a events cells) (command : TypeTable.Command) :
    Tracked (command.run types) a events cells :=
  { tracked with
    built := .run command tracked.built
    consistent := tracked.consistent.grows tracked.built.wellFormed (command.grows types) }

theorem Tracked.rewritten (tracked : Tracked types a events cells) (change : a.Rewritten types b) :
    Tracked types b events cells := by
  have place : ∀ offset, b.dataAt offset = a.dataAt offset := by
    obtain ⟨r, within, _⟩ := change
    exact dataAt_congr within.base
  refine { tracked with
    consistent := change.consistent tracked.built.wellFormed tracked.consistent, blocks := ?_, freed := ?_ }
  · rw [tracked.blocks]
    exact List.map_congr_left fun d _ => by rw [Arena.block, Arena.block, place]
  · simp only [place]
    exact tracked.freed

theorem Tracked.made (tracked : Tracked types a events cells) {type : TypeId}
    (extended : a.Extended types type total b) :
    Tracked types b (events ++ [.made ⟨a.nextData, total⟩]) (cells ++ [a.newCell type total]) := by
  have wf := tracked.built.wellFormed
  have place : ∀ offset, b.dataAt offset = a.dataAt offset := dataAt_congr extended.base
  have regular : a.Regular types cells :=
    ⟨tracked.consistent.placed, tracked.consistent.tiled, tracked.clear⟩
  refine ⟨tracked.built, extended.consistent wf tracked.consistent tracked.clear,
    (extended.regular regular).clear, ?_, ?_, ?_, ?_, ?_⟩
  · rw [blocksIn_made, tracked.blocks, List.map_append]
    refine congrArg₂ _ (List.map_congr_left fun d _ => ?_) (congrArg (fun x => [Block.mk x total]) ?_)
    · rw [Arena.block, Arena.block, place]
    · exact (place a.used).symm
  · intro r
    rw [freedIn_made, tracked.freed]
    simp only [place]
    constructor
    · rintro ⟨d, mem, dead⟩
      exact ⟨d, List.mem_append_left _ mem, dead⟩
    · rintro ⟨d, mem, dead⟩
      rcases List.mem_append.mp mem with old | last
      · exact ⟨d, old, dead⟩
      · cases List.mem_singleton.mp last
        cases dead.1
  · rw [freedIn_made]
    exact tracked.once
  · intro r
    rw [spared_made, tracked.spared]
    exact (live_snoc (c := a.newCell type total) rfl).symm
  · intro before t heap roots report after split
    rcases append_singleton_eq_iff.mp split with ⟨_, _, last⟩ | ⟨rest, _, front⟩
    · cases last
    · exact tracked.fair before t heap roots report rest front

variable {r : UInt64}

/-- The objects after a collection are the ones from before that were kept. -/
theorem live_settled : Live (cells.map (Cell.settled M)) r ↔ Live cells r ∧ r ∈ M := by
  constructor
  · rintro ⟨y, mem, rfl⟩
    obtain ⟨x, there, kept, rfl⟩ := mem_objectsOf_settled.mp mem
    exact ⟨⟨x, there, rfl⟩, kept⟩
  · rintro ⟨⟨x, there, rfl⟩, kept⟩
    exact ⟨x.aged, mem_objectsOf_settled.mpr ⟨x, there, kept, rfl⟩, rfl⟩

theorem mem_lost :
    r ∈ ((objectsOf cells).filter (·.address ∉ M)).map (·.address) ↔ Live cells r ∧ r ∉ M := by
  rw [List.mem_map]
  constructor
  · rintro ⟨x, mem, rfl⟩
    obtain ⟨there, gone⟩ := List.mem_filter.mp mem
    exact ⟨⟨x, there, rfl⟩, of_decide_eq_true gone⟩
  · rintro ⟨⟨x, there, rfl⟩, gone⟩
    exact ⟨x, List.mem_filter.mpr ⟨there, decide_eq_true gone⟩, rfl⟩

theorem Tracked.collected (tracked : Tracked types a events cells)
    (exactly : ∀ r, r ∈ M ↔ Reachable a types cells roots r) (settled : Settled a types cells M b)
    (tells : Tells report (objectsOf cells) M) :
    Tracked types b (events ++ [.collected types a roots report]) (cells.map (Cell.settled M)) := by
  have wf := tracked.built.wellFormed
  have tiled := tracked.consistent.tiled
  have placed := tracked.consistent.placed
  have place : ∀ offset, b.dataAt offset = a.dataAt offset := dataAt_congr settled.base
  have lost : ∀ r, r ∈ report.deallocated.toList ↔ Live cells r ∧ r ∉ M := fun r =>
    tells.deallocated ▸ mem_lost
  refine ⟨tracked.built, settled.consistent wf tracked.consistent ?_, ?_, ?_, ?_, ?_, ?_, ?_⟩
  · intro x mem kept r held
    exact (exactly r).mpr (.follow ((exactly _).mp kept) mem held)
  · intro y mem
    obtain ⟨x, there, _, rfl⟩ := mem_objectsOf_settled.mp mem
    exact GcInfo.isMarked_survived (tracked.clear x there)
  · rw [blocksIn_collected, tracked.blocks, List.map_map]
    exact List.map_congr_left fun d _ => by
      rw [Function.comp_apply, Arena.block, Arena.block, place]
      rfl
  · intro r
    rw [freedIn_collected, List.mem_append, tracked.freed, lost]
    simp only [place]
    constructor
    · rintro (⟨d, mem, dead, rfl⟩ | ⟨alive, gone⟩)
      · exact ⟨_, List.mem_map_of_mem mem, by simp [Cell.settled, dead], rfl⟩
      · obtain ⟨d, mem, x, live, rfl⟩ := alive.cell
        exact ⟨_, List.mem_map_of_mem mem, by simp [Cell.settled, live, gone],
          (tiled.holds placed mem live).1.address.symm⟩
    · rintro ⟨e, mem, dead, rfl⟩
      obtain ⟨d, there, rfl⟩ := List.mem_map.mp mem
      cases live : d.object with
      | none => exact .inl ⟨d, there, live, rfl⟩
      | some x =>
        have address := (tiled.holds placed there live).1.address
        refine .inr ⟨⟨x, mem_objectsOf.mpr ⟨d, there, live⟩, address⟩, fun kept => ?_⟩
        rw [show (d.settled M).offset = d.offset from rfl, ← address] at kept
        simp [Cell.settled, live, kept] at dead
  · rw [freedIn_collected, List.nodup_append]
    refine ⟨tracked.once, ?_, fun r old s new same => ?_⟩
    · rw [tells.deallocated]
      refine List.Pairwise.map _ ?_ ((tiled.increasing placed).filter _)
      intro x y before same
      rw [same] at before
      exact UInt64.lt_irrefl _ before
    · subst same
      -- What was freed before is a tombstone and no object.
      obtain ⟨d, mem, dead, rfl⟩ := (tracked.freed r).mp old
      exact Rejected.not_live tracked.consistent (.inr ⟨d, mem, dead, rfl⟩) ((lost _).mp new).1
  · intro r
    rw [spared_collected, tracked.spared, reaches_iff tiled, live_settled, exactly]
  · intro before t heap roots' report' after split
    rcases append_singleton_eq_iff.mp split with ⟨_, rfl, last⟩ | ⟨rest, _, front⟩
    · cases last
      intro r
      rw [lost, tracked.spared, reaches_iff tiled, exactly]
    · exact tracked.fair before t heap roots' report' rest front

/-- A collection from roots that are null or objects succeeds. -/
theorem Tracked.collect (tracked : Tracked types c.heap events cells)
    (rooted : ∀ r ∈ roots, r = 0 ∨ c.heap.Alive types r) :
    ∃ M report heap journal,
      Collector.collect types roots c
        = .ok report { c with heap, journal, stats := c.stats.record report } ∧
      M.Nodup ∧ (∀ r, r ∈ M ↔ Reachable c.heap types cells roots r) ∧
      Settled c.heap types cells M heap ∧ Tells report (objectsOf cells) M :=
  Collector.collect_spec tracked.built.wellFormed tracked.consistent tracked.clear
    fun r mem nonnull => (alive_iff tracked.consistent.tiled).mp ((rooted r mem).resolve_left nonnull)

end Tracked

/-- Every heap is what its history says, and a property that every event keeps holds along with it. -/
theorem History.along {P : Collector → List Event → List Cell → Prop}
    (fresh : ∀ region options, P ⟨⟨region, 0⟩, {}, {}, options⟩ [] [])
    (made : ∀ {types c c' events cells request data type total},
      Tracked types c.heap events cells → Request.run types request c = .ok data c' →
      c.heap.Extended types type total c'.heap → P c events cells →
      P c' (events ++ [.made ⟨data, total⟩]) (cells ++ [c.heap.newCell type total]))
    (rewritten : ∀ {c events cells b}, b.used = c.heap.used → P c events cells →
      P { c with heap := b } events cells)
    (collected : ∀ {types c c' events cells roots report M},
      Tracked types c.heap events cells → Collector.collect types roots c = .ok report c' →
      Settled c.heap types cells M c'.heap → Tells report (objectsOf cells) M →
      P c events cells →
      P c' (events ++ [.collected types c.heap roots report]) (cells.map (Cell.settled M)))
    {types : TypeTable} {events : List Event} (history : History types c events) :
    ∃ cells, Tracked types c.heap events cells ∧ P c events cells := by
  induction history with
  | fresh region options below => exact ⟨[], tracked_fresh below, fresh region options⟩
  | typed command _ ih =>
    obtain ⟨cells, tracked, holds⟩ := ih
    exact ⟨cells, tracked.typed command, holds⟩
  | made request _ run ih =>
    obtain ⟨cells, tracked, holds⟩ := ih
    rcases request.run_cases _ tracked.consistent.placed with
      ⟨e, failed⟩ | ⟨type, total, c', ran, extended⟩
    · cases run.symm.trans failed
    · cases run.symm.trans ran
      rw [extended.used, Nat.add_sub_cancel_left]
      exact ⟨_, tracked.made extended, made tracked run extended holds⟩
  | refused request _ run ih =>
    obtain ⟨cells, tracked, holds⟩ := ih
    rcases request.run_cases _ tracked.consistent.placed with
      ⟨e, failed⟩ | ⟨type, total, c', ran, _⟩
    · cases run.symm.trans failed
      exact ⟨cells, tracked, holds⟩
    · cases run.symm.trans ran
  | rewritten _ change ih =>
    obtain ⟨cells, tracked, holds⟩ := ih
    obtain ⟨r, within, refers⟩ := change
    exact ⟨cells, tracked.rewritten ⟨r, within, refers⟩, rewritten within.used holds⟩
  | collected _ rooted run ih =>
    obtain ⟨cells, tracked, holds⟩ := ih
    obtain ⟨M, report, heap, journal, ran, _, exactly, settled, tells⟩ := tracked.collect rooted
    cases run.symm.trans ran
    exact ⟨_, tracked.collected exactly settled tells, collected tracked run settled tells holds⟩
  | failed _ rooted run ih =>
    obtain ⟨cells, tracked, holds⟩ := ih
    obtain ⟨M, report, heap, journal, ran, _⟩ := tracked.collect rooted
    cases run.symm.trans ran

theorem History.tracked {types : TypeTable} {events : List Event}
    (history : History types c events) : ∃ cells, Tracked types c.heap events cells :=
  (history.along (P := fun _ _ _ => True) (fun _ _ => trivial) (fun _ _ _ _ => trivial)
    (fun _ _ => trivial) fun _ _ _ _ _ => trivial).imp fun _ => And.left

/-! ## The used part as allocations -/

namespace Arena

/-- From an offset on the blocks follow one another to the end of the used part. -/
def Fills (a : Arena) : Nat → List Block → Prop
  | offset, [] => offset = a.used
  | offset, block :: rest =>
    block.address = a.base + UInt64.ofNat offset + UInt64.ofNat headerSize ∧
      a.Fills (offset + block.size) rest

/-- A block with an object, whose type and stored length give the size of the block. -/
def IsObject (a : Arena) (types : TypeTable) (block : Block) : Prop :=
  ∃ header type, a.header? block.address = some header ∧ header.type ≠ 0 ∧
    TypeId.ofRaw? header.type = some type ∧
    a.objectSize? types type block.address = some block.size

/-- A block with a tombstone, which records its size. -/
def IsTombstone (a : Arena) (block : Block) : Prop :=
  a.header? block.address = some .tombstone ∧
    ∃ size, a.region.read32? block.address = some size ∧ size.toNat = block.size

/-- A heap as its history leaves it.

* `fills`: the used part is the row of all allocations, without a gap.
* `least`: each takes nine bytes or more.
* `object`, `tombstone`: each is an object until it was freed and a tombstone from then on.
* `walk`: the walk reaches the end and finds the allocations that were not freed, in order. -/
structure Represents (a : Arena) (types : TypeTable) (events : List Event) : Prop where
  placed : a.Placed
  fills : a.Fills 0 (blocksIn events)
  least : ∀ block ∈ blocksIn events, 9 ≤ block.size
  object : ∀ block ∈ blocksIn events, block.address ∉ freedIn events → a.IsObject types block
  tombstone : ∀ block ∈ blocksIn events, block.address ∈ freedIn events → a.IsTombstone block
  walk : ∃ found, a.walk types = (found, none) ∧
    (found.toList.map fun x => Block.mk x.address x.size)
      = (blocksIn events).filter (·.address ∉ freedIn events)

section Represents

variable {a : Arena} {types : TypeTable} {cells : List Cell}

variable {offset : Nat}

theorem Tiled.fills (tiled : a.Tiled types offset cells) : a.Fills offset (cells.map a.block) := by
  induction cells generalizing offset with
  | nil => exact tiled
  | cons c rest ih =>
    obtain ⟨rfl, _, later⟩ := tiled
    exact ⟨rfl, ih later⟩

theorem Tiled.isObject (placed : a.Placed) (tiled : a.Tiled types 0 cells) {c : Cell}
    (mem : c ∈ cells) (live : c.object = some x) : a.IsObject types (a.block c) := by
  have inside := tiled.minSize_inside placed mem
  obtain ⟨holds, size⟩ := tiled.holds placed mem live
  refine ⟨⟨x.type.raw, x.info⟩, x.type, ?_, x.type.ne_zero, TypeId.ofRaw?_raw x.type, ?_⟩
  · rw [← holds.type]
    exact header?_dataAt placed (tiled.header_inside placed mem)
  · exact (objectSize?_dataAt placed inside types x.type).trans (holds.size.trans (congrArg _ size.symm))

theorem Tiled.isTombstone (placed : a.Placed) (tiled : a.Tiled types 0 cells) {c : Cell}
    (mem : c ∈ cells) (dead : c.object = none) : a.IsTombstone (a.block c) := by
  have inside := tiled.minSize_inside placed mem
  have read := (tiled.cell_mem mem).1
  rw [dead, cell_eq_dead_iff placed inside] at read
  refine ⟨?_, _, read32?_dataAt placed inside, read.2.1⟩
  rw [← read.1]
  exact header?_dataAt placed (tiled.header_inside placed mem)

/-- The blocks of the objects are the blocks of the cells that have one. -/
theorem Tiled.blocks_objectsOf (placed : a.Placed) (tiled : a.Tiled types offset cells) :
    ((objectsOf cells).map fun x => Block.mk x.address x.size)
      = (cells.filter (·.object.isSome)).map a.block := by
  have each : ∀ c ∈ cells, c.object.map (fun x => Block.mk x.address x.size)
      = if c.object.isSome then some (a.block c) else none := by
    intro c mem
    cases live : c.object with
    | none => rfl
    | some x =>
      obtain ⟨holds, size⟩ := tiled.holds placed mem live
      show some (Block.mk x.address x.size) = some _
      rw [Arena.block, holds.address, size]
  rw [objectsOf, List.map_filterMap, List.filterMap_congr each, ← List.filterMap_eq_map,
    List.filterMap_filter]
  rfl

end Represents

end Arena

/-- **The heap is a row of allocations.** Whatever has happened to a heap, its used part is the row of
all allocations that were made. Each is an object of the size that it took, or a tombstone of that
size once it was freed, and the walk finds exactly the objects. -/
theorem Collector.heap_represents {types : TypeTable} {c : Collector} {events : List Event}
    (history : History types c events) : c.heap.Represents types events := by
  obtain ⟨cells, tracked⟩ := history.tracked
  have placed := tracked.consistent.placed
  have tiled := tracked.consistent.tiled
  have gone : ∀ d ∈ cells, (c.heap.block d).address ∈ freedIn events ↔ d.object = none := by
    intro d mem
    rw [tracked.freed]
    constructor
    · rintro ⟨e, there, dead, same⟩
      cases live : d.object with
      | none => rfl
      | some x =>
        have address := (tiled.holds placed mem live).1.address
        have alive : Live cells x.address := ⟨x, mem_objectsOf.mpr ⟨d, mem, live⟩, rfl⟩
        exact absurd alive (Rejected.not_live tracked.consistent
          (.inr ⟨e, there, dead, address.trans same.symm⟩))
    · exact fun dead => ⟨d, mem, dead, rfl⟩
  refine ⟨placed, ?_, ?_, ?_, ?_, (objectsOf cells).toArray, tiled.walk, ?_⟩
  all_goals rw [tracked.blocks]
  · exact tiled.fills
  · intro block mem
    obtain ⟨d, there, rfl⟩ := List.mem_map.mp mem
    exact tiled.minSize_le there
  · intro block mem stays
    obtain ⟨d, there, rfl⟩ := List.mem_map.mp mem
    obtain ⟨x, live⟩ := Option.ne_none_iff_exists'.mp fun dead => stays ((gone d there).mpr dead)
    exact tiled.isObject placed there live
  · intro block mem freed
    obtain ⟨d, there, rfl⟩ := List.mem_map.mp mem
    exact tiled.isTombstone placed there ((gone d there).mp freed)
  · rw [tiled.blocks_objectsOf placed, List.filter_map]
    refine congrArg _ (List.filter_congr fun d mem => ?_)
    rw [Function.comp_apply, Bool.eq_iff_iff, decide_eq_true_iff, gone d mem,
      Option.isSome_iff_ne_none]

def Collector.blank : Collector :=
  ⟨⟨.zeroed heapBase 4096, 0⟩, {}, {}, ⟨true, true, false, false⟩⟩

theorem Collector.newObject_blank :
    ∃ c, newObject nodeTypes (.ofIndex 4) blank = .ok 0x40000005 c ∧
      c.heap.base = heapBase ∧ History nodeTypes c [.made ⟨0x40000005, 13⟩] := by
  have eight : (nodeTypes.layout? (.ofIndex 4)).map Layout.size = some 8 := by decide +kernel
  obtain ⟨layout, object, size⟩ := Option.map_eq_some_iff.mp eight
  rcases newObject_spec (c := blank) ⟨by decide, by decide⟩ object with
    ⟨full, _⟩ | ⟨total, c, fits, run, extended⟩
  · rw [size] at full
    exact absurd full (by decide)
  · rw [size] at fits
    cases fits.symm.trans (show _ = some 13 by decide)
    have start : History nodeTypes blank [] :=
      .typed _ (.typed _ (.fresh (.zeroed heapBase 4096) ⟨true, true, false, false⟩ (by decide)))
    have next := History.made (.object (.ofIndex 4)) start run
    rw [extended.used, Nat.add_sub_cancel_left] at next
    exact ⟨c, run, extended.base, next⟩

theorem Collector.freed_blank :
    ∃ c report c', newObject nodeTypes (.ofIndex 4) blank = .ok 0x40000005 c ∧
      collect nodeTypes [] c = .ok report c' ∧
      History nodeTypes c'
        [.made ⟨0x40000005, 13⟩, .collected nodeTypes c.heap [] report] := by
  obtain ⟨c, run, _, history⟩ := newObject_blank
  obtain ⟨cells, tracked⟩ := history.tracked
  have rooted : ∀ r ∈ ([] : List UInt64), r = 0 ∨ c.heap.Alive nodeTypes r :=
    fun r mem => absurd mem List.not_mem_nil
  obtain ⟨M, report, heap, journal, ran, _⟩ := tracked.collect rooted
  exact ⟨c, report, _, run, ran, .collected history rooted ran⟩

/-- An object is made and freed, and a tombstone of its size stays. -/
theorem Collector.heap_represents_freed :
    ∃ c report c', newObject nodeTypes (.ofIndex 4) blank = .ok 0x40000005 c ∧
      collect nodeTypes [] c = .ok report c' ∧
      c'.heap.Represents nodeTypes
        [.made ⟨0x40000005, 13⟩, .collected nodeTypes c.heap [] report] := by
  obtain ⟨c, report, c', run, ran, history⟩ := freed_blank
  exact ⟨c, report, c', run, ran, heap_represents history⟩

end ManagedCode.Heap
