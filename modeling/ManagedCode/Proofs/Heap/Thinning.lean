import ManagedCode.Proofs.Heap.Typing
import ManagedCode.Proofs.SideBySide

/-!
# Heaps with objects taken away

A heap after a collection is the heap before with some objects taken away. What a program does on the
two heaps keeps them so: it finds the same in the objects that both have, and allocates at the same
addresses.

* `Thinned`: a heap and what is left of it.
* `Settled.thinned`: after a collection.
* `Thinned.stored`, `Thinned.newObject`, `Thinned.newArray`, `Thinned.collect`: the same is done on
  both heaps.
* `Thinned.hidden`: what differs cannot be reached.
-/

namespace ManagedCode

variable {α β : Type} {R : α → β → Prop} {xs : List α} {ys : List β}

theorem exists_of_mem_right (all : List.Forall₂ R xs ys) {y : β} (mem : y ∈ ys) :
    ∃ x ∈ xs, R x y := by
  induction all with
  | nil => cases mem
  | cons first _ ih =>
    rcases List.mem_cons.mp mem with rfl | later
    · exact ⟨_, List.mem_cons_self, first⟩
    · obtain ⟨x, there, related⟩ := ih later
      exact ⟨x, List.mem_cons_of_mem _ there, related⟩

theorem forall₂_imp_of_mem {S : α → β → Prop} (all : List.Forall₂ R xs ys)
    (step : ∀ x ∈ xs, ∀ y ∈ ys, R x y → S x y) : List.Forall₂ S xs ys := by
  induction all with
  | nil => exact .nil
  | cons first _ ih =>
    exact .cons (step _ List.mem_cons_self _ List.mem_cons_self first)
      (ih fun x memX y memY => step x (List.mem_cons_of_mem _ memX) y (List.mem_cons_of_mem _ memY))

namespace Heap

open Memory (Region)
open Target (Width)
open TypeSystem (TypeId TypeTable Layout)

variable {roots : List UInt64} {clean : Bool}

variable {total : Nat}

namespace Arena

/-- A cell of `b` and the cell of `a` in its place. An object of `a` has its type and its data from
`b`. -/
structure Kept (b a : Arena) (d c : Cell) : Prop where
  offset : c.offset = d.offset
  size : c.size = d.size
  live : ∀ x, c.object = some x → ∃ y, d.object = some y ∧ y.type = x.type ∧
    b.SameData a d.offset d.size

/-- `a` is the arena `b` with some objects taken away. -/
structure Thinned (types : TypeTable) (b a : Arena) : Prop where
  base : a.region.base = b.region.base
  size : a.region.size = b.region.size
  used : a.used = b.used
  row : ∃ cells cells', b.Regular types cells ∧ a.Regular types cells' ∧
    List.Forall₂ (Kept b a) cells cells'
  free : ∀ j, b.used ≤ j → a.region.byte j = b.region.byte j

/-- The bytes that tell `a` from `b` are bytes for the collector and bytes of objects of `b` that the
roots do not lead to. -/
structure Hidden (types : TypeTable) (roots : List UInt64) (b a : Arena) : Prop where
  base : a.region.base = b.region.base
  size : a.region.size = b.region.size
  used : a.used = b.used
  bytes : ∃ cells, b.Tiled types 0 cells ∧ ∀ j, a.region.byte j ≠ b.region.byte j →
    ∃ d ∈ cells, d.offset ≤ j ∧ j < d.offset + d.size ∧
      (j = d.offset + 4 ∨
        ∀ y, d.object = some y → ¬ Reachable b types cells roots y.address)

section Thinned

variable {types : TypeTable} {a b a' b' : Arena} {cells cells' : List Cell} {r : UInt64} {o : Object}

/-! ## Objects -/

variable {d c : Cell} {M : List UInt64} {offset j : Nat}

theorem Kept.both (kept : Kept b a d c) (base : a.region.base = b.region.base)
    (regular : b.Regular types cells) (regular' : a.Regular types cells') (memD : d ∈ cells)
    (memC : c ∈ cells') {x : HeapObject} (live : c.object = some x) :
    ∃ y, d.object = some y ∧ y.type = x.type ∧ y.address = x.address ∧ b.Holds types d.offset y ∧
      d.size = y.size ∧ b.SameData a d.offset y.size := by
  obtain ⟨y, object, type, data⟩ := kept.live x live
  obtain ⟨holds, _⟩ := regular'.tiled.holds regular'.placed memC live
  obtain ⟨holds', size⟩ := regular.tiled.holds regular.placed memD object
  refine ⟨y, object, type, ?_, holds', size, size ▸ data⟩
  rw [holds.address, holds'.address, kept.offset]
  exact (dataAt_congr base _).symm

/-- What is done to both arenas alike. -/
theorem Kept.mono (kept : Kept b a d c)
    (same : ∀ j, a.region.byte j = b.region.byte j → a'.region.byte j = b'.region.byte j) :
    Kept b' a' d c := by
  refine ⟨kept.offset, kept.size, fun x live => ?_⟩
  obtain ⟨y, object, type, data⟩ := kept.live x live
  exact ⟨y, object, type, fun j low high => same j (data j low high)⟩

/-- What is left is what was there. -/
theorem Thinned.object? (wf : types.WellFormed) (thin : Thinned types b a)
    (here : a.object? types r = some o) : b.object? types r = some o := by
  obtain ⟨cells, cells', regular, regular', row⟩ := thin.row
  obtain ⟨c, memC, x, live, rfl, rfl⟩ := (object?_eq_some_iff regular').mp here
  obtain ⟨d, memD, kept⟩ := exists_of_mem_right row memC
  obtain ⟨y, object, type, address, holds, size, data⟩ :=
    kept.both thin.base regular regular' memD memC live
  refine (object?_eq_some_iff regular).mpr ⟨d, memD, y, object, address, ?_⟩
  rw [← type, kept.offset,
    regular.tiled.wordsAt_congr wf regular.placed memD object (size.symm ▸ data)]

/-- The same store to an object that is left. -/
theorem Thinned.stored (wf : types.WellFormed) (thin : Thinned types b a)
    (here : a.object? types r = some o) {i : Nat} {p : Nat × TypeId}
    (place : (o.places types)[i]? = some p) {width : Width}
    (moved : Width.ofSize? (types.size p.2) = some width) (v : UInt64) :
    Thinned types (b.stored (r + UInt64.ofNat p.1) width v)
      (a.stored (r + UInt64.ofNat p.1) width v) := by
  have there := thin.object? wf here
  obtain ⟨cells, cells', regular, regular', row⟩ := thin.row
  have same : ∀ j, a.region.byte j = b.region.byte j →
      (a.stored (r + UInt64.ofNat p.1) width v).region.byte j
        = (b.stored (r + UInt64.ofNat p.1) width v).region.byte j := fun j agree =>
    Region.byte_writeWord_congr thin.base thin.size _ _ _ agree
  refine ⟨?_, ?_, thin.used, ⟨cells, cells', regular_stored wf regular there place moved,
    regular_stored wf regular' here place moved, row.imp fun d c kept => kept.mono same⟩,
    fun j behind => same j (thin.free j behind)⟩
  · exact (Region.base_writeWord ..).trans (thin.base.trans (Region.base_writeWord ..).symm)
  · exact (Region.size_writeWord ..).trans (thin.size.trans (Region.size_writeWord ..).symm)

/-! ## Allocations -/

/-- The same object is added to both heaps. -/
theorem Thinned.extended (thin : Thinned types b a) {type : TypeId}
    (full : b.Extended types type total b') (part : a.Extended types type total a')
    (same : ∀ j, a.region.byte j = b.region.byte j → a'.region.byte j = b'.region.byte j) :
    Thinned types b' a' := by
  obtain ⟨cells, cells', regular, regular', row⟩ := thin.row
  refine ⟨part.base.trans (thin.base.trans full.base.symm),
    part.size.trans (thin.size.trans full.size.symm),
    by rw [part.used, full.used, thin.used],
    ⟨_, _, full.regular regular, part.regular regular', ?_⟩, fun j behind => ?_⟩
  · have old : List.Forall₂ (Kept b' a') cells cells' := row.imp fun d c kept => kept.mono same
    refine List.rel_append old (.cons ⟨thin.used, rfl, fun x live => ?_⟩ .nil)
    cases live
    refine ⟨_, rfl, rfl, fun j low _ => same j (thin.free j ?_)⟩
    exact Nat.le_trans (Nat.le_add_right _ _) low
  · rw [full.used] at behind
    exact same j (thin.free j (Nat.le_trans (Nat.le_add_right _ _) behind))

/-- The arena with a new object, before its first word is set. -/
def allocated (a : Arena) (type : TypeId) (total : Nat) : Arena :=
  (a.reserve total).setHeader a.nextData ⟨type.raw, .fresh⟩

theorem Thinned.nextData (thin : Thinned types b a) : a.nextData = b.nextData := by
  unfold Arena.nextData Arena.next Arena.base
  rw [thin.base, thin.used]

/-- The regions after an allocation lie and agree as they did before. -/
theorem Thinned.allocated (thin : Thinned types b a) (type : TypeId) (total : Nat) :
    (a.allocated type total).region.base = (b.allocated type total).region.base ∧
      (a.allocated type total).region.size = (b.allocated type total).region.size ∧
      ∀ j, a.region.byte j = b.region.byte j →
        (a.allocated type total).region.byte j = (b.allocated type total).region.byte j := by
  have next : a.next = b.next := by
    rw [Arena.next, Arena.next, Arena.base, Arena.base, thin.base, thin.used]
  unfold Arena.allocated setHeader reserve Header.write
  rw [thin.nextData, next]
  refine ⟨by simp [thin.base], by simp [thin.size], fun j same => ?_⟩
  refine Region.byte_writeWord_congr ?_ ?_ _ _ _ (Region.byte_writeWord_congr ?_ ?_ _ _ _
    (Region.byte_clear_congr thin.base thin.size _ _ same))
  · simp [thin.base]
  · simp [thin.size]
  · simp [thin.base]
  · simp [thin.size]

/-! ## Reachability -/

/-- What is reachable in what is left was reachable. -/
theorem Thinned.reachable (wf : types.WellFormed) (thin : Thinned types b a)
    (regular : b.Regular types cells) (regular' : a.Regular types cells')
    (reached : Reachable a types cells' roots r) : Reachable b types cells roots r := by
  induction reached with
  | root mem nonnull => exact .root mem nonnull
  | @follow x r _ mem held ih =>
    obtain ⟨o, c, here, atA⟩ := regular'.at_of_mem mem
    obtain ⟨d, y, atB⟩ := at_of_object? regular (thin.object? wf here)
    have held' := (atB.mem_references wf regular).mpr ((atA.mem_references wf regular').mp held)
    rw [← atB.address] at ih
    exact .follow ih (mem_objectsOf.mpr ⟨d, atB.mem, atB.live⟩) held'

/-- What roots that are left lead to is left. -/
theorem Thinned.left (wf : types.WellFormed) (thin : Thinned types b a)
    (typed : WellTyped types clean a) (regular : b.Regular types cells)
    (rooted : ∀ r ∈ roots, r ≠ 0 → ∃ o, a.object? types r = some o)
    (reached : Reachable b types cells roots r) : ∃ o, a.object? types r = some o := by
  induction reached with
  | root mem nonnull => exact rooted _ mem nonnull
  | @follow y r _ mem held ih =>
    obtain ⟨o, here⟩ := ih
    obtain ⟨_, d, there, atB⟩ := regular.at_of_mem mem
    cases (thin.object? wf here).symm.trans there
    obtain ⟨nonnull, i, p, place, reference, value⟩ := (atB.mem_references wf regular).mp held
    exact ((typed.word here place value).object reference nonnull).imp fun _ => And.left

/-- Both heaps are collected, and what is kept in `a` is kept in `b`. -/
theorem Thinned.settled (thin : Thinned types b a) (regular : b.Regular types cells)
    (regular' : a.Regular types cells') (row : List.Forall₂ (Kept b a) cells cells')
    {M' : List UInt64} (settled : Settled b types cells M b')
    (settled' : Settled a types cells' M' a') (fewer : ∀ r ∈ M', r ∈ M) : Thinned types b' a' := by
  refine ⟨settled'.base.trans (thin.base.trans settled.base.symm),
    settled'.size.trans (thin.size.trans settled.size.symm),
    settled'.used.trans (thin.used.trans settled.used.symm),
    ⟨_, _, settled.regular regular, settled'.regular regular', ?_⟩, fun j behind => ?_⟩
  · rw [List.forall₂_map_left_iff, List.forall₂_map_right_iff]
    refine forall₂_imp_of_mem row fun d memD c memC kept => ⟨kept.offset, kept.size, fun x live => ?_⟩
    obtain ⟨z, object, stays⟩ := Option.bind_eq_some_iff.mp live
    split at stays
    · rename_i there
      cases stays
      obtain ⟨y, object', type, address, _, size, data⟩ :=
        kept.both thin.base regular regular' memD memC object
      have there' : y.address ∈ M := address.symm ▸ fewer _ there
      refine ⟨y.aged, by simp [Cell.settled, object', there'], type, fun j low high => ?_⟩
      have low' : c.offset + headerSize ≤ j := kept.offset.symm ▸ low
      have high' : j < c.offset + c.size := by
        rw [kept.offset, kept.size]
        exact high
      rw [settled'.data c memC z object there j low' high', data j low (size ▸ high),
        settled.data d memD y object' there' j low high]
    · cases stays
  · rw [settled.used] at behind
    rw [settled'.free j (thin.used.symm ▸ behind), thin.free j behind, settled.free j behind]

/-- Every byte of the used part lies in a cell. -/
theorem Tiled.covers (tiled : a.Tiled types offset cells) (low : offset ≤ j) (high : j < a.used) :
    ∃ c ∈ cells, c.offset ≤ j ∧ j < c.offset + c.size := by
  induction cells generalizing offset with
  | nil =>
    have stop : offset = a.used := tiled
    omega
  | cons c rest ih =>
    obtain ⟨start, _, later⟩ := tiled
    by_cases here : j < offset + c.size
    · exact ⟨c, List.mem_cons_self, by omega, by omega⟩
    · obtain ⟨d, mem, inside⟩ := ih later (by omega)
      exact ⟨d, List.mem_cons_of_mem _ mem, inside⟩

/-- Equal words have equal bytes. -/
theorem byte_eq_of_wordAt {r s : Region}
    (same : (r.wordAt offset 4).toUInt32 = (s.wordAt offset 4).toUInt32) (low : offset ≤ j)
    (high : j < offset + 4) : r.byte j = s.byte j := by
  have boundR := Region.toNat_wordAt_lt r offset (show 4 ≤ 8 by decide)
  have boundS := Region.toNat_wordAt_lt s offset (show 4 ≤ 8 by decide)
  have word : r.wordAt offset 4 = s.wordAt offset 4 := by
    apply UInt64.toNat_inj.mp
    have same := congrArg UInt32.toNat same
    rw [UInt64.toNat_toUInt32, UInt64.toNat_toUInt32] at same
    omega
  have bytes : r.bytesAt offset 4 = s.bytesAt offset 4 := by
    have whole := congrArg (encodeLE 4) word
    unfold Region.wordAt at whole
    have left := encodeLE_decodeLE (r.bytesAt offset 4) (by rw [Region.length_bytesAt]; decide)
    have right := encodeLE_decodeLE (s.bytesAt offset 4) (by rw [Region.length_bytesAt]; decide)
    rw [Region.length_bytesAt] at left right
    exact left.symm.trans (whole.trans right)
  have atJ : (r.bytesAt offset 4)[j - offset]? = (s.bytesAt offset 4)[j - offset]? := by rw [bytes]
  rw [Region.getElem?_bytesAt r offset 4 _ (by omega), Region.getElem?_bytesAt s offset 4 _ (by omega),
    Nat.add_sub_cancel' low] at atJ
  exact Option.some.inj atJ

/-- What tells the two heaps apart cannot be reached from roots that are left. -/
theorem Thinned.hidden (wf : types.WellFormed) (thin : Thinned types b a)
    (typed : WellTyped types clean a)
    (rooted : ∀ r ∈ roots, r ≠ 0 → ∃ o, a.object? types r = some o) : Hidden types roots b a := by
  obtain ⟨cells, cells', regular, regular', row⟩ := thin.row
  refine ⟨thin.base, thin.size, thin.used, cells, regular.tiled, fun j differs => ?_⟩
  have low : j < b.used := by
    by_contra behind
    exact differs (thin.free j (Nat.le_of_not_lt behind))
  obtain ⟨c, memC, above, below⟩ := regular'.tiled.covers (Nat.zero_le j) (thin.used.symm ▸ low)
  obtain ⟨d, memD, kept⟩ := exists_of_mem_right row memC
  rw [kept.offset, kept.size] at below
  rw [kept.offset] at above
  refine ⟨d, memD, above, below, ?_⟩
  cases object : c.object with
  | some x =>
    -- An object that is left differs in the byte for the collector at most.
    obtain ⟨y, object', type, _, holds, size, data⟩ :=
      kept.both thin.base regular regular' memD memC object
    obtain ⟨holds', _⟩ := regular'.tiled.holds regular'.placed memC object
    refine .inl ?_
    by_contra other
    refine differs ?_
    by_cases header : j < d.offset + 4
    · refine byte_eq_of_wordAt ?_ above header
      have typeA := congrArg Header.type holds'.type
      have typeB := congrArg Header.type holds.type
      rw [kept.offset] at typeA
      exact typeA.trans ((congrArg TypeId.raw type).symm.trans typeB.symm)
    · exact data j (by simp only [headerSize]; omega) (size ▸ below)
  | none =>
    refine .inr fun y live reached => ?_
    obtain ⟨o, here⟩ := thin.left wf typed regular rooted reached
    obtain ⟨c', x, atA⟩ := at_of_object? regular' here
    obtain ⟨d', memD', kept'⟩ := exists_of_mem_right row atA.mem
    obtain ⟨y', live', _, address, _⟩ :=
      kept'.both thin.base regular regular' memD' atA.mem atA.live
    have same := regular.tiled.cell_unique regular.placed memD' memD live' live
      (address.trans atA.address)
    subst same
    have size := regular'.tiled.minSize_le memC
    have size' := regular'.tiled.minSize_le atA.mem
    simp only [minSize, headerSize, minDataSize] at size size'
    have offset := kept.offset
    have offset' := kept'.offset
    rcases regular'.tiled.eq_or_apart memC atA.mem with rfl | before | after
    · cases object.symm.trans atA.live
    · omega
    · omega

end Thinned

end Arena

/-! ## The same on both heaps -/

namespace Collector

open Arena

/-- A collector with a well-typed heap and another with what is left of it. -/
structure Beside (types : TypeTable) (k k' : Collector) : Prop where
  thin : Thinned types k.heap k'.heap
  typed : WellTyped types false k.heap

/-- What is left of a heap, and the heap. -/
abbrev Under (types : TypeTable) (k' k : Collector) : Prop := Beside types k k'

section Under

variable {types : TypeTable} {type : TypeId} {k k' : Collector}

theorem Beside.fit? (beside : Beside types k k') (dataSize : Nat) :
    k'.heap.fit? dataSize = k.heap.fit? dataSize := by
  unfold Arena.fit? Arena.available Arena.capacity
  rw [beside.thin.size, beside.thin.used]

theorem Beside.available (beside : Beside types k k') :
    k'.heap.available = k.heap.available := by
  unfold Arena.available Arena.capacity
  rw [beside.thin.size, beside.thin.used]

theorem heap_of_allocate {c c' : Collector} {r : UInt64} {dataSize : Nat}
    (fits : c.heap.fit? dataSize = some total) (ran : allocate types type dataSize c = .ok r c') :
    c'.heap = c.heap.allocated type total := by
  obtain ⟨heap, stats, journal, options⟩ := c
  unfold allocate at ran
  dsimp only at ran fits
  rw [fits] at ran
  cases ran
  rfl

section Allocating

variable (wf : types.WellFormed) (beside : Beside types k k')

include wf beside

theorem Beside.adds (type : TypeId) {act : EStateM AllocationError Collector UInt64}
    (dataSize : Nat) (after : Arena → Nat → Region)
    (spec : ∀ c : Collector, c.heap.Placed → (c.heap.fit? dataSize = none ∧ act c = .error
      (.heapExhausted dataSize c.heap.available) c) ∨ ∃ total c', c.heap.fit? dataSize = some total
      ∧ act c = .ok c.heap.nextData c' ∧ c.heap.Extended types type total c'.heap ∧ c'.heap.region
      = after c.heap total)
    (same : ∀ total j, k'.heap.region.byte j = k.heap.region.byte j → (after k'.heap total).byte
      j = (after k.heap total).byte j) : Both (Under types) (act k') (act k) := by
  obtain ⟨cells, cells', regular, regular', _⟩ := beside.thin.row
  rcases spec k regular.placed with ⟨full, failed⟩ | ⟨total, c, fits, ran, extended, region⟩
  · rcases spec k' regular'.placed with ⟨_, failed'⟩ | ⟨_, _, fits', _⟩
    · rw [failed, failed', beside.available]
      exact .error beside
    · rw [beside.fit?, full] at fits'
      cases fits'
  · rcases spec k' regular'.placed with ⟨full', _⟩ | ⟨_, c', fits', ran', extended', region'⟩
    · rw [beside.fit?, fits] at full'
      cases full'
    · rw [beside.fit?, fits] at fits'
      cases fits'
      rw [ran, ran', beside.thin.nextData]
      refine .ok ⟨beside.thin.extended extended extended' fun j agree => ?_,
        beside.typed.extended wf extended⟩
      rw [region, region']
      exact same total j agree

theorem Beside.newObject (type : TypeId) :
    Both (Under types) (Collector.newObject types type k') (Collector.newObject types type k) := by
  cases object : types.layout? type with
  | none =>
    unfold Collector.newObject
    rw [object]
    exact .error beside
  | some layout =>
    refine beside.adds wf type (max layout.size minDataSize)
      (fun a total => (a.allocated type total).region) (fun c placed => ?_)
      fun total j agree => (beside.thin.allocated type total).2.2 j agree
    refine (newObject_spec placed object).imp_right ?_
    rintro ⟨total, c', fits, ran, extended⟩
    refine ⟨total, c', fits, ran, extended, ?_⟩
    unfold Collector.newObject at ran
    rw [object] at ran
    rw [heap_of_allocate fits ran]

theorem Beside.newArray (type : TypeId) (length : Int) :
    Both (Under types) (Collector.newArray types type length k')
      (Collector.newArray types type length k) := by
  cases array : types.element? type with
  | none =>
    unfold Collector.newArray
    rw [array]
    exact .error beside
  | some element =>
    by_cases allowed : 0 ≤ length ∧ length < 0x80000000
    · obtain ⟨n, rfl⟩ := Int.eq_ofNat_of_zero_le allowed.1
      refine beside.adds wf type (arrayDataSize (types.size element) n) (fun a total =>
        (a.allocated type total).region.writeWord a.nextData 4 (UInt64.ofNat n))
        (fun c placed => ?_) fun total j agree => ?_
      · refine (newArray_spec placed array (by omega)).imp_right ?_
        rintro ⟨total, c', fits, ran, extended, _⟩
        refine ⟨total, c', fits, ran, extended, ?_⟩
        unfold Collector.newArray at ran
        rw [array] at ran
        dsimp only at ran
        rw [if_pos allowed, Int.toNat_natCast] at ran
        obtain ⟨data, middle, first, rest⟩ := bind_eq_ok_iff.mp ran
        cases rest
        show Region.writeWord _ _ _ _ = _
        rw [heap_of_allocate fits first]
      · obtain ⟨base, size, bytes⟩ := beside.thin.allocated type total
        rw [beside.thin.nextData]
        exact Region.byte_writeWord_congr base size _ _ _ (bytes j agree)
    · unfold Collector.newArray
      rw [array]
      dsimp only
      rw [if_neg allowed]
      exact .error beside

/-- A collection from roots that are left in both heaps. -/
theorem Beside.collect (typed : WellTyped types clean k'.heap)
    (rooted : ∀ r ∈ roots, r ≠ 0 → ∃ o, k'.heap.object? types r = some o) :
    Both (Under types) (discard (Collector.collect types roots) k')
      (discard (Collector.collect types roots) k) := by
  obtain ⟨cells, cells', regular, regular', row⟩ := beside.thin.row
  obtain ⟨M, report, heap, journal, ran, exactly, settled, typed₂⟩ :=
    beside.typed.collect wf regular fun r mem nonnull =>
      (rooted r mem nonnull).imp fun _ here => beside.thin.object? wf here
  obtain ⟨M', report', heap', journal', ran', exactly', settled', _⟩ :=
    typed.collect wf regular' rooted
  have ran : discard (Collector.collect types roots) k = .ok () _ := bind_of_ok ran
  have ran' : discard (Collector.collect types roots) k' = .ok () _ := bind_of_ok ran'
  rw [ran, ran']
  exact .ok ⟨beside.thin.settled regular regular' row settled settled' fun r mem =>
    (exactly r).mpr (beside.thin.reachable wf regular regular' ((exactly' r).mp mem)), typed₂⟩

end Allocating

end Under

end Collector

end Heap

end ManagedCode
