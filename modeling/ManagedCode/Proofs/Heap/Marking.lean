import ManagedCode.Proofs.Heap.Cells

/-!
# What marking marks

`Reachable` says which objects a list of references leads to, through the references that live
objects hold. On a consistent arena the marker sets the mark of exactly these objects and changes
nothing else (`MarkState.mark`). A root that is no object may stop it before (`MarkState.mark_cases`).

`MarkState` is the invariant of the loop: what is marked or waiting is reachable, and what a marked
object refers to is marked or waiting. `MarkState.round` is one round.
-/

namespace ManagedCode.Heap

open Memory (Region)
open TypeSystem (TypeId TypeTable Shape Layout Field)

namespace Arena

variable {b : Arena}

/-! ## Definitions -/

/-- Some live object has its data at the address. -/
def Live (cells : List Cell) (address : UInt64) : Prop :=
  ∃ x ∈ objectsOf cells, x.address = address

instance (cells : List Cell) (address : UInt64) : Decidable (Live cells address) :=
  inferInstanceAs (Decidable (∃ x ∈ objectsOf cells, x.address = address))

/-- What references lead to.

* `root`: a reference leads to its own object unless it is null.
* `follow`: from an object it leads on to what the object refers to. -/
inductive Reachable (a : Arena) (types : TypeTable) (cells : List Cell) (roots : List UInt64) :
    UInt64 → Prop
  | root {r : UInt64} : r ∈ roots → r ≠ 0 → Reachable a types cells roots r
  | follow {x : HeapObject} {r : UInt64} :
      Reachable a types cells roots x.address → x ∈ objectsOf cells → r ∈ a.references types x →
      Reachable a types cells roots r

/-- The used part is a row of cells, and what a live object refers to is live. -/
structure Consistent (a : Arena) (types : TypeTable) (cells : List Cell) : Prop where
  placed : a.Placed
  tiled : a.Tiled types 0 cells
  closed : ∀ x ∈ objectsOf cells, ∀ r ∈ a.references types x, Live cells r

/-- No object, and seen to be none: the address lies outside the used part, or it is that of the data
under a tombstone. -/
def Rejected (a : Arena) (cells : List Cell) (address : UInt64) : Prop :=
  a.contains address = false ∨ ∃ c ∈ cells, c.object = none ∧ address = a.dataAt c.offset

/-- `b` is the arena `a` with the marks of the objects in `M` set. -/
structure Marks (a : Arena) (cells : List Cell) (M : List UInt64) (b : Arena) : Prop where
  base : b.region.base = a.region.base
  size : b.region.size = a.region.size
  used : b.used = a.used
  marked : ∀ c ∈ cells, ∀ x, c.object = some x → x.address ∈ M →
    b.region.byte (c.offset + 4) = x.info.marked.byte
  rest : ∀ j, (∀ c ∈ cells, ∀ x, c.object = some x → x.address ∈ M → j ≠ c.offset + 4) →
    b.region.byte j = a.region.byte j

/-- The marker's loop at work: the objects in `M` are marked and `work` is waiting. -/
structure MarkState (a : Arena) (types : TypeTable) (cells : List Cell) (roots : List UInt64)
    (b : Arena) (work M : List UInt64) : Prop where
  marks : Marks a cells M b
  nodup : M.Nodup
  marked_reachable : ∀ r ∈ M, Reachable a types cells roots r
  waiting_reachable : ∀ r ∈ work, Reachable a types cells roots r
  followed : ∀ x ∈ objectsOf cells, x.address ∈ M → ∀ r ∈ a.references types x, r ∈ M ∨ r ∈ work
  started : ∀ r ∈ roots, r ≠ 0 → r ∈ M ∨ r ∈ work

/-! ## Pushing the references of an object -/

theorem foldlM_pushSlot {places : List UInt64}
    (readable : ∀ s ∈ places, (b.region.read64? s).isSome = true) (work : List UInt64) :
    places.foldlM b.pushSlot work
      = .ok (((places.filterMap b.region.read64?).filter (· ≠ 0)).reverse ++ work) := by
  induction places generalizing work with
  | nil => rfl
  | cons s rest ih =>
    obtain ⟨value, read⟩ := Option.isSome_iff_exists.mp (readable s List.mem_cons_self)
    have later := ih fun t mem => readable t (List.mem_cons_of_mem _ mem)
    rw [List.foldlM_cons, pushSlot, read, List.filterMap_cons_some read]
    simp only [bind, Except.bind]
    rw [later]
    by_cases null : value = 0
    · simp [null]
    · simp [null]

theorem pushSlots_eq_foldlM (b : Arena) (n : Nat) (slot : UInt64) (work : List UInt64) :
    b.pushSlots n slot work
      = ((List.range n).map fun i => slot + UInt64.ofNat (8 * i)).foldlM b.pushSlot work := by
  induction n generalizing slot work with
  | zero => rfl
  | succ n ih =>
    have shift : ((List.range n).map fun i => slot + 8 + UInt64.ofNat (8 * i))
        = (List.range n).map fun i => slot + UInt64.ofNat (8 * (i + 1)) := by
      apply List.map_congr_left
      intro i _
      rw [Nat.mul_succ, Nat.add_comm (8 * i) 8, UInt64.ofNat_add, ← UInt64.add_assoc]
      rfl
    have first : slot + UInt64.ofNat (8 * 0) = slot := by simp
    rw [pushSlots, List.range_succ_eq_map, List.map_cons, List.map_map, List.foldlM_cons, first]
    cases b.pushSlot work slot with
    | error e => rfl
    | ok next =>
      dsimp only
      rw [ih, shift]
      rfl

/-- Pushing the references of an object puts them on the stack, the last one on top. -/
theorem pushReferences_eq {types : TypeTable} {x : HeapObject}
    (known : ∃ shape, types.shape? x.type = some shape)
    (sized : (b.region.read32? x.address).isSome = true)
    (readable : ∀ s ∈ b.slots types x.type x.address, (b.region.read64? s.1).isSome = true)
    (work : List UInt64) :
    b.pushReferences types x.type x.address work
      = .ok ((b.references types x).reverse ++ work) := by
  obtain ⟨shape, known⟩ := known
  have places : ∀ s ∈ (b.slots types x.type x.address).map Prod.fst,
      (b.region.read64? s).isSome = true := by
    intro s mem
    obtain ⟨t, there, rfl⟩ := List.mem_map.mp mem
    exact readable t there
  have all := foldlM_pushSlot places work
  rw [List.filterMap_map] at all
  rw [references]
  refine Eq.trans ?_ all
  unfold pushReferences slots
  rw [known]
  cases shape with
  | primitive p => rfl
  | object layout =>
    cases layout with
    | none => rfl
    | some layout => simp only [List.map_map, List.foldlM_map]; rfl
  | array element =>
    dsimp only
    split
    · obtain ⟨length, read⟩ := Option.isSome_iff_exists.mp sized
      simp only [read, pushSlots_eq_foldlM, lengthAt, Option.getD_some, List.map_map]
      congr 1
      apply List.map_congr_left
      intro i _
      simp only [Function.comp_apply]
      rw [UInt64.ofNat_add, UInt64.add_assoc]
    · rfl

/-! ## Marks -/

section Marks

variable {a b : Arena} {types : TypeTable} {cells : List Cell} {M : List UInt64}
variable {c : Cell} {x : HeapObject}

theorem Marks.refl (a : Arena) (cells : List Cell) : Marks a cells [] a :=
  ⟨rfl, rfl, rfl, fun _ _ _ _ mem => absurd mem List.not_mem_nil, fun _ _ => rfl⟩

theorem Marks.placed (marks : Marks a cells M b) (placed : a.Placed) : b.Placed :=
  placed.congr marks.base marks.size marks.used

/-- A byte that is not the fifth of a cell is as before. -/
theorem Marks.byte_of_ne (marks : Marks a cells M b) {j : Nat}
    (elsewhere : ∀ c ∈ cells, j ≠ c.offset + 4) : b.region.byte j = a.region.byte j :=
  marks.rest j fun c mem _ _ _ => elsewhere c mem

theorem Tiled.ne_info {offset : Nat} (tiled : a.Tiled types offset cells) (mem : c ∈ cells)
    {j : Nat} (low : c.offset ≤ j) (high : j < c.offset + c.size) (apart : j ≠ c.offset + 4) :
    ∀ d ∈ cells, j ≠ d.offset + 4 := by
  intro d there
  have := tiled.minSize_le there
  simp only [minSize, headerSize, minDataSize] at this
  rcases tiled.eq_or_apart mem there with rfl | before | after
  · exact apart
  · omega
  · omega

theorem Tiled.eq_of_info {offset : Nat} (tiled : a.Tiled types offset cells) (mem : c ∈ cells)
    {d : Cell} (there : d ∈ cells) (same : c.offset + 4 = d.offset + 4) : c = d := by
  have enough := tiled.minSize_le mem
  have enough' := tiled.minSize_le there
  simp only [minSize, headerSize, minDataSize] at enough enough'
  rcases tiled.eq_or_apart mem there with equal | before | after
  · exact equal
  · omega
  · omega

theorem Marks.sameData (marks : Marks a cells M b) (tiled : a.Tiled types 0 cells)
    (mem : c ∈ cells) : a.SameData b c.offset c.size := by
  intro i low high
  simp only [headerSize] at low
  exact marks.byte_of_ne (tiled.ne_info mem (by omega) high (by omega))

theorem Marks.dataAt (marks : Marks a cells M b) (offset : Nat) :
    b.dataAt offset = a.dataAt offset :=
  dataAt_congr marks.base offset

theorem Marks.typeWord (marks : Marks a cells M b) (tiled : a.Tiled types 0 cells)
    (mem : c ∈ cells) : b.region.wordAt c.offset 4 = a.region.wordAt c.offset 4 := by
  have enough := tiled.minSize_le mem
  simp only [minSize, headerSize, minDataSize] at enough
  exact Region.wordAt_congr fun i low high =>
    marks.byte_of_ne (tiled.ne_info mem low (by omega) (by omega))

section

variable (marks : Marks a cells M b) (placed : a.Placed) (tiled : a.Tiled types 0 cells)
  (mem : c ∈ cells) (live : c.object = some x)

include marks placed tiled mem live

/-- The header of a live object keeps its type and has the mark if the object was marked. -/
theorem Marks.headerAt :
    b.headerAt c.offset = ⟨x.type.raw, if x.address ∈ M then x.info.marked else x.info⟩ := by
  have header := (tiled.holds placed mem live).1.type
  simp only [Arena.headerAt, Header.mk.injEq] at header ⊢
  refine ⟨by rw [marks.typeWord tiled mem]; exact header.1, ?_⟩
  split
  · rename_i there
    rw [marks.marked c mem x live there]
  · rename_i absent
    rw [marks.rest, header.2]
    intro d there y alive marked here
    cases tiled.eq_of_info mem there here
    rw [live] at alive
    cases alive
    exact absent marked

theorem Marks.header? :
    b.header? x.address = some ⟨x.type.raw, if x.address ∈ M then x.info.marked else x.info⟩ := by
  rw [(tiled.holds placed mem live).1.address, ← marks.dataAt, header?_dataAt (marks.placed placed)
    (by rw [marks.size]; exact tiled.header_inside placed mem), marks.dataAt,
    ← (tiled.holds placed mem live).1.address, marks.headerAt placed tiled mem live]

/-- Setting the mark of one more object. -/
theorem Marks.insert : Marks a cells (x.address :: M) (b.setInfo x.address x.info.marked) := by
  have place : b.region.offset? (x.address - 1) 1 = some (c.offset + 4) := by
    rw [(tiled.holds placed mem live).1.address, ← marks.dataAt]
    exact offset?_info (marks.placed placed) (by
      rw [marks.size]
      exact tiled.header_inside placed mem)
  have region := setInfo_eq x.info.marked place
  refine ⟨?_, ?_, marks.used, ?_, ?_⟩
  · rw [region, Region.base_setByte, marks.base]
  · rw [region, Region.size_setByte, marks.size]
  · intro d there y alive marked
    rw [region, Region.byte_setByte]
    split
    · rename_i here
      cases tiled.eq_of_info mem there here.symm
      rw [live] at alive
      cases alive
      rfl
    · rename_i elsewhere
      rcases List.mem_cons.mp marked with same | older
      · have one := tiled.cell_unique placed there mem alive live same
        rw [one] at elsewhere
        exact absurd rfl elsewhere
      · exact marks.marked d there y alive older
  · intro j elsewhere
    rw [region, Region.byte_setByte,
      if_neg (elsewhere c mem x live List.mem_cons_self)]
    exact marks.rest j fun d there y alive older =>
      elsewhere d there y alive (List.mem_cons_of_mem _ older)

end

end Marks

/-! ## The loop -/

theorem contains_address {a : Arena} {types : TypeTable} {cells : List Cell} (placed : a.Placed)
    (tiled : a.Tiled types 0 cells) {c : Cell} (mem : c ∈ cells) {x : HeapObject}
    (live : c.object = some x) : a.contains x.address = true := by
  have place := tiled.toNat_address placed mem live
  have bound := (tiled.cell_mem mem).2.2
  have enough := tiled.minSize_le mem
  have used := placed.used_le
  have below := placed.below
  simp only [minSize, headerSize, minDataSize] at place enough
  simp only [contains, next, Arena.base, Bool.and_eq_true, decide_eq_true_eq,
    UInt64.le_iff_toNat_le, UInt64.lt_iff_toNat_lt, UInt64.toNat_add, UInt64.toNat_ofNat',
    UInt64.reduceToNat]
  omega

theorem Marks.contains {a : Arena} {cells : List Cell} {M : List UInt64} (marks : Marks a cells M b)
    (address : UInt64) : b.contains address = a.contains address := by
  unfold Arena.contains next Arena.base
  rw [marks.base, marks.used]

section Loop

variable {a b : Arena} {types : TypeTable} {cells : List Cell} {roots work M : List UInt64}
variable {r : UInt64} {c : Cell} {x : HeapObject}

/-- What waits is a live object, or a root that is none. -/
theorem Reachable.live_or_root (consistent : a.Consistent types cells)
    (reachable : Reachable a types cells roots r) : Live cells r ∨ r ∈ roots ∧ r ≠ 0 := by
  cases reachable with
  | root mem nonnull => exact .inr ⟨mem, nonnull⟩
  | follow _ mem held => exact .inl (consistent.closed _ mem r held)

/-- Only live objects are reachable. -/
theorem Reachable.live (consistent : a.Consistent types cells)
    (rooted : ∀ r ∈ roots, r ≠ 0 → Live cells r) (reachable : Reachable a types cells roots r) :
    Live cells r :=
  (reachable.live_or_root consistent).elim id fun ⟨mem, nonnull⟩ => rooted r mem nonnull

/-- The marker starts with the roots, of which the last is followed first. -/
theorem markState_start (a : Arena) (types : TypeTable) (cells : List Cell) (roots : List UInt64) :
    MarkState a types cells roots a (roots.filter (· != 0)).reverse [] := by
  refine ⟨.refl _ _, .nil, fun _ mem => absurd mem List.not_mem_nil, ?_,
    fun _ _ mem => absurd mem List.not_mem_nil, ?_⟩
  · intro r mem
    obtain ⟨there, nonnull⟩ := List.mem_filter.mp (List.mem_reverse.mp mem)
    exact .root there (by simpa using nonnull)
  · intro r mem nonnull
    exact .inr (List.mem_reverse.mpr (List.mem_filter.mpr ⟨mem, by simpa using nonnull⟩))

/-- What is marked once nothing is waiting is what is reachable. -/
theorem MarkState.mem_iff (state : MarkState a types cells roots b [] M) :
    r ∈ M ↔ Reachable a types cells roots r := by
  refine ⟨state.marked_reachable r, fun reachable => ?_⟩
  induction reachable with
  | root mem nonnull => exact (state.started _ mem nonnull).resolve_right List.not_mem_nil
  | follow _ mem held ih =>
    exact (state.followed _ mem ih _ held).resolve_right List.not_mem_nil

theorem MarkState.skip (state : MarkState a types cells roots b (r :: work) M) (again : r ∈ M) :
    MarkState a types cells roots b work M := by
  have moved : ∀ s, s ∈ M ∨ s ∈ r :: work → s ∈ M ∨ s ∈ work := by
    rintro s (done | waiting)
    · exact .inl done
    · rcases List.mem_cons.mp waiting with rfl | later
      · exact .inl again
      · exact .inr later
  exact ⟨state.marks, state.nodup, state.marked_reachable,
    fun s mem => state.waiting_reachable s (List.mem_cons_of_mem _ mem),
    fun x mem marked s held => moved s (state.followed x mem marked s held),
    fun s mem nonnull => moved s (state.started s mem nonnull)⟩

/-- An object met for the first time is marked, and its references wait in its place. -/
theorem MarkState.visit (consistent : a.Consistent types cells) (mem : c ∈ cells)
    (live : c.object = some x) (state : MarkState a types cells roots b (x.address :: work) M)
    (new : x.address ∉ M) :
    MarkState a types cells roots (b.setInfo x.address x.info.marked)
      ((a.references types x).reverse ++ work) (x.address :: M) := by
  have object : x ∈ objectsOf cells := mem_objectsOf.mpr ⟨c, mem, live⟩
  have reachable := state.waiting_reachable x.address List.mem_cons_self
  have moved : ∀ s, s ∈ M ∨ s ∈ x.address :: work →
      s ∈ x.address :: M ∨ s ∈ (a.references types x).reverse ++ work := by
    intro s where_
    rcases where_ with done | waiting
    · exact .inl (List.mem_cons_of_mem _ done)
    · rcases List.mem_cons.mp waiting with rfl | later
      · exact .inl List.mem_cons_self
      · exact .inr (List.mem_append_right _ later)
  refine ⟨state.marks.insert consistent.placed consistent.tiled mem live,
    List.nodup_cons.mpr ⟨new, state.nodup⟩, ?_, ?_, ?_,
    fun s mem nonnull => moved s (state.started s mem nonnull)⟩
  · intro s marked
    rcases List.mem_cons.mp marked with rfl | older
    · exact reachable
    · exact state.marked_reachable s older
  · intro s waiting
    rcases List.mem_append.mp waiting with held | older
    · exact reachable.follow object (List.mem_reverse.mp held)
    · exact state.waiting_reachable s (List.mem_cons_of_mem _ older)
  · intro y there marked s held
    rcases List.mem_cons.mp marked with same | older
    · -- Two live objects at one address are one object, so `s` was just pushed.
      obtain ⟨d, inside, alive⟩ := mem_objectsOf.mp there
      have one := consistent.tiled.cell_unique consistent.placed inside mem alive live same
      subst one
      rw [live] at alive
      cases alive
      exact .inr (List.mem_append_left _ (List.mem_reverse.mpr held))
    · exact moved s (state.followed y there older s held)

/-- All the references of a live object can be pushed, also while others are marked. -/
theorem Marks.pushReferences (marks : Marks a cells M b) (wf : types.WellFormed)
    (consistent : a.Consistent types cells) (mem : c ∈ cells) (live : c.object = some x)
    (work : List UInt64) :
    b.pushReferences types x.type x.address work
      = .ok ((a.references types x).reverse ++ work) := by
  have placed := consistent.placed
  have tiled := consistent.tiled
  obtain ⟨holds, size⟩ := tiled.holds placed mem live
  have bound := (tiled.cell_mem mem).2.2
  have used := placed.used_le
  have enough := tiled.minSize_le mem
  have same := marks.sameData tiled mem
  rw [size] at bound enough same
  rw [← tiled.references_congr wf placed marks.base marks.size mem live (marks.sameData tiled mem)]
  have known : ∃ shape, types.shape? x.type = some shape := by
    rcases sizeFrom_cases holds.size with ⟨_, _, shape, _⟩ | ⟨_, _, shape, _⟩
    · exact ⟨_, shape⟩
    · exact ⟨_, shape⟩
  refine pushReferences_eq known ?_ ?_ work
  · rw [Region.read32?, Option.isSome_map, Region.readWord?_isSome_iff, Region.contains_iff,
      holds.address, toNat_dataAt placed (by simp only [minSize] at enough; omega), marks.base,
      marks.size]
    simp only [minSize, minDataSize] at enough
    omega
  · intro s inside
    rw [slots_congr placed marks.base marks.size (by omega) holds enough same] at inside
    obtain ⟨k, place, room⟩ := slot_inside wf placed (by omega) holds inside
    rw [Region.read64?, Region.readWord?_isSome_iff, Region.contains_iff, place,
      toNat_place placed holds (by omega), marks.base, marks.size]
    omega

theorem Live.cell (live : Live cells r) : ∃ c ∈ cells, ∃ x, c.object = some x ∧ x.address = r := by
  obtain ⟨x, mem, rfl⟩ := live
  obtain ⟨c, there, alive⟩ := mem_objectsOf.mp mem
  exact ⟨c, there, x, alive, rfl⟩

/-- What the marker reads when it takes a reference to a live object off the stack. -/
theorem MarkState.head (consistent : a.Consistent types cells) (alive : Live cells r)
    (state : MarkState a types cells roots b (r :: work) M) :
    ∃ c ∈ cells, ∃ x, c.object = some x ∧ x.address = r ∧ b.contains r = true ∧
      b.header? r = some ⟨x.type.raw, if r ∈ M then x.info.marked else x.info⟩ := by
  obtain ⟨c, mem, x, live, rfl⟩ := alive.cell
  refine ⟨c, mem, x, live, rfl, ?_, state.marks.header? consistent.placed consistent.tiled mem live⟩
  rw [state.marks.contains]
  exact contains_address consistent.placed consistent.tiled mem live

/-- Under a tombstone nothing changes while objects are marked. -/
theorem Marks.headerAt_dead (marks : Marks a cells M b) (tiled : a.Tiled types 0 cells)
    (mem : c ∈ cells) (dead : c.object = none) : b.headerAt c.offset = a.headerAt c.offset := by
  have info : b.region.byte (c.offset + 4) = a.region.byte (c.offset + 4) := by
    apply marks.rest
    intro d there x live _ same
    cases tiled.eq_of_info mem there same
    rw [dead] at live
    cases live
  rw [Arena.headerAt, Arena.headerAt, marks.typeWord tiled mem, info]

theorem Marks.tombstone (marks : Marks a cells M b) (placed : a.Placed)
    (tiled : a.Tiled types 0 cells) (mem : c ∈ cells) (dead : c.object = none) :
    b.header? (a.dataAt c.offset) = some .tombstone := by
  have inside := tiled.minSize_inside placed mem
  have read := (tiled.cell_mem mem).1
  rw [dead] at read
  have header := ((cell_eq_dead_iff placed inside).mp read).1
  rw [← marks.dataAt, header?_dataAt (marks.placed placed)
    (by rw [marks.size]; exact tiled.header_inside placed mem), marks.headerAt_dead tiled mem dead,
    header]

/-- What is rejected is no live object. -/
theorem Rejected.not_live (consistent : a.Consistent types cells) (rejected : a.Rejected cells r) :
    ¬ Live cells r := by
  intro alive
  obtain ⟨c, mem, x, live, rfl⟩ := alive.cell
  rcases rejected with outside | ⟨d, there, dead, same⟩
  · rw [contains_address consistent.placed consistent.tiled mem live] at outside
    cases outside
  · have header := (Marks.refl a cells).header? consistent.placed consistent.tiled mem live
    rw [same, (Marks.refl a cells).tombstone consistent.placed consistent.tiled there dead] at header
    exact x.type.ne_zero (congrArg Header.type (Option.some.inj header)).symm

/-- The marker stops at what is rejected. -/
theorem Marks.mark_rejected (marks : Marks a cells M b) (consistent : a.Consistent types cells)
    (rejected : a.Rejected cells r) (count : Nat) :
    Arena.mark types b (r :: work) count = .error (.invalidReference r) b := by
  rw [Arena.mark]
  rcases rejected with outside | ⟨c, mem, dead, rfl⟩
  · rw [if_neg (by rw [marks.contains, outside]; decide)]
  · have header := marks.tombstone consistent.placed consistent.tiled mem dead
    split
    · split
      · rfl
      · rename_i found
        rw [header] at found
        cases found
        rw [if_pos (by decide)]
    · rfl

theorem isTombstone_live (type : TypeId) (info : GcInfo) :
    (Header.mk type.raw info).isTombstone = false := by
  simp [Header.isTombstone, type.ne_zero]

/-- The marker skips what is marked. -/
theorem mark_again {header : Header} (inside : b.contains r = true)
    (read : b.header? r = some header) (alive : header.isTombstone = false)
    (marked : header.info.isMarked = true) (count : Nat) :
    Arena.mark types b (r :: work) count = Arena.mark types b work count := by
  rw [Arena.mark, if_pos inside]
  split
  · rename_i none_
    cases none_.symm.trans read
  · rename_i found
    cases found.symm.trans read
    rw [if_neg (by rw [alive]; decide), dif_pos marked]

/-- The marker sets a mark that was clear and goes on with the references of the object. -/
theorem mark_visit {header : Header} {type : TypeId} {pushed : List UInt64}
    (inside : b.contains r = true) (read : b.header? r = some header)
    (alive : header.isTombstone = false) (clear : header.info.isMarked = false)
    (known : TypeId.ofRaw? header.type = some type)
    (push : (b.setInfo r header.info.marked).pushReferences types type r work = .ok pushed)
    (count : Nat) :
    Arena.mark types b (r :: work) count
      = Arena.mark types (b.setInfo r header.info.marked) pushed (count + 1) := by
  rw [Arena.mark, if_pos inside]
  split
  · rename_i none_
    cases none_.symm.trans read
  · rename_i found
    cases found.symm.trans read
    rw [if_neg (by rw [alive]; decide), dif_neg (by rw [clear]; decide)]
    dsimp only
    rw [known]
    dsimp only
    rw [push]

/-- One round of the marker at a live object: it skips the object, or marks it and goes on with its
references. -/
theorem MarkState.round (wf : types.WellFormed) (consistent : a.Consistent types cells)
    (unmarked : ∀ x ∈ objectsOf cells, x.info.isMarked = false) (alive : Live cells r)
    (state : MarkState a types cells roots b (r :: work) M) (count : Nat) :
    (r ∈ M ∧ Arena.mark types b (r :: work) count = Arena.mark types b work count) ∨
      ∃ b' pushed, r ∉ M ∧ b'.unmarked < b.unmarked ∧
        MarkState a types cells roots b' pushed (r :: M) ∧
        Arena.mark types b (r :: work) count = Arena.mark types b' pushed (count + 1) := by
  obtain ⟨c, mem, x, live, rfl, inside, read⟩ := state.head consistent alive
  have clear := unmarked x (mem_objectsOf.mpr ⟨c, mem, live⟩)
  by_cases again : x.address ∈ M
  · rw [if_pos again] at read
    exact .inl ⟨again, mark_again inside read (isTombstone_live ..) (isMarked_marked x.info) count⟩
  · rw [if_neg again] at read
    have visited := state.visit consistent mem live again
    exact .inr ⟨_, _, again, unmarked_setInfo_lt read clear, visited,
      mark_visit inside read (isTombstone_live ..) clear (TypeId.ofRaw?_raw x.type)
        (visited.marks.pushReferences wf consistent mem live work) count⟩

/-- The marker marks what is reachable and counts it, or stops at a root that is rejected. -/
theorem MarkState.mark_cases {b : Arena} {work M : List UInt64} (wf : types.WellFormed)
    (consistent : a.Consistent types cells)
    (unmarked : ∀ x ∈ objectsOf cells, x.info.isMarked = false)
    (known : ∀ r ∈ roots, r ≠ 0 → Live cells r ∨ a.Rejected cells r)
    (alive : ∀ r ∈ M, Live cells r) (state : MarkState a types cells roots b work M) :
    ∃ M' b', Marks a cells M' b' ∧ M'.Nodup ∧ M ⊆ M' ∧
      (∀ r ∈ M', Live cells r ∧ Reachable a types cells roots r) ∧
      (Arena.mark types b work M.length = .ok M'.length b' ∧
          (∀ r, Reachable a types cells roots r → r ∈ M') ∨
        ∃ r ∈ roots, r ≠ 0 ∧ a.Rejected cells r ∧
          Arena.mark types b work M.length = .error (.invalidReference r) b') := by
  have reachable := state.marked_reachable
  match work with
  | [] =>
    refine ⟨M, b, state.marks, state.nodup, List.Subset.refl M,
      fun r mem => ⟨alive r mem, reachable r mem⟩, .inl ⟨?_, fun r => state.mem_iff.mpr⟩⟩
    rw [Arena.mark]
  | r :: rest =>
    have waiting := state.waiting_reachable r List.mem_cons_self
    have here : Live cells r ∨ r ∈ roots ∧ r ≠ 0 ∧ a.Rejected cells r := by
      rcases waiting.live_or_root consistent with live | ⟨mem, nonnull⟩
      · exact .inl live
      · exact (known r mem nonnull).imp_right fun rejected => ⟨mem, nonnull, rejected⟩
    rcases here with live | ⟨mem, nonnull, rejected⟩
    · rcases state.round wf consistent unmarked live M.length with
        ⟨again, same⟩ | ⟨b', pushed, new, fewer, visited, same⟩
      · rw [same]
        exact (state.skip again).mark_cases wf consistent unmarked known alive
      · obtain ⟨M', b'', marks, nodup, more, reached, result⟩ :=
          visited.mark_cases wf consistent unmarked known fun s there =>
            (List.mem_cons.mp there).elim (fun same => same ▸ live) (alive s)
        rw [same]
        exact ⟨M', b'', marks, nodup, fun s there => more (List.mem_cons_of_mem _ there), reached,
          result⟩
    · exact ⟨M, b, state.marks, state.nodup, List.Subset.refl M,
        fun s there => ⟨alive s there, reachable s there⟩,
        .inr ⟨r, mem, nonnull, rejected, state.marks.mark_rejected consistent rejected _⟩⟩
termination_by (b.unmarked, work.length)

/-- From live roots the marker marks exactly what is reachable and counts it. -/
theorem MarkState.mark (wf : types.WellFormed) (consistent : a.Consistent types cells)
    (unmarked : ∀ x ∈ objectsOf cells, x.info.isMarked = false)
    (rooted : ∀ r ∈ roots, r ≠ 0 → Live cells r)
    (state : MarkState a types cells roots b work []) :
    ∃ M' b', Arena.mark types b work 0 = .ok M'.length b' ∧ Marks a cells M' b' ∧
      M'.Nodup ∧ ∀ r, r ∈ M' ↔ Reachable a types cells roots r := by
  obtain ⟨M', b', marks, nodup, _, reached, result⟩ := state.mark_cases wf consistent unmarked
    (fun r mem nonnull => .inl (rooted r mem nonnull)) fun r mem => absurd mem List.not_mem_nil
  rcases result with ⟨run, all⟩ | ⟨r, mem, nonnull, rejected, _⟩
  · exact ⟨M', b', run, marks, nodup, fun r => ⟨fun there => (reached r there).2, all r⟩⟩
  · exact absurd (rooted r mem nonnull) (rejected.not_live consistent)

end Loop

end Arena

end ManagedCode.Heap
