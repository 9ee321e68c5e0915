import ManagedCode.Proofs.Semantics.Preservation

/-!
# What instructions find in the heap

Each instruction that works on the heap, in terms of objects and their words. On a well-typed heap
and with operands of the right types an access finds its object, and fails only for null and for
indices outside; an allocation succeeds or finds the heap full; a collection succeeds.
-/

namespace ManagedCode

open Bytecode TypeSystem
open Heap (Arena Collector HasType Object WellTyped lengthSize minDataSize arrayDataSize)
open Machine (toInt ofInt NullUse)
open Target (Width)
open Words (allocating load? loading onElement onObject perform roots storing)

/-! ## Numbers -/

theorem Machine.toInt_ofInt (i : Int32) : toInt (ofInt i) = i := by
  apply Int32.toBitVec_inj.mp
  show (i.toBitVec.signExtend 64).setWidth 32 = i.toBitVec
  ext j bound
  simp [BitVec.getLsbD_signExtend, bound]
  omega

theorem toUInt64_eq_ofNat (x : UInt32) : x.toUInt64 = UInt64.ofNat x.toNat := by
  apply UInt64.toNat_inj.mp
  simp

variable {n : Nat}

theorem toUInt64_ofNat (small : n < 2 ^ 31) :
    (Int32.ofNat n).toInt64.toUInt64 = UInt64.ofNat n := by
  rw [← Int64.toUInt64_ofNat']
  congr 1
  apply Int64.toInt_inj.mp
  rw [Int32.toInt_toInt64, Int64.toInt_ofNat_of_lt (by omega), Int32.toInt_ofNat_of_lt small]

/-- An index inside an array is a position. -/
theorem position_of_index {i : Int32} {length : Nat} (small : length < 2 ^ 31) (low : 0 ≤ i)
    (high : i < Int32.ofNat length) :
    ∃ n, n < length ∧ i = Int32.ofNat n ∧ i.toInt64.toUInt64 = UInt64.ofNat n := by
  rw [Int32.lt_iff_toInt_lt, Int32.toInt_ofNat_of_lt small] at high
  rw [Int32.le_iff_toInt_le, Int32.toInt_zero] at low
  have position : i = Int32.ofNat i.toInt.toNat := by
    apply Int32.toInt_inj.mp
    rw [Int32.toInt_ofNat_of_lt (by omega)]
    omega
  refine ⟨i.toInt.toNat, by omega, position, ?_⟩
  rw [← toUInt64_ofNat (by omega), ← position]

/-! ## Places -/

section Places

variable {types : TypeTable} {o : Object}
variable {type : TypeId}

theorem isReference_of_layout? {layout : Layout} (object : types.layout? type = some layout) :
    types.isReference type = true :=
  TypeTable.isReference_of_shape? (Heap.shape?_of_layout? object)

theorem isReference_of_element? {element : TypeId} (array : types.element? type = some element) :
    types.isReference type = true :=
  TypeTable.isReference_of_shape? (Heap.shape?_of_element? array)

theorem place_of_field {r : FieldRef} {layout : Layout} {field : Field} (type : o.type = r.owner)
    (object : types.layout? r.owner = some layout) (here : layout.fields[r.index]? = some field)
    (offset : field.offset = r.offset.toNat) (same : field.type = r.type) :
    (o.places types)[r.index]? = some (r.offset.toNat, r.type) := by
  rw [Object.places, type, Heap.placesIn_of_layout object, List.getElem?_map, here, Option.map_some,
    offset, same]

theorem place_of_element {element : TypeId} (same : o.type = type)
    (array : types.element? type = some element) (bound : n < o.words.length) :
    (o.places types)[n]? = some (lengthSize + n * types.size element, element) := by
  rw [Object.places, same, Heap.placesIn_of_element array, List.getElem?_map,
    List.getElem?_range bound, Option.map_some]

end Places

/-! ## Accesses -/

section Access

variable {types : TypeTable} {functions : FunctionTable} {clean : Bool} {c : Configuration UInt64}
  {f : Function} {rest : List UInt64} {w : UInt64}
variable {element type : TypeId} {o : Object} {width : Width}

/-- What an access through a reference comes to: the reference is null, or it leads to an object of
its type, of which something holds. -/
def Accesses (types : TypeTable) (c : Configuration UInt64) (type : TypeId) (w : UInt64)
    (use : NullUse) (outcome : Outcome UInt64) (P : Object → Prop) : Prop :=
  w = 0 ∧ outcome = .stopped (.trap (.null use)) c.world ∨
    ∃ o, c.world.heap.object? types w = some o ∧ o.type = type ∧ P o

/-- What an access to an element comes to: the index is outside, or it is a position of which something
holds. -/
def Indexes (c : Configuration UInt64) (o : Object) (index : Int32) (outcome : Outcome UInt64)
    (P : Nat → Prop) : Prop :=
  o.words.length < 2 ^ 31 ∧
    ((index < 0 ∨ Int32.ofNat o.words.length ≤ index) ∧ outcome
        = .stopped (.trap (.indexOutside index (Int32.ofNat o.words.length))) c.world ∨
      ∃ n, n < o.words.length ∧ index = Int32.ofNat n ∧ 0 ≤ index ∧
        index < Int32.ofNat o.words.length ∧ P n)

variable {outcome : Outcome UInt64}

theorem Accesses.mono {use : NullUse} {P Q : Object → Prop}
    (accesses : Accesses types c type w use outcome P)
    (weaker : ∀ o, c.world.heap.object? types w = some o → o.type = type → P o → Q o) :
    Accesses types c type w use outcome Q :=
  accesses.imp_right fun ⟨o, here, same, holds⟩ => ⟨o, here, same, weaker o here same holds⟩

theorem Indexes.mono {index : Int32} {P Q : Nat → Prop} (indexes : Indexes c o index outcome P)
    (weaker : ∀ n, n < o.words.length → P n → Q n) : Indexes c o index outcome Q :=
  indexes.imp_right fun cases_ => cases_.imp_right fun ⟨n, bound, position, low, high, holds⟩ =>
    ⟨n, bound, position, low, high, weaker n bound holds⟩

theorem accesses_onObject (reference : types.isReference type = true)
    (has : HasType types clean c.world.heap type w) (use : NullUse) (k : Outcome UInt64) :
    Accesses types c type w use (onObject c.world w use k) fun _ =>
      onObject c.world w use k = k := by
  by_cases null : w = 0
  · exact .inl ⟨null, if_pos null⟩
  · obtain ⟨o, there, same⟩ := has.object reference null
    exact .inr ⟨o, there, same, if_neg null⟩

variable {i : Nat} {p : Nat × TypeId} {v : UInt64}

/-- What the heap has at a place of an object. -/
theorem loading_place (rest : List UInt64) (wf : types.WellFormed)
    (typed : WellTyped types clean c.world.heap) (here : c.world.heap.object? types w = some o)
    (place : (o.places types)[i]? = some p) (moved : Width.ofSize? (types.size p.2) = some width) :
    ∃ v, o.words[i]? = some v ∧
      loading c rest (w + UInt64.ofNat p.1) width = .next (c.goOn (v :: rest)) := by
  obtain ⟨cells, regular⟩ := typed.regular
  obtain ⟨v, value, loaded⟩ := Arena.loadFrom?_place wf regular place moved here
  refine ⟨v, value, ?_⟩
  have loaded : load? c.world (w + UInt64.ofNat p.1) width = some v := loaded
  unfold loading
  rw [loaded]

def World.stored (world : World) (address : UInt64) (width : Width) (value : UInt64) : World :=
  { world with heap := world.heap.stored address width value }

theorem storing_place (rest : List UInt64) (wf : types.WellFormed)
    (typed : WellTyped types clean c.world.heap) (here : c.world.heap.object? types w = some o)
    (place : (o.places types)[i]? = some p) (moved : Width.ofSize? (types.size p.2) = some width)
    (value : UInt64) :
    storing c rest (w + UInt64.ofNat p.1) width value
      = .next ((c.inWorld (c.world.stored (w + UInt64.ofNat p.1) width value)).goOn rest) := by
  obtain ⟨cells, regular⟩ := typed.regular
  unfold storing Words.store?
  rw [if_pos (Arena.contains_place wf regular place moved here)]
  rfl

/-- An index is inside an array or outside. -/
theorem indexes_onElement (typed : WellTyped types clean c.world.heap)
    (here : c.world.heap.object? types w = some o) (same : o.type = type)
    (array : types.element? type = some element) (bytes : width.bytes = types.size element)
    (index : Int32) (k : UInt64 → Outcome UInt64) :
    Indexes c o index (onElement c.world w index width k) fun n =>
      onElement c.world w index width k
        = k (w + UInt64.ofNat (lengthSize + n * types.size element)) := by
  obtain ⟨cells, regular⟩ := typed.regular
  obtain ⟨small, loaded⟩ := Arena.loadFrom?_length regular here (same ▸ array)
  have loaded : load? c.world w .dword = some (ofInt (Int32.ofNat o.words.length)) := loaded
  refine ⟨small, ?_⟩
  unfold onElement
  rw [loaded]
  dsimp only
  rw [Machine.toInt_ofInt]
  by_cases outside : index < 0 ∨ Int32.ofNat o.words.length ≤ index
  · exact .inl ⟨outside, if_pos outside⟩
  · rw [if_neg outside]
    rw [not_or, Int32.not_lt, Int32.not_le] at outside
    obtain ⟨n, bound, position, value⟩ := position_of_index small outside.1 outside.2
    refine .inr ⟨n, bound, position, outside.1, outside.2, ?_⟩
    rw [value, bytes, UInt64.ofNat_add, UInt64.ofNat_mul, UInt64.add_assoc]

/-! ## Instructions that access objects -/

section Fields

variable {r : FieldRef} {layout : Layout} {field : Field} (wf : types.WellFormed)
  (object : types.layout? r.owner = some layout) (here : layout.fields[r.index]? = some field)
  (offset : field.offset = r.offset.toNat) (same : field.type = r.type)
  (has : HasType types clean c.world.heap r.owner w)

include wf object here offset same has

theorem accesses_field (use : NullUse) (k : UInt64 → Width → Outcome UInt64)
    (ran : outcome = onObject c.world w use (perform.onWidth (Width.ofSize? (types.size r.type)) (k (w + r.offset.toUInt64)))) :
    Accesses types c r.owner w use outcome fun o => ∃ width,
      (o.places types)[r.index]? = some (r.offset.toNat, r.type) ∧
      Width.ofSize? (types.size r.type) = some width ∧
      outcome = k (w + UInt64.ofNat r.offset.toNat) width := by
  subst ran
  refine (accesses_onObject (isReference_of_layout? object) has use _).mono fun o _ type goes => ?_
  have place := place_of_field type object here offset same
  obtain ⟨width, moved, _⟩ := Heap.width_of_place wf place
  refine ⟨width, place, moved, goes.trans ?_⟩
  rw [onWidth_eq moved, toUInt64_eq_ofNat]

theorem perform_loadField (typed : WellTyped types clean c.world.heap)
    (top : c.operands = w :: rest) :
    Accesses types c r.owner w .fieldLoad (perform types functions f c (.loadField r)) fun o =>
      ∃ v, (o.places types)[r.index]? = some (r.offset.toNat, r.type) ∧
        o.words[r.index]? = some v ∧
        perform types functions f c (.loadField r) = .next (c.goOn (v :: rest)) := by
  refine (accesses_field wf object here offset same has .fieldLoad (loading c rest)
    (pop1_eq top _ :)).mono ?_
  rintro o there - ⟨width, place, moved, goes⟩
  obtain ⟨v, value, loaded⟩ := loading_place rest wf typed there place moved
  exact ⟨v, place, value, goes.trans loaded⟩

theorem perform_storeField (typed : WellTyped types clean c.world.heap)
    (top : c.operands = v :: w :: rest) :
    Accesses types c r.owner w .fieldStore (perform types functions f c (.storeField r)) fun o =>
      ∃ width, (o.places types)[r.index]? = some (r.offset.toNat, r.type) ∧
        Width.ofSize? (types.size r.type) = some width ∧
        perform types functions f c (.storeField r) = .next ((c.inWorld
          (c.world.stored (w + UInt64.ofNat r.offset.toNat) width v)).goOn rest) := by
  refine (accesses_field wf object here offset same has .fieldStore
    (fun address width => storing c rest address width v) (pop2_eq top _ :)).mono ?_
  rintro o there - ⟨width, place, moved, goes⟩
  exact ⟨width, place, moved, goes.trans (storing_place rest wf typed there place moved v)⟩

end Fields

section Elements

variable (wf : types.WellFormed) (typed : WellTyped types clean c.world.heap)
  (array : types.element? type = some element) (has : HasType types clean c.world.heap type w)

include wf typed array has

/-- An element of an array, or an index outside, or null. -/
theorem accesses_element (use : NullUse) (index : Int32) (k : UInt64 → Width → Outcome UInt64)
    (ran : outcome = onObject c.world w use (perform.onWidth ((types.element? type).bind (Width.ofSize? <| types.size ·)) fun width => onElement c.world w index width fun address => k address width)) :
    Accesses types c type w use outcome fun o => Indexes c o index outcome fun n => ∃ width,
      (o.places types)[n]? = some (lengthSize + n * types.size element, element) ∧
      Width.ofSize? (types.size element) = some width ∧
      outcome = k (w + UInt64.ofNat (lengthSize + n * types.size element)) width := by
  obtain ⟨width, moved, bytes⟩ := Heap.width_of_size_ne (wf.element type element array)
  rw [array, Option.bind_some, onWidth_eq moved] at ran
  subst ran
  refine (accesses_onObject (isReference_of_element? array) has use _).mono
    fun o there same goes => ?_
  rw [goes]
  exact (indexes_onElement typed there same array bytes index _).mono fun n bound finds =>
    ⟨width, place_of_element same array bound, moved, finds⟩

variable {i : UInt64}

theorem perform_loadElement (top : c.operands = i :: w :: rest) :
    Accesses types c type w .elementLoad (perform types functions f c (.loadElement type)) fun o =>
      Indexes c o (toInt i) (perform types functions f c (.loadElement type)) fun n => ∃ v,
        (o.places types)[n]? = some (lengthSize + n * types.size element, element) ∧
        o.words[n]? = some v ∧
        perform types functions f c (.loadElement type) = .next (c.goOn (v :: rest)) := by
  refine (accesses_element wf typed array has .elementLoad (toInt i) (loading c rest)
    (pop2_eq top _ :)).mono fun o there _ indexes => indexes.mono ?_
  rintro n - ⟨width, place, moved, goes⟩
  obtain ⟨v, value, loaded⟩ := loading_place rest wf typed there place moved
  exact ⟨v, place, value, goes.trans loaded⟩

theorem perform_storeElement (top : c.operands = v :: i :: w :: rest) :
    Accesses types c type w .elementStore (perform types functions f c (.storeElement type)) fun o =>
      Indexes c o (toInt i) (perform types functions f c (.storeElement type)) fun n => ∃ width,
        (o.places types)[n]? = some (lengthSize + n * types.size element, element) ∧
        Width.ofSize? (types.size element) = some width ∧
        perform types functions f c (.storeElement type) = .next ((c.inWorld (c.world.stored
          (w + UInt64.ofNat (lengthSize + n * types.size element)) width v)).goOn rest) := by
  refine (accesses_element wf typed array has .elementStore (toInt i)
    (fun address width => storing c rest address width v) (pop3_eq top _ :)).mono
    fun o there _ indexes => indexes.mono ?_
  rintro n - ⟨width, place, moved, goes⟩
  exact ⟨width, place, moved, goes.trans (storing_place rest wf typed there place moved v)⟩

omit wf in
theorem perform_arrayLength (top : c.operands = w :: rest) :
    Accesses types c type w .arrayLength (perform types functions f c .arrayLength) fun o =>
      perform types functions f c .arrayLength
        = .next (c.goOn (ofInt (Int32.ofNat o.words.length) :: rest)) := by
  have performed : perform types functions f c .arrayLength = _ := pop1_eq top _
  rw [performed]
  refine (accesses_onObject (isReference_of_element? array) has .arrayLength _).mono
    fun o there same goes => goes.trans ?_
  obtain ⟨cells, regular⟩ := typed.regular
  obtain ⟨_, loaded⟩ := Arena.loadFrom?_length regular there (same ▸ array)
  have loaded : load? c.world w .dword = some (ofInt (Int32.ofNat o.words.length)) := loaded
  unfold loading
  rw [loaded]

end Elements

end Access

/-! ## Instructions that change what objects there are -/

section Allocation

variable {types : TypeTable} {functions : FunctionTable} {clean : Bool} {c : Configuration UInt64}
  {f : Function} {rest : List UInt64}

def World.withHeap (world : World) (heap : Arena) : World := { world with heap }

variable {type : TypeId}

theorem perform_newObject (typed : WellTyped types clean c.world.heap) {layout : Layout}
    (object : types.layout? type = some layout) :
    c.world.heap.fit? (max layout.size minDataSize) = none ∧
        perform types functions f c (.newObject type) = .stopped (.heapExhausted
          (max layout.size minDataSize) c.world.heap.available) c.world ∨
      ∃ total b, c.world.heap.fit? (max layout.size minDataSize) = some total ∧
        c.world.heap.Extended types type total b ∧
        perform types functions f c (.newObject type)
          = .next ((c.inWorld (c.world.withHeap b)).goOn (c.world.heap.nextData :: c.operands)) := by
  obtain ⟨cells, regular⟩ := typed.regular
  have performed : perform types functions f c (.newObject type)
      = allocating c c.operands (Collector.newObject types type) := rfl
  rw [performed]
  unfold allocating World.effect
  rcases Collector.newObject_spec (c := ⟨c.world.heap, {}, {}, ⟨false, false, false, false⟩⟩)
    regular.placed object with ⟨full, failed⟩ | ⟨total, k, fits, ran, extended⟩
  · rw [failed]
    exact .inl ⟨full, rfl⟩
  · rw [ran]
    exact .inr ⟨total, k.heap, fits, extended, rfl⟩

/-- A new array, unless its length is negative or the heap is full. -/
theorem perform_newArray (typed : WellTyped types clean c.world.heap) {element : TypeId}
    (array : types.element? type = some element) {w : UInt64} (top : c.operands = w :: rest) :
    toInt w < 0 ∧ perform types functions f c (.newArray type)
        = .stopped (.trap (.negativeLength (types.name type) (toInt w))) c.world ∨
      0 ≤ toInt w ∧ ∃ n, n < 2 ^ 31 ∧ toInt w = Int32.ofNat n ∧
        (c.world.heap.fit? (arrayDataSize (types.size element) n) = none ∧
            perform types functions f c (.newArray type) = .stopped (.heapExhausted
              (arrayDataSize (types.size element) n) c.world.heap.available) c.world ∨
          ∃ total b, c.world.heap.fit? (arrayDataSize (types.size element) n) = some total ∧
            c.world.heap.Extended types type total b ∧
            (b.firstWord c.world.heap.used).toNat = n ∧
            perform types functions f c (.newArray type)
              = .next ((c.inWorld (c.world.withHeap b)).goOn (c.world.heap.nextData :: rest))) := by
  obtain ⟨cells, regular⟩ := typed.regular
  have performed : perform types functions f c (.newArray type) = _ := pop1_eq top _
  rw [performed]
  by_cases negative : toInt w < 0
  · exact .inl ⟨negative, if_pos negative⟩
  · rw [if_neg negative]
    rw [Int32.not_lt] at negative
    refine .inr ⟨negative, (toInt w).toInt.toNat, ?_⟩
    rw [Int32.le_iff_toInt_le, Int32.toInt_zero] at negative
    have high := (toInt w).toInt_lt
    have small : (toInt w).toInt.toNat < 2 ^ 31 := by omega
    have whole : ((toInt w).toInt.toNat : Int) = (toInt w).toInt := Int.toNat_of_nonneg negative
    refine ⟨small, ?_, ?_⟩
    · apply Int32.toInt_inj.mp
      rw [Int32.toInt_ofNat_of_lt small, whole]
    · unfold allocating World.effect
      rcases Collector.newArray_spec (c := ⟨c.world.heap, {}, {}, ⟨false, false, false, false⟩⟩)
        regular.placed array small with ⟨full, failed⟩ | ⟨total, k, fits, ran, extended, first⟩
      · rw [whole] at failed
        rw [failed]
        exact .inl ⟨full, rfl⟩
      · rw [whole] at ran
        rw [ran]
        refine .inr ⟨total, k.heap, fits, extended, ?_, rfl⟩
        rw [first, UInt32.toNat_ofNat']
        omega

end Allocation

/-! ## Roots -/

section Roots

variable {types : TypeTable} {functions : FunctionTable} {clean : Bool} {c : Configuration UInt64}
variable {root : FunctionId} {R : TypeId → UInt64 → Prop}

theorem mem_roots {active : List (Activation UInt64)} {w : UInt64} :
    w ∈ roots types functions active ↔ ∃ a ∈ active, ∃ f, functions.get? a.function = some f ∧
      ∃ t, (t, w) ∈ Words.slots f a ∧ types.isReference t = true := by
  unfold roots
  rw [List.mem_flatMap]
  constructor
  · rintro ⟨a, there, mem⟩
    split at mem
    · rename_i f found
      obtain ⟨⟨t, w'⟩, slot, rfl⟩ := List.mem_map.mp mem
      obtain ⟨slot, reference⟩ := List.mem_filter.mp slot
      exact ⟨a, there, f, found, t, slot, reference⟩
    · cases mem
  · rintro ⟨a, there, f, found, t, slot, reference⟩
    refine ⟨a, there, ?_⟩
    rw [found]
    exact List.mem_map.mpr ⟨(t, w), List.mem_filter.mpr ⟨slot, reference⟩, rfl⟩

variable {a : Activation UInt64} {S : TypeId → UInt64 → Prop}

variable {f : Function}

/-- The slots of an activation that fits are in the relation. -/
theorem Activation.Fits.slot (fits : a.Fits functions R f) {t : TypeId} {w : UInt64}
    (slot : (t, w) ∈ Words.slots f a) : R t w := by
  unfold Words.slots at slot
  rw [List.mem_append, List.mem_append, List.mem_reverse] at slot
  rcases slot with (slot | slot) | slot
  · exact List.forall₂_zip fits.arguments slot
  · exact List.forall₂_zip fits.locals slot
  · exact List.forall₂_zip fits.operands slot

/-- Another relation that holds of the slots. -/
theorem Activation.Fits.of_slots (fits : a.Fits functions R f)
    (good : ∀ t w, (t, w) ∈ Words.slots f a → R t w → S t w) : a.Fits functions S f := by
  have all : ∀ {ts : List TypeId} {ws : List UInt64}, List.Forall₂ R ts ws →
      (∀ s ∈ ts.zip ws, s ∈ Words.slots f a) → List.Forall₂ S ts ws := fun given inside =>
    List.forall₂_iff_zip.mpr ⟨given.length_eq, fun mem =>
      good _ _ (inside _ mem) (List.forall₂_zip given mem)⟩
  refine { fits with
    arguments := all fits.arguments fun s mem => ?_
    locals := all fits.locals fun s mem => ?_
    operands := all fits.operands fun s mem => ?_ }
  · exact List.mem_append_left _ (List.mem_append_left _ mem)
  · exact List.mem_append_left _ (List.mem_append_right _ mem)
  · exact List.mem_append_right _ (List.mem_reverse.mpr mem)

theorem Suspended.of_slots {callee : FunctionId} {callers : List (Activation UInt64)}
    (suspended : Suspended functions R root callee callers)
    (good : ∀ a ∈ callers, ∀ f, functions.get? a.function = some f → ∀ t w, (t, w) ∈ Words.slots f a → R t w → S t w) :
    Suspended functions S root callee callers := by
  induction callers generalizing callee with
  | nil => exact suspended
  | cons a callers ih =>
    obtain ⟨⟨f, instr, fits, code, calls⟩, rest⟩ := suspended
    exact ⟨⟨f, instr, fits.of_slots (good a List.mem_cons_self f fits.found), code, calls⟩,
      ih rest fun b mem => good b (List.mem_cons_of_mem _ mem)⟩

/-- The roots of typed activations are null or live. -/
theorem Configuration.Fits.rooted {a : Arena}
    (fits : c.Fits functions (HasType types clean a) root) :
    ∀ r ∈ roots types functions c.active, r ≠ 0 → ∃ o, a.object? types r = some o := by
  intro r mem nonnull
  obtain ⟨act, there, f, found, t, slot, reference⟩ := mem_roots.mp mem
  obtain ⟨f', fit⟩ := fits.active act there
  cases found.symm.trans fit.found
  obtain ⟨o, here, _⟩ := (fit.slot slot).object reference nonnull
  exact ⟨o, here⟩

section

variable (wf : types.WellFormed) (fits : c.Fits functions (HasType types clean c.world.heap) root)

include wf fits

/-- A collection keeps what the activations hold. -/
theorem Configuration.Fits.settled {cells : List Heap.Cell}
    (regular : c.world.heap.Regular types cells) {M : List UInt64} {b : Arena}
    (settled : Arena.Settled c.world.heap types cells M b)
    (exactly : ∀ r, r ∈ M ↔ Arena.Reachable c.world.heap types cells
      (roots types functions c.active) r) :
    c.Fits functions (HasType types clean b) root := by
  have good : ∀ a ∈ c.active, ∀ f, functions.get? a.function = some f →
      ∀ t w, (t, w) ∈ Words.slots f a → HasType types clean c.world.heap t w →
      HasType types clean b t w := by
    intro a there f found t w slot has
    refine ⟨fun reference => ?_, has.truth⟩
    by_cases null : w = 0
    · exact .inl null
    · obtain ⟨o, here, type⟩ := has.object reference null
      have reached : w ∈ M := (exactly w).mpr
        (.root (mem_roots.mpr ⟨a, there, f, found, t, slot, reference⟩) null)
      refine .inr ⟨o, ?_, type⟩
      rw [Arena.object?_settled wf settled regular, if_pos reached]
      exact here
  obtain ⟨f, current⟩ := fits.current
  exact ⟨⟨f, current.of_slots (good _ List.mem_cons_self f current.found)⟩,
    fits.callers.of_slots fun a mem => good a (List.mem_cons_of_mem _ mem)⟩

theorem callRoutine_collect (typed : WellTyped types clean c.world.heap) :
    ∃ cells M b, c.world.heap.Regular types cells ∧
      (∀ r, r ∈ M ↔
        Arena.Reachable c.world.heap types cells (roots types functions c.active) r) ∧
      Arena.Settled c.world.heap types cells M b ∧
      Words.callRoutine types functions .collect c
        = .next ((c.inWorld (c.world.withHeap b)).goOn c.operands) := by
  obtain ⟨cells, regular⟩ := typed.regular
  obtain ⟨M, report, b, journal, ran, exactly, settled, _⟩ := WellTyped.collect wf
    (k := ⟨c.world.heap, {}, {}, ⟨false, false, false, false⟩⟩) typed regular fits.rooted
  refine ⟨cells, M, b, regular, exactly, settled, ?_⟩
  unfold Words.callRoutine World.effect
  dsimp only
  rw [discard_eq_ok_iff.mpr ⟨report, ran⟩]
  rfl

end

end Roots

end ManagedCode
