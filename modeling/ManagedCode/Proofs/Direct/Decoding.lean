import ManagedCode.Proofs.Direct.Interpreter
import ManagedCode.Proofs.Semantics.Typed

/-!
# What words stand for

A word of a type stands for a value, the words of an activation for its arguments, locals and
operands, and a heap for the objects in it.

* `decode`, `decodeAll`: words. `decode_cut`: a word that was stored and loaded again.
* `Activation.read`, `Waiting`: activations.
* `Holds`: a heap and a store that has its objects; `Holds.stored`, `Holds.extended` and
  `Holds.settled` for what instructions do to both.
* `Represents`: all of this for the states of the two semantics.
-/

namespace ManagedCode.Direct

open Bytecode TypeSystem
open Heap (Arena Cell HasType WellTyped)
open Machine (toInt ofInt toSingle ofSingle ofBool cut)
open Number (Single)
open Target (Width)

/-! ## Words -/

/-- The value that a word of a type stands for. -/
def decode (types : TypeTable) (type : TypeId) (w : UInt64) : Value :=
  if types.isReference type then .ref w
  else if type = .float then .float (toSingle w)
  else if type = .bool then .bool (w != 0)
  else .int (toInt w)

def decodeAll (types : TypeTable) : List TypeId → List UInt64 → List Value :=
  List.zipWith (decode types)

theorem toSingle_eq (w : UInt64) : toSingle w = ⟨(toInt w).toUInt32⟩ := rfl

theorem toSingle_ofSingle (s : Single) : toSingle (ofSingle s) = s := by
  show (⟨s.bits.toUInt64.toUInt32⟩ : Single) = s
  rw [UInt32.toUInt32_toUInt64]

/-- Four bytes keep an integer. -/
theorem toInt_cut_dword (v : UInt64) : toInt (cut .dword v) = toInt v := by
  have extended : cut .dword v = ofInt (toInt (decodeLE (encodeLE 4 v))) := rfl
  rw [extended, Machine.toInt_ofInt]
  refine congrArg UInt32.toInt32 (UInt32.toNat_inj.mp ?_)
  rw [UInt64.toNat_toUInt32, UInt64.toNat_toUInt32, toNat_decodeLE_encodeLE 4 v (by decide)]
  exact Nat.mod_mod _ _

variable {width : Width}

section Decode

variable {types : TypeTable} {type : TypeId}

theorem decode_reference (reference : types.isReference type = true) (w : UInt64) :
    decode types type w = .ref w :=
  if_pos reference

section

variable (wf : types.WellFormed)

include wf

theorem decode_int (w : UInt64) : decode types .int w = .int (toInt w) := by
  unfold decode
  rw [show types.isReference .int = false from wf.isReference_primitive .int]
  rfl

theorem decode_float (w : UInt64) : decode types .float w = .float (toSingle w) := by
  unfold decode
  rw [show types.isReference .float = false from wf.isReference_primitive .float]
  rfl

theorem decode_bool (w : UInt64) : decode types .bool w = .bool (w != 0) := by
  unfold decode
  rw [show types.isReference .bool = false from wf.isReference_primitive .bool]
  rfl

theorem decode_ofInt (i : Int32) : decode types .int (ofInt i) = .int i := by
  rw [decode_int wf, Machine.toInt_ofInt]

theorem decode_ofSingle (s : Single) : decode types .float (ofSingle s) = .float s := by
  rw [decode_float wf, toSingle_ofSingle]

theorem decode_ofBool (b : Bool) : decode types .bool (ofBool b) = .bool b := by
  rw [decode_bool wf]
  cases b <;> rfl

end

/-- Zero stands for what everything starts with. -/
theorem decode_zero (types : TypeTable) (type : TypeId) :
    decode types type 0 = .initial types type := by
  unfold decode Value.initial
  split
  · rfl
  · split
    · rfl
    · split <;> rfl

/-- The values of a type are moved in one way. -/
theorem moved_cases (wf : types.WellFormed) (moved : Width.ofSize? (types.size type) = some width) :
    types.isReference type = true ∧ width = .qword ∨ type = .int ∧ width = .dword ∨
      type = .float ∧ width = .dword ∨ type = .bool ∧ width = .byte := by
  have sized : types.size type ≠ 0 := by
    intro zero
    rw [zero] at moved
    cases moved
  obtain ⟨shape, known⟩ := TypeTable.shape?_of_size_ne sized
  have reference := TypeTable.isReference_of_shape? known
  rw [TypeTable.size_of_shape? known] at moved
  cases shape with
  | array element | object layout =>
    cases moved
    exact .inl ⟨reference, rfl⟩
  | primitive p =>
    cases wf.primitive_only _ _ known
    cases p with
    | int =>
      cases moved
      exact .inr (.inl ⟨rfl, rfl⟩)
    | float =>
      cases moved
      exact .inr (.inr (.inl ⟨rfl, rfl⟩))
    | bool =>
      cases moved
      exact .inr (.inr (.inr ⟨rfl, rfl⟩))
    | void => cases moved

/-- A value is the same after it was stored. -/
theorem decode_cut (wf : types.WellFormed) {a : Arena} {v : UInt64}
    (has : HasType types true a type v) (moved : Width.ofSize? (types.size type) = some width) :
    decode types type (cut width v) = decode types type v := by
  rcases moved_cases wf moved with ⟨_, rfl⟩ | ⟨rfl, rfl⟩ | ⟨rfl, rfl⟩ | ⟨rfl, rfl⟩
  · rw [Machine.cut_qword]
  · rw [decode_int wf, decode_int wf, toInt_cut_dword]
  · rw [decode_float wf, decode_float wf, toSingle_eq, toInt_cut_dword]
    rfl
  · -- A byte keeps zero and one, and there are no other words of truth values.
    rcases has.truth rfl rfl with rfl | rfl
    · rw [show cut .byte 0 = 0 by decide]
    · rw [show cut .byte 1 = 1 by decide]

end Decode

/-! ## Lists of words -/

section Lists

variable {types : TypeTable} {ts low : List TypeId} {ws : List UInt64} {n : Nat}

theorem length_decodeAll (same : ts.length = ws.length) :
    (decodeAll types ts ws).length = ws.length := by
  rw [decodeAll, List.length_zipWith, same, Nat.min_self]

theorem getElem?_decodeAll {type : TypeId} {w : UInt64} (here : ts[n]? = some type)
    (value : ws[n]? = some w) : (decodeAll types ts ws)[n]? = some (decode types type w) := by
  rw [decodeAll, List.getElem?_zipWith, here, value]

theorem decodeAll_set {type : TypeId} (here : ts[n]? = some type) (w : UInt64) :
    decodeAll types ts (ws.set n w) = (decodeAll types ts ws).set n (decode types type w) := by
  induction ts generalizing ws n with
  | nil => cases here
  | cons t ts ih =>
    cases ws with
    | nil => rfl
    | cons v ws =>
      cases n with
      | zero =>
        cases here
        rfl
      | succ n => exact congrArg (decode types t v :: ·) (ih here)

theorem decodeAll_zeros (types : TypeTable) (ts : List TypeId) :
    decodeAll types ts (List.replicate ts.length 0) = ts.map (.initial types) := by
  induction ts with
  | nil => rfl
  | cons t ts ih =>
    rw [List.length_cons, List.replicate_succ, List.map_cons, ← ih, ← decode_zero]
    rfl

/-- The arguments among the operands of a caller. -/
theorem decodeAll_take (parameters : List TypeId) (enough : parameters.length ≤ ws.length) :
    decodeAll types parameters (ws.take parameters.length).reverse
      = ((decodeAll types (parameters.reverse ++ low) ws).take parameters.length).reverse := by
  have upper : (parameters.reverse ++ low).take parameters.length = parameters.reverse := by
    rw [← List.length_reverse, List.take_left]
  have lengths : parameters.reverse.length = (ws.take parameters.length).length := by
    rw [List.length_reverse, List.length_take_of_le enough]
  rw [decodeAll, List.take_zipWith, upper, List.reverse_zipWith lengths, List.reverse_reverse]

theorem decodeAll_drop (parameters : List TypeId) :
    decodeAll types low (ws.drop parameters.length)
      = (decodeAll types (parameters.reverse ++ low) ws).drop parameters.length := by
  rw [decodeAll, List.drop_zipWith]
  congr 1
  rw [← List.length_reverse, List.drop_left]

end Lists

/-! ## Activations -/

/-- What the words of an activation of a function stand for. -/
def read (types : TypeTable) (f : Function) (a : Activation UInt64) : Activation Value where
  function := a.function
  index := a.index
  arguments := decodeAll types f.definition.parameters a.arguments
  locals := decodeAll types f.locals a.locals
  operands := decodeAll types (f.operandTypes a.index) a.operands

/-- Callers of a function, which have taken its arguments off their operands. -/
inductive Waiting (types : TypeTable) (functions : FunctionTable) :
    FunctionId → List (Activation UInt64) → List (Activation Value) → Prop where
  | nil {callee : FunctionId} : Waiting types functions callee [] []
  | cons {callee : FunctionId} {a : Activation UInt64} {f g : Function}
      {callers : List (Activation UInt64)} {others : List (Activation Value)}
      (found : functions.get? a.function = some f) (called : functions.get? callee = some g)
      (rest : Waiting types functions a.function callers others) :
      Waiting types functions callee (a :: callers)
        ({ read types f a with operands := (read types f a).operands.drop g.argumentCount }
          :: others)

/-! ## Heaps -/

/-- The object that an object of a heap stands for. -/
def readObject (types : TypeTable) (o : Heap.Object) : Object :=
  ⟨o.type, decodeAll types (o.slotTypes types) o.words⟩

/-- A store has the objects of a heap, and as much room as it. It may have more objects. -/
structure Holds (types : TypeTable) (a : Arena) (s : Store) : Prop where
  base : s.base = a.region.base
  capacity : s.capacity = a.region.size
  used : s.used = a.used
  objects : ∀ r o, a.object? types r = some o → s.objects r = some (readObject types o)

section Holds

variable {types : TypeTable} {a b : Arena} {s : Store} {cells : List Cell} {r : UInt64}
  {o : Heap.Object}

theorem Holds.available (holds : Holds types a s) : s.available = a.available := by
  unfold Store.available Arena.available Arena.capacity
  rw [holds.capacity, holds.used]

theorem Holds.room? (holds : Holds types a s) (dataSize : Nat) :
    s.room? dataSize = a.fit? dataSize := by
  unfold Store.room? Arena.fit?
  rw [holds.available]

theorem Holds.next (holds : Holds types a s) : s.next = a.nextData := by
  unfold Store.next Arena.nextData Arena.next Arena.base
  rw [holds.base, holds.used]

section

variable (holds : Holds types a s) (wf : types.WellFormed) (regular : a.Regular types cells)

include holds wf regular

theorem Holds.stored (here : a.object? types r = some o) {i : Nat} {p : Nat × TypeId}
    (place : (o.places types)[i]? = some p) (moved : Width.ofSize? (types.size p.2) = some width)
    {v : UInt64} (has : HasType types true a p.2 v) :
    Holds types (a.stored (r + UInt64.ofNat p.1) width v)
      (s.set r ⟨o.type, (readObject types o).values.set i (decode types p.2 v)⟩) := by
  refine ⟨holds.base.trans (Memory.Region.base_writeWord ..).symm,
    holds.capacity.trans (Memory.Region.size_writeWord ..).symm, holds.used, fun r' o' there => ?_⟩
  rw [Arena.object?_stored wf regular here place moved] at there
  show (if r' = r then _ else s.objects r') = _
  split at there
  · rename_i same
    cases there
    rw [if_pos same]
    unfold readObject
    dsimp only
    rw [Heap.Object.slotTypes_set, decodeAll_set (Heap.Object.slotTypes_of_place place),
      decode_cut wf has moved]
  · rename_i other
    rw [if_neg other]
    exact holds.objects r' o' there

theorem Holds.extended {type : TypeId} {total : Nat} (extended : a.Extended types type total b)
    {slots : List TypeId}
    (same : (Heap.placesIn types type (b.firstWord a.used).toNat).map Prod.snd = slots) :
    Holds types b (s.add total ⟨type, slots.map (.initial types)⟩) := by
  refine ⟨holds.base.trans extended.base.symm, holds.capacity.trans extended.size.symm, ?_,
    fun r o' there => ?_⟩
  · show s.used + total = b.used
    rw [holds.used, extended.used]
  · rw [Arena.object?_extended wf extended regular] at there
    show (if r = s.next then _ else s.objects r) = _
    rw [holds.next]
    split at there
    · rename_i new
      cases there
      rw [if_pos new]
      -- The words of a new object are zero, as many as there are slots.
      unfold readObject Heap.Object.slotTypes Heap.Object.places
      dsimp only
      rw [List.length_replicate, Heap.placesIn_length, same, ← List.length_map Prod.snd, same,
        decodeAll_zeros]
    · rename_i other
      rw [if_neg other]
      exact holds.objects r o' there

/-- A collection: the store keeps what the heap loses. -/
theorem Holds.settled {M : List UInt64} (settled : Arena.Settled a types cells M b) :
    Holds types b s := by
  refine ⟨holds.base.trans settled.base.symm, holds.capacity.trans settled.size.symm,
    holds.used.trans settled.used.symm, fun r o here => ?_⟩
  rw [Arena.object?_settled wf settled regular] at here
  split at here
  · exact holds.objects r o here
  · cases here

end

end Holds

/-! ## States -/

/-- Activations, heap and output stand for a state. -/
structure Represents (types : TypeTable) (functions : FunctionTable) (c : Configuration UInt64)
    (s : State) : Prop where
  current : ∃ f, functions.get? c.current.function = some f ∧ s.current = read types f c.current
  callers : Waiting types functions c.current.function c.callers s.callers
  store : Holds types c.world.heap s.store
  output : s.output = c.world.output

end ManagedCode.Direct
