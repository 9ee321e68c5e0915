import ManagedCode.Proofs.Semantics.HeapAccess

/-!
# Typed activations stay typed and never get stuck

The activations and the heap of a run agree with the types: every reference slot is null or refers to
a live object of exactly the type of the slot. An instruction of a checked body then has a meaning,
and leaves everything typed.

* `Configuration.Typed`: activations and heap agree with the types.
* `Change`: what one instruction may do to the heap.
* `sound_of_perform`: what one instruction does, over all instructions.
* `Configuration.Typed.step`: progress and preservation. `Words.Reaches.typed`: runs.
-/

namespace ManagedCode

open Bytecode TypeSystem
open Heap (Arena Cell Collector HasType Object WellTyped)
open Machine (Stop toInt ofInt)
open Target (Width)

/-! ## Definitions -/

/-- All activations and the heap agree with the types. -/
structure Configuration.Typed (types : TypeTable) (functions : FunctionTable) (clean : Bool)
    (root : FunctionId) (c : Configuration UInt64) : Prop where
  fits : c.Fits functions (HasType types clean c.world.heap) root
  heap : WellTyped types clean c.world.heap

/-- A trap or a full heap: what a program itself can cause. -/
def Machine.Stop.isOrderly : Stop → Bool
  | .trap _ | .heapExhausted .. => true
  | _ => false

/-- The position among the operands of the object that an instruction stores to. -/
def Bytecode.Instr.storesTo? : Instr → Option Nat
  | .storeField _ => some 1
  | .storeElement _ => some 2
  | _ => none

def Bytecode.Instr.allocates : Instr → Bool
  | .newObject _ | .newArray _ => true
  | _ => false

/-- An instruction calls the routine that collects. -/
def Bytecode.Instr.Collects (functions : FunctionTable) (instr : Instr) : Prop :=
  ∃ callee g, instr.callee? = some callee ∧ functions.get? callee = some g ∧
    g.native? = some .collect

/-- What an instruction may do to the heap.

* `none`: nothing.
* `stored`: it puts a value of the right type at a place of the object that it stores to.
* `allocated`: it adds an object.
* `collected`: it takes away the objects that the activations do not lead to. -/
inductive Change (types : TypeTable) (functions : FunctionTable) (clean : Bool)
    (c : Configuration UInt64) (instr : Instr) : Arena → Prop where
  | none : Change types functions clean c instr c.world.heap
  | stored {depth : Nat} {r v : UInt64} {o : Object} {i : Nat} {p : Nat × TypeId} {width : Width}
      (stores : instr.storesTo? = some depth) (accessed : c.operands[depth]? = some r)
      (here : c.world.heap.object? types r = some o) (place : (o.places types)[i]? = some p)
      (moved : Width.ofSize? (types.size p.2) = some width)
      (good : HasType types clean c.world.heap p.2 v) :
      Change types functions clean c instr (c.world.heap.stored (r + UInt64.ofNat p.1) width v)
  | allocated {type : TypeId} {total : Nat} {b : Arena} (allocates : instr.allocates = true)
      (extended : c.world.heap.Extended types type total b) :
      Change types functions clean c instr b
  | collected {cells : List Cell} {M : List UInt64} {b : Arena}
      (collects : instr.Collects functions) (regular : c.world.heap.Regular types cells)
      (exactly : ∀ r, r ∈ M ↔
        Arena.Reachable c.world.heap types cells (Words.roots types functions c.active) r)
      (settled : Arena.Settled c.world.heap types cells M b) :
      Change types functions clean c instr b

/-- What an instruction of a checked body leads to. It always has a meaning; what it pushes from the
heap is typed there, and so is what the outermost function returns. -/
def Sound (types : TypeTable) (functions : FunctionTable) (clean : Bool) (c : Configuration UInt64)
    (instr : Instr) (after : OperandTypes) : Outcome UInt64 → Prop
  | .next c' => Change types functions clean c instr c'.world.heap ∧
      (instr.takesFromHeap = true → ∀ type low w rest, after = type :: low →
        c'.operands = w :: rest → HasType types clean c'.world.heap type w)
  | .finished value world => world = c.world ∧ c.callers = [] ∧
      ∀ f, functions.get? c.current.function = some f → f.definition.returnType ≠ .void →
        ∃ w, value = some w ∧ HasType types clean c.world.heap f.definition.returnType w
  | .stopped e world => e.isOrderly = true ∧ world = c.world
  | .stuck => False

/-! ## One instruction -/

section Step

variable {p : Program} {clean : Bool} {root callee : FunctionId} {c c' : Configuration UInt64}
  {f g : Function} {instr : Instr} {after : OperandTypes}

theorem admits_hasType (wf : p.types.WellFormed) (a : Arena) :
    Admits (HasType p.types clean a) where
  int _ := .scalar (wf.isReference_primitive .int) (by decide)
  float _ := .scalar (wf.isReference_primitive .float) (by decide)
  bool b := ⟨fun reference => absurd reference (by
      rw [show p.types.isReference .bool = false from wf.isReference_primitive .bool]
      decide), fun _ _ => by cases b <;> decide⟩
  null t := .null p.types clean a t

theorem Sound.of_eq {outcome outcome' : Outcome UInt64} (ran : outcome = outcome')
    (good : Sound p.types p.functions clean c instr after outcome') :
    Sound p.types p.functions clean c instr after outcome :=
  ran ▸ good

theorem sound_next (same : c'.world.heap = c.world.heap) (plain : instr.takesFromHeap = false) :
    Sound p.types p.functions clean c instr after (.next c') := by
  refine ⟨same ▸ .none, fun takes => ?_⟩
  rw [plain] at takes
  cases takes

variable {low : OperandTypes} {rest : List UInt64}

variable {type : TypeId} {v : UInt64} {b : Arena}

theorem sound_loaded (left : after = type :: low)
  (has : HasType p.types clean c.world.heap type v) :
    Sound p.types p.functions clean c instr after (.next (c.goOn (v :: rest))) := by
  refine ⟨.none, fun _ type' low' w rest' same top => ?_⟩
  cases left.symm.trans same
  cases top
  exact has

theorem sound_allocated (wf : p.types.WellFormed) (typed : WellTyped p.types clean c.world.heap)
    (allocates : instr.allocates = true) (left : after = type :: low) {total : Nat}
    (extended : c.world.heap.Extended p.types type total b) :
    Sound p.types p.functions clean c instr after
      (.next ((c.inWorld (c.world.withHeap b)).goOn (c.world.heap.nextData :: rest))) := by
  obtain ⟨cells, regular⟩ := typed.regular
  refine ⟨.allocated allocates extended, fun _ type' low' w rest' same top => ?_⟩
  cases left.symm.trans same
  cases top
  have scalar : type ≠ .bool := by
    rintro rfl
    have sized := extended.sized
    unfold Arena.sizeFrom at sized
    rw [show p.types.shape? .bool = _ from wf.primitive .bool] at sized
    cases sized
  have there := Arena.object?_extended wf extended regular c.world.heap.nextData
  rw [if_pos rfl] at there
  exact ⟨fun _ => .inr ⟨_, there, rfl⟩, fun _ same => absurd same scalar⟩

theorem sound_stored {depth : Nat} (stores : instr.storesTo? = some depth)
    (plain : instr.takesFromHeap = false) {r : UInt64} (accessed : c.operands[depth]? = some r)
    {o : Object} (here : c.world.heap.object? p.types r = some o) {i : Nat} {q : Nat × TypeId}
    (place : (o.places p.types)[i]? = some q) {width : Width}
    (moved : Width.ofSize? (p.types.size q.2) = some width)
    (good : HasType p.types clean c.world.heap q.2 v) (rest : List UInt64) :
    Sound p.types p.functions clean c instr after
      (.next ((c.inWorld (c.world.stored (r + UInt64.ofNat q.1) width v)).goOn rest)) := by
  refine ⟨.stored stores accessed here place moved good, fun takes => ?_⟩
  rw [plain] at takes
  cases takes

theorem sound_leave (plain : instr.takesFromHeap = false) (arguments : Nat)
    {value : Option UInt64}
    (good : ∀ f, p.functions.get? c.current.function = some f → f.definition.returnType ≠ .void →
      ∃ w, value = some w ∧ HasType p.types clean c.world.heap f.definition.returnType w) :
    Sound p.types p.functions clean c instr after (c.leave arguments value) := by
  unfold Configuration.leave
  split
  · exact ⟨rfl, ‹_›, good⟩
  · exact sound_next rfl plain

section

variable (ready : p.Ready) (typed : c.Typed p.types p.functions clean root)
  (current : c.current.Fits p.functions (HasType p.types clean c.world.heap) f)
  (flow : p.Flows f c.current instr after) (calls : instr.callee? = some callee)
  (found : p.functions.get? callee = some g) (plain : instr.takesFromHeap = false)

include ready typed current flow calls found plain

theorem sound_callRoutine {routine : Native} (native : g.native? = some routine) :
    Sound p.types p.functions clean c instr after
      (Words.callRoutine p.types p.functions routine c) := by
  have same : g = .ofNative routine := ready.tidy.natives _ _ _ found native
  subst same
  obtain ⟨low, before, _, _⟩ := operands_of_call current flow calls found
  have operands := current.operands
  rw [before] at operands
  by_cases collects : routine = .collect
  · subst collects
    obtain ⟨cells, M, b, regular, exactly, settled, ran⟩ :=
      callRoutine_collect ready.types typed.fits typed.heap
    rw [ran]
    refine ⟨.collected ⟨callee, _, calls, found, native⟩ regular exactly settled, fun takes => ?_⟩
    rw [plain] at takes
    cases takes
  · by_cases lists : routine = .printCallStack
    · subst lists
      exact sound_next rfl plain
    · obtain ⟨⟨type, parameters⟩, _, _⟩ := prints_one collects lists 0
      rw [show (Function.ofNative routine).definition.parameters = [type] from parameters]
        at operands
      obtain ⟨w, rest, top, _, _⟩ := operands_one operands
      obtain ⟨_, _, line, printed⟩ := prints_one collects lists w
      rw [callRoutine_print collects lists top printed]
      exact sound_next rfl plain

theorem sound_call (onObject : Bool) :
    Sound p.types p.functions clean c instr after
      (Words.call p.types p.functions c callee onObject) := by
  unfold Words.call
  rw [found]
  dsimp only
  cases native : g.native? with
  | some routine => exact sound_callRoutine ready typed current flow calls found plain native
  | none =>
    dsimp only
    split
    · exact ⟨rfl, rfl⟩
    · obtain ⟨_, _, _, enough⟩ := operands_of_call current flow calls found
      unfold Configuration.enter
      rw [if_pos (show g.argumentCount ≤ c.operands.length from enough)]
      exact sound_next rfl plain

end

/-- An instruction of a checked body over typed activations. -/
theorem sound_of_perform (ready : p.Ready) (typed : c.Typed p.types p.functions clean root)
    (found : p.functions.get? c.current.function = some f)
    (flow : p.Flows f c.current instr after) :
    Sound p.types p.functions clean c instr after
      (Words.perform p.types p.functions f c instr) := by
  have wf := ready.types
  have heap := typed.heap
  have current := typed.fits.current_of_found found
  obtain ⟨stack, effect, operands⟩ := current.effect flow
  cases effect with
  | nop | loadInt | loadFloat | loadBool | loadNull | branch => exact sound_next rfl rfl
  | pop | dup | storeLocal =>
    obtain ⟨w, rest, top, _⟩ := operands_one operands
    exact .of_eq (pop1_eq top _) (sound_next rfl rfl)
  | @loadLocal n type stack here =>
    obtain ⟨w, value, _⟩ := forall₂_getElem? current.locals here
    unfold Words.perform
    dsimp only
    rw [value]
    exact sound_next rfl rfl
  | @loadArgument n type stack here =>
    obtain ⟨w, value, _⟩ := forall₂_getElem? current.arguments here
    unfold Words.perform
    dsimp only
    rw [value]
    exact sound_next rfl rfl
  | arith =>
    obtain ⟨b, a, rest, top, _⟩ := operands_two operands
    refine .of_eq (pop2_eq top _) ?_
    split
    · split
      · exact sound_next rfl rfl
      · exact ⟨rfl, rfl⟩
    · exact sound_next rfl rfl
  | and | or | compare =>
    obtain ⟨b, a, rest, top, _⟩ := operands_two operands
    exact .of_eq (pop2_eq top _) (sound_next rfl rfl)
  | not | intToFloat | floatToInt =>
    obtain ⟨a, rest, top, _⟩ := operands_one operands
    exact .of_eq (pop1_eq top _) (sound_next rfl rfl)
  | branchIf =>
    obtain ⟨b, a, rest, top, _⟩ := operands_two operands
    refine .of_eq (pop2_eq top _) ?_
    split
    · exact sound_next rfl rfl
    · exact sound_next rfl rfl
  | call known => exact sound_call ready typed current flow rfl known rfl false
  | callInstance known => exact sound_call ready typed current flow rfl known rfl true
  | ret =>
    unfold Words.perform Words.ret
    dsimp only
    split
    · rename_i void
      refine sound_leave rfl _ fun f' found' some_ => ?_
      cases found'.symm.trans found
      exact absurd void some_
    · rename_i some_
      unfold Typing.resultTypes at operands
      rw [if_neg some_] at operands
      obtain ⟨w, rest, top, has, _⟩ := operands_one operands
      refine .of_eq (pop1_eq top _) (sound_leave rfl _ fun f' found' _ => ?_)
      cases found'.symm.trans found
      exact ⟨w, rfl, has⟩
  | newObject object =>
    rcases perform_newObject heap object with ⟨_, ran⟩ | ⟨total, b, _, extended, ran⟩
    · exact .of_eq ran ⟨rfl, rfl⟩
    · exact .of_eq ran (sound_allocated wf heap rfl rfl extended)
  | newArray array =>
    obtain ⟨w, rest, top, _⟩ := operands_one operands
    rcases perform_newArray heap array top with
      ⟨_, ran⟩ | ⟨_, n, _, _, ⟨_, ran⟩ | ⟨total, b, _, extended, _, ran⟩⟩
    · exact .of_eq ran ⟨rfl, rfl⟩
    · exact .of_eq ran ⟨rfl, rfl⟩
    · exact .of_eq ran (sound_allocated wf heap rfl rfl extended)
  | arrayLength array =>
    obtain ⟨w, rest, top, has, _⟩ := operands_one operands
    rcases perform_arrayLength heap array has top with ⟨_, ran⟩ | ⟨o, _, _, ran⟩
    · exact .of_eq ran ⟨rfl, rfl⟩
    · exact .of_eq ran (sound_next rfl rfl)
  | loadElement array =>
    obtain ⟨i, w, rest, top, _, has, _⟩ := operands_two operands
    rcases perform_loadElement wf heap array has top with
      ⟨_, ran⟩ | ⟨o, here, _, _, ⟨_, ran⟩ | ⟨n, _, _, _, _, v, place, value, ran⟩⟩
    · exact .of_eq ran ⟨rfl, rfl⟩
    · exact .of_eq ran ⟨rfl, rfl⟩
    · exact .of_eq ran (sound_loaded rfl (heap.word here place value))
  | storeElement array =>
    obtain ⟨v, i, w, rest, top, good, _, has, _⟩ := operands_three operands
    have accessed : c.operands[2]? = some w := by
      rw [show c.operands = _ from top]
      rfl
    rcases perform_storeElement wf heap array has top with
      ⟨_, ran⟩ | ⟨o, here, _, _, ⟨_, ran⟩ | ⟨n, _, _, _, _, width, place, moved, ran⟩⟩
    · exact .of_eq ran ⟨rfl, rfl⟩
    · exact .of_eq ran ⟨rfl, rfl⟩
    · exact .of_eq ran (sound_stored rfl rfl accessed here place moved good rest)
  | loadField object here offset type =>
    obtain ⟨w, rest, top, has, _⟩ := operands_one operands
    rcases perform_loadField wf object here offset type has heap top with
      ⟨_, ran⟩ | ⟨o, there, _, v, place, value, ran⟩
    · exact .of_eq ran ⟨rfl, rfl⟩
    · exact .of_eq ran (sound_loaded rfl (heap.word there place value))
  | storeField object here offset type =>
    obtain ⟨v, w, rest, top, good, has, _⟩ := operands_two operands
    have accessed : c.operands[1]? = some w := by
      rw [show c.operands = _ from top]
      rfl
    rcases perform_storeField wf object here offset type has heap top with
      ⟨_, ran⟩ | ⟨o, there, _, width, place, moved, ran⟩
    · exact .of_eq ran ⟨rfl, rfl⟩
    · exact .of_eq ran (sound_stored rfl rfl accessed there place moved good rest)

/-! ## What a change of the heap keeps -/

/-- After a change the heap is well typed and the activations fit it. -/
theorem Configuration.Typed.change (wf : p.types.WellFormed)
    (typed : c.Typed p.types p.functions clean root)
    (change : Change p.types p.functions clean c instr b) :
    WellTyped p.types clean b ∧ c.Fits p.functions (HasType p.types clean b) root := by
  obtain ⟨fits, heap⟩ := typed
  obtain ⟨cells, regular⟩ := heap.regular
  -- Where objects keep their types, the activations fit as before.
  have keeps : (∀ r o, c.world.heap.object? p.types r = some o →
      ∃ o', b.object? p.types r = some o' ∧ o'.type = o.type) →
      c.Fits p.functions (HasType p.types clean b) root := fun same =>
    fits.mono fun t w has => has.mono (same w)
  cases change with
  | none => exact ⟨heap, fits⟩
  | stored _ _ here place moved good =>
    exact ⟨heap.stored wf here place moved good,
      keeps fun r o there => Heap.object?_stored_type wf regular here place moved there⟩
  | allocated _ extended =>
    exact ⟨heap.extended wf extended,
      keeps fun r o there => ⟨o, Heap.object?_extended_of_some wf extended regular there, rfl⟩⟩
  | collected _ regular' exactly settled =>
    exact ⟨heap.settled wf regular' settled exactly,
      fits.settled wf regular' settled exactly⟩

section

variable (ready : p.Ready) (typed : c.Typed p.types p.functions clean root)

include ready typed

theorem Configuration.Typed.of_perform (found : p.functions.get? c.current.function = some f)
    (flow : p.Flows f c.current instr after)
    (ran : Words.perform p.types p.functions f c instr = .next c') :
    c'.Typed p.types p.functions clean root := by
  have sound := sound_of_perform ready typed found flow
  rw [ran] at sound
  obtain ⟨heap, fits⟩ := typed.change ready.types sound.1
  exact ⟨fits_of_perform ready (admits_hasType ready.types _) fits found flow sound.2 ran, heap⟩

theorem Configuration.Typed.step :
    ∃ f instr after, p.functions.get? c.current.function = some f ∧
      p.Flows f c.current instr after ∧
      Sound p.types p.functions clean c instr after (Words.step p.types p.functions c) ∧
      ∀ c', Words.step p.types p.functions c = .next c' →
        c'.Typed p.types p.functions clean root := by
  obtain ⟨f, instr, after, found, flow, same⟩ := step_eq_perform ready typed.fits
  rw [same]
  exact ⟨f, instr, after, found, flow, sound_of_perform ready typed found flow,
    fun c' ran => typed.of_perform ready found flow ran⟩

end

end Step

/-! ## Runs -/

section Runs

variable {p : Program} {clean : Bool} {root : FunctionId} {c c' : Configuration UInt64}

theorem Configuration.Typed.shaped {types : TypeTable} {functions : FunctionTable}
    (typed : c.Typed types functions clean root) : c.Shaped functions root :=
  typed.fits.shaped

theorem Words.Reaches.typed (reaches : Words.Reaches p.types p.functions c c') (ready : p.Ready)
    (typed : c.Typed p.types p.functions clean root) : c'.Typed p.types p.functions clean root := by
  induction reaches with
  | refl => exact typed
  | tail _ ran ih =>
    obtain ⟨_, _, _, _, _, _, next⟩ := ih.step ready
    exact next _ ran

/-- A function that was just called from outside on a well-typed heap. -/
theorem typed_start (ready : p.Ready) {f : Function} (found : p.functions.get? root = some f)
    (body : f.HasBody) {arguments : List UInt64} {world : World}
    (good : List.Forall₂ (HasType p.types clean world.heap) f.definition.parameters arguments)
    (heap : WellTyped p.types clean world.heap) :
    (Words.start root f arguments world).Typed p.types p.functions clean root :=
  ⟨fits_start ready (admits_hasType ready.types _) found body good world, heap⟩

end Runs

end ManagedCode
