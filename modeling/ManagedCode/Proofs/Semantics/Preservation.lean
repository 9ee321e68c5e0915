import ManagedCode.Proofs.Heap.Typing
import ManagedCode.Proofs.Machine.Calls
import Mathlib.Logic.Relation

/-!
# Activations keep fitting

An instruction of a checked body takes activations that fit to activations that fit, whatever is
asked of the values, provided that it holds of the words that are made for numbers, of zero and one as
truth values, of null, and of what the instruction takes from the heap.

* `Admits`: what may be asked of values.
* `fits_of_perform`: one instruction.
* `Words.Reaches`, `Words.Reaches.shaped`: any number of instructions.
-/

namespace ManagedCode

open Bytecode TypeSystem
open Compile (CompiledFunction)
open Machine (toInt ofInt toSingle ofSingle ofBool)
open Words (allocating loading onElement perform step storing)

variable {root : FunctionId} {c : Configuration UInt64}

/-! ## What is asked of values -/

/-- A relation between types and words that holds of the words that are made for numbers, of zero and
one as truth values, and of null. -/
structure Admits (R : TypeId → UInt64 → Prop) : Prop where
  int : ∀ i, R .int (ofInt i)
  float : ∀ s, R .float (ofSingle s)
  bool : ∀ b, R .bool (ofBool b)
  null : ∀ t, R t 0

/-- The instructions that push what they find in the heap. -/
def Bytecode.Instr.takesFromHeap : Instr → Bool
  | .newArray _ | .loadElement _ | .newObject _ | .loadField _ => true
  | _ => false

theorem TypeSystem.TypeTable.WellFormed.isReference_primitive {types : TypeTable}
    (wf : types.WellFormed) (p : Primitive) : types.isReference p.id = false :=
  TypeTable.isReference_of_shape? (wf.primitive p)

theorem Typing.Scope.eq_of_isNumeric {s : Typing.Scope} (wf : s.types.WellFormed) {type : TypeId}
    (numeric : s.isNumeric type = true) : type = .int ∨ type = .float := by
  unfold Typing.Scope.isNumeric at numeric
  split at numeric
  · rename_i known
    exact .inl (wf.primitive_only _ _ known)
  · rename_i known
    exact .inr (wf.primitive_only _ _ known)
  · cases numeric

variable {n : Nat} {value : UInt64}

section Fits

variable {types : TypeTable} {functions : FunctionTable} {R : TypeId → UInt64 → Prop}
  {root : FunctionId} {c c' : Configuration UInt64} {f : Function} {instr : Instr}
  {after : OperandTypes}

theorem Configuration.Fits.current_of_found (fits : c.Fits functions R root)
    (found : functions.get? c.current.function = some f) : c.current.Fits functions R f := by
  obtain ⟨f', current⟩ := fits.current
  cases found.symm.trans current.found
  exact current

variable {operands : List UInt64}

section

variable (fits : c.Fits functions R root) (current : c.current.Fits functions R f)

include fits current

variable {world : World}

/-- Control goes to another instruction of the same function. -/
theorem Configuration.Fits.goto {index : Nat} (reachable : f.isReachable index = true)
    (operands_ : List.Forall₂ R (f.operandTypes index) operands) :
    ((c.inWorld world).goto index operands).Fits functions R root :=
  ⟨⟨f, current.found, current.body, reachable, current.arguments, current.locals, operands_⟩,
    fits.callers⟩

theorem Configuration.Fits.goOn
    (flow : Typing.Flows ⟨types, functions, f⟩ c.current.index instr after)
    (goes : instr.endsBlock = false) (operands_ : List.Forall₂ R after operands) :
    ((c.inWorld world).goOn operands).Fits functions R root := by
  obtain ⟨_, reachable, types⟩ := flow.next goes
  have types : f.operandTypes (c.current.index + 1) = after := types
  exact fits.goto current reachable (types ▸ operands_)

theorem Configuration.Fits.setLocal {type : TypeId} (here : f.locals[n]? = some type)
    (good : R type value) : (c.setLocal n value).Fits functions R root := by
  exact ⟨⟨f, current.found, current.body, current.reachable, current.arguments,
    forall₂_set current.locals here good, current.operands⟩, fits.callers⟩

end

end Fits

section Step

variable {p : Program} {R : TypeId → UInt64 → Prop} {root callee : FunctionId}
  {c c' : Configuration UInt64} {f g : Function} {instr : Instr} {after : OperandTypes}
variable {rest : List UInt64} {width : Target.Width} {type : TypeId} {address : UInt64}

/-! ## Calls and returns -/

variable {values : List UInt64}

theorem forall₂_split {upper lower : List TypeId} (all : List.Forall₂ R (upper ++ lower) values) :
    List.Forall₂ R upper (values.take upper.length) ∧
      List.Forall₂ R lower (values.drop upper.length) := by
  have taken := List.forall₂_take upper.length all
  have dropped := List.forall₂_drop upper.length all
  rw [List.take_left] at taken
  rw [List.drop_left] at dropped
  exact ⟨taken, dropped⟩

/-- A function that is called has a body unless it is a routine of the runtime. -/
theorem hasBody_of_call (ready : p.Runnable) (current : c.current.Fits p.functions R f)
    (here : f.code[c.current.index]? = some instr) (calls : instr.callee? = some callee)
    (found : p.functions.get? callee = some g) (native : g.native? = none) : g.HasBody := by
  obtain ⟨k, code⟩ := ready.code current.found current.body
  obtain ⟨offset, constant, pieces, at_⟩ := code.at_ _ _ here current.reachable
  obtain ⟨onObject, _, _, split⟩ := lowered_call at_ calls found native
  have lies := at_.lies
  rw [split] at lies
  obtain ⟨_, _, lies⟩ := lies.append
  obtain ⟨_, _, code', _⟩ := call_of_lies ready code found native lies
  exact code'.body

theorem forall₂_zeros (admits : Admits R) (locals : List TypeId) :
    List.Forall₂ R locals (List.replicate locals.length 0) := by
  induction locals with
  | nil => exact .nil
  | cons type rest ih => exact .cons (admits.null type) ih

theorem fits_of_enter (ready : p.Runnable) (admits : Admits R)
    (fits : c.Fits p.functions R root) (current : c.current.Fits p.functions R f)
    (flow : p.Flows f c.current instr after)
    (calls : instr.callee? = some callee) (found : p.functions.get? callee = some g)
    (native : g.native? = none)
    (ran : c.enter callee g.argumentCount (List.replicate g.locals.length 0) = .next c') :
    c'.Fits p.functions R root := by
  have body := hasBody_of_call ready current flow.code calls found native
  obtain ⟨reachable, none⟩ := Typing.entry_of_checked (ready.checked _ _ found body).body
  obtain ⟨low, types, _, enough⟩ := operands_of_call current flow calls found
  unfold Configuration.enter at ran
  rw [if_pos (show g.argumentCount ≤ c.operands.length from enough)] at ran
  cases ran
  refine ⟨⟨g, found, body, reachable, ?_, ?_, ?_⟩, ⟨f, instr, current, flow.code, calls⟩, fits.callers⟩
  · have operands := current.operands
    rw [types] at operands
    obtain ⟨taken, _⟩ := forall₂_split operands
    rw [List.length_reverse] at taken
    have reversed := List.rel_reverse taken
    rwa [List.reverse_reverse] at reversed
  · exact forall₂_zeros admits g.locals
  · show List.Forall₂ R (g.operandTypes 0) []
    rw [show g.operandTypes 0 = [] from none]
    exact .nil

section

variable (ready : p.Runnable) (fits : c.Fits p.functions R root)
  (current : c.current.Fits p.functions R f)

include ready fits current

theorem fits_of_leave {value : Option UInt64}
    (good : List.Forall₂ R (Typing.resultTypes f.definition) value.toList)
    (ran : c.leave f.argumentCount value = .next c') : c'.Fits p.functions R root := by
  have suspended := fits.callers
  have native := Function.native?_of_hasBody current.body
  unfold Configuration.leave at ran
  split at ran
  · cases ran
  · rename_i a rest callers
    cases ran
    rw [callers] at suspended
    obtain ⟨⟨g, instr, caller, here, calls⟩, outer⟩ := suspended
    obtain ⟨k, code⟩ := ready.code caller.found caller.body
    obtain ⟨instr', after, flow⟩ := ready.flows code caller.reachable
    cases here.symm.trans flow.code
    obtain ⟨low, before, left, _⟩ := operands_of_call caller flow calls current.found
    obtain ⟨_, reachable, types⟩ := flow.next (Instr.endsBlock_of_callee? calls)
    have types : g.operandTypes (a.index + 1) = after := types
    have operands := caller.operands
    rw [before] at operands
    obtain ⟨_, below⟩ := forall₂_split operands
    rw [List.length_reverse] at below
    refine ⟨⟨g, caller.found, caller.body, reachable, caller.arguments, caller.locals, ?_⟩, outer⟩
    show List.Forall₂ R (g.operandTypes (a.index + 1)) (value.toList ++ _)
    rw [types, left]
    exact List.rel_append good below

theorem fits_of_ret (flow : p.Flows f c.current .ret after) (ran : Words.ret f c = .next c') :
    c'.Fits p.functions R root := by
  unfold Words.ret at ran
  split at ran
  · rename_i void
    refine fits_of_leave ready fits current ?_ ran
    unfold Typing.resultTypes
    rw [if_pos void]
    exact .nil
  · rename_i some
    obtain ⟨w, rest, top, good⟩ := current.returned flow some
    rw [pop1_eq top] at ran
    refine fits_of_leave ready fits current ?_ ran
    unfold Typing.resultTypes
    rw [if_neg some]
    exact .cons good .nil

theorem fits_of_callRoutine (flow : p.Flows f c.current instr after)
    (calls : instr.callee? = some callee) (found : p.functions.get? callee = some g)
    {routine : Native} (native : g.native? = some routine)
    (ran : Words.callRoutine p.types p.functions routine c = .next c') :
    c'.Fits p.functions R root := by
  have same : g = .ofNative routine := ready.tidy.natives _ _ _ found native
  subst same
  obtain ⟨low, before, left, _⟩ := operands_of_call current flow calls found
  have operands := current.operands
  rw [before] at operands
  have goes := Instr.endsBlock_of_callee? calls
  subst left
  unfold Words.callRoutine at ran
  split at ran
  · split at ran
    · cases ran
      exact fits.goOn current flow goes operands
    · cases ran
  · cases ran
    exact fits.goOn current flow goes operands
  · rename_i notCollect notList
    obtain ⟨⟨type, parameters⟩, _, _⟩ := prints_one notCollect notList 0
    rw [show (Function.ofNative routine).definition.parameters = [type] from parameters] at operands
    obtain ⟨w, rest, top, _, below⟩ := operands_one operands
    have top : c.operands = w :: rest := top
    rw [pop1_eq top] at ran
    split at ran
    · cases ran
      exact fits.goOn current flow goes below
    · cases ran

end

theorem fits_of_call (ready : p.Runnable) (admits : Admits R)
    (fits : c.Fits p.functions R root) (current : c.current.Fits p.functions R f)
    (flow : p.Flows f c.current instr after)
    (calls : instr.callee? = some callee) {onObject : Bool}
    (ran : Words.call p.types p.functions c callee onObject = .next c') :
    c'.Fits p.functions R root := by
  unfold Words.call at ran
  split at ran
  · cases ran
  · rename_i g found
    split at ran
    · rename_i routine native
      exact fits_of_callRoutine ready fits current flow calls found native ran
    · rename_i native
      split at ran
      · cases ran
      · exact fits_of_enter ready admits fits current flow calls found native ran

/-! ## All instructions -/

section Moves

variable (fits : c.Fits p.functions R root) (current : c.current.Fits p.functions R f)
  (flow : p.Flows f c.current instr after) (goes : instr.endsBlock = false)

include fits current flow goes

variable {low : List TypeId}

theorem fits_of_loading (left : after = type :: low) (below : List.Forall₂ R low rest)
    (fresh : ∀ w rest, c'.operands = w :: rest → R type w)
    (ran : loading c rest address width = .next c') : c'.Fits p.functions R root := by
  unfold loading at ran
  split at ran
  · cases ran
    subst left
    exact fits.goOn current flow goes (.cons (fresh _ _ rfl) below)
  · cases ran

theorem fits_of_storing (below : List.Forall₂ R after rest)
    (ran : storing c rest address width value = .next c') : c'.Fits p.functions R root := by
  unfold storing at ran
  split at ran
  · cases ran
    exact fits.goOn current flow goes below
  · cases ran

theorem fits_of_allocating (left : after = type :: low) (below : List.Forall₂ R low rest)
    {act : EStateM Heap.AllocationError Heap.Collector UInt64}
    (fresh : ∀ w rest, c'.operands = w :: rest → R type w) (ran : allocating c rest act
      = .next c') :
    c'.Fits p.functions R root := by
  unfold allocating at ran
  split at ran
  · cases ran
    subst left
    exact fits.goOn current flow goes (.cons (fresh _ _ rfl) below)
  · cases ran

end Moves

variable {w : World}

theorem onObject_eq_next {object : UInt64} {use : Machine.NullUse} {k : Outcome UInt64}
    (ran : Words.onObject w object use k = .next c') : object ≠ 0 ∧ k = .next c' := by
  unfold Words.onObject at ran
  split at ran
  · cases ran
  · exact ⟨‹_›, ran⟩

theorem onWidth_eq_next {width? : Option Target.Width} {k : Target.Width → Outcome UInt64}
    (ran : perform.onWidth width? k = .next c') :
    ∃ width, width? = some width ∧ k width = .next c' := by
  unfold perform.onWidth at ran
  split at ran
  · exact ⟨_, rfl, ran⟩
  · cases ran

theorem onElement_eq_next {array : UInt64} {index : Int32} {k : UInt64 → Outcome UInt64}
    (ran : onElement w array index width k = .next c') :
    ∃ length, Words.load? w array .dword = some length ∧ 0 ≤ index ∧ index < toInt length ∧
      k (array + UInt64.ofNat Heap.lengthSize
        + index.toInt64.toUInt64 * UInt64.ofNat width.bytes) = .next c' := by
  unfold onElement at ran
  split at ran
  · cases ran
  · rename_i length read
    split at ran
    · cases ran
    · rename_i inside
      rw [not_or, Int32.not_lt, Int32.not_le] at inside
      exact ⟨length, read, inside.1, inside.2, ran⟩

theorem forall₂_getElem? {types : List TypeId} (all : List.Forall₂ R types values)
    (here : types[n]? = some type) : ∃ w, values[n]? = some w ∧ R type w := by
  obtain ⟨bound, same⟩ := List.getElem?_eq_some_iff.mp here
  have bound' : n < values.length := all.length_eq ▸ bound
  refine ⟨values[n], List.getElem?_eq_getElem bound', ?_⟩
  rw [← same]
  exact all.get bound bound'

/-- What a load pushes, by its width. -/
theorem loading_eq_next (ran : loading c rest address width = .next c') :
    ∃ word, c'.operands = Machine.extend width word :: rest := by
  unfold loading at ran
  split at ran
  · rename_i value loaded
    cases ran
    obtain ⟨word, _, rfl⟩ := Option.map_eq_some_iff.mp loaded
    exact ⟨word, rfl⟩
  · cases ran

section Kinds

variable {s : Compile.Source}

theorem numericKind_int (wf : s.types.WellFormed) : s.numericKind (some .int) = .int := by
  unfold Compile.Source.numericKind Compile.Source.isFloat
  rw [Option.bind_some, show s.types.shape? .int = _ from wf.primitive .int]
  rfl

theorem numericKind_float (wf : s.types.WellFormed) : s.numericKind (some .float) = .float := by
  unfold Compile.Source.numericKind Compile.Source.isFloat
  rw [Option.bind_some, show s.types.shape? .float = _ from wf.primitive .float]
  rfl

end Kinds

/-- An instruction leads from activations that fit to activations that fit. -/
theorem fits_of_perform (ready : p.Runnable) (admits : Admits R)
    (fits : c.Fits p.functions R root) (found : p.functions.get? c.current.function = some f)
    (flow : p.Flows f c.current instr after)
    (fresh : instr.takesFromHeap = true → ∀ type low w rest, after = type :: low →
      c'.operands = w :: rest → R type w)
    (ran : perform p.types p.functions f c instr = .next c') : c'.Fits p.functions R root := by
  have current := fits.current_of_found found
  have operands := current.operands
  have effect := flow.effect
  dsimp only at effect
  generalize before : f.operandTypes c.current.index = stack at effect operands
  cases effect with
  | nop =>
    cases ran
    exact fits.goOn current flow rfl operands
  | pop =>
    obtain ⟨w, rest, top, _, below⟩ := operands_one operands
    cases (pop1_eq top _).symm.trans ran
    exact fits.goOn current flow rfl below
  | dup =>
    obtain ⟨w, rest, top, good, below⟩ := operands_one operands
    cases (pop1_eq top _).symm.trans ran
    exact fits.goOn current flow rfl (.cons good (.cons good below))
  | loadInt =>
    cases ran
    exact fits.goOn current flow rfl (.cons (admits.int _) operands)
  | loadFloat =>
    cases ran
    exact fits.goOn current flow rfl (.cons (admits.float _) operands)
  | loadBool =>
    cases ran
    exact fits.goOn current flow rfl (.cons (admits.bool _) operands)
  | loadNull =>
    cases ran
    exact fits.goOn current flow rfl (.cons (admits.null _) operands)
  | @loadLocal n type stack here =>
    obtain ⟨w, value, good⟩ := forall₂_getElem? current.locals here
    unfold perform at ran
    dsimp only at ran
    rw [value] at ran
    cases ran
    exact fits.goOn current flow rfl (.cons good operands)
  | @loadArgument n type stack here =>
    obtain ⟨w, value, good⟩ := forall₂_getElem? current.arguments here
    unfold perform at ran
    dsimp only at ran
    rw [value] at ran
    cases ran
    exact fits.goOn current flow rfl (.cons good operands)
  | @storeLocal n type stack here =>
    obtain ⟨w, rest, top, good, below⟩ := operands_one operands
    cases (pop1_eq top _).symm.trans ran
    have kept := fits.setLocal current here good
    exact kept.goOn (kept.current_of_found found) flow rfl below
  | @arith op type stack numeric =>
    obtain ⟨b, a, rest, top, _, _, below⟩ := operands_two operands
    have ran := (pop2_eq top _).symm.trans ran
    rw [before, List.head?_cons] at ran
    rcases Typing.Scope.eq_of_isNumeric ready.types numeric with rfl | rfl
    · rw [numericKind_int ready.types] at ran
      dsimp only at ran
      split at ran
      · cases ran
        exact fits.goOn current flow rfl (.cons (admits.int _) below)
      · cases ran
    · rw [numericKind_float ready.types] at ran
      cases ran
      exact fits.goOn current flow rfl (.cons (admits.float _) below)
  | and | or | compare =>
    obtain ⟨b, a, rest, top, _, _, below⟩ := operands_two operands
    cases (pop2_eq top _).symm.trans ran
    exact fits.goOn current flow rfl (.cons (admits.bool _) below)
  | not =>
    obtain ⟨a, rest, top, _, below⟩ := operands_one operands
    cases (pop1_eq top _).symm.trans ran
    exact fits.goOn current flow rfl (.cons (admits.bool _) below)
  | intToFloat =>
    obtain ⟨a, rest, top, _, below⟩ := operands_one operands
    cases (pop1_eq top _).symm.trans ran
    exact fits.goOn current flow rfl (.cons (admits.float _) below)
  | floatToInt =>
    obtain ⟨a, rest, top, _, below⟩ := operands_one operands
    cases (pop1_eq top _).symm.trans ran
    exact fits.goOn current flow rfl (.cons (admits.int _) below)
  | @branch target stack =>
    cases ran
    obtain ⟨reachable, types⟩ := flow.target target rfl
    have types : f.operandTypes target = _ := types
    exact fits.goto current reachable (types ▸ operands)
  | @branchIf condition target type stack =>
    obtain ⟨b, a, rest, top, _, _, below⟩ := operands_two operands
    have ran := (pop2_eq top _).symm.trans ran
    split at ran
    · cases ran
      obtain ⟨reachable, types⟩ := flow.target target rfl
      have types : f.operandTypes target = _ := types
      exact fits.goto current reachable (types ▸ below)
    · cases ran
      exact fits.goOn current flow rfl below
  | call | callInstance => exact fits_of_call ready admits fits current flow rfl ran
  | ret => exact fits_of_ret ready fits current flow ran
  | newObject =>
    exact fits_of_allocating fits current flow rfl rfl operands
      (fun w rest top => fresh rfl _ _ w rest rfl top) ran
  | newArray =>
    obtain ⟨a, rest, top, _, below⟩ := operands_one operands
    have ran := (pop1_eq top _).symm.trans ran
    split at ran
    · cases ran
    · exact fits_of_allocating fits current flow rfl rfl below
        (fun w rest top => fresh rfl _ _ w rest rfl top) ran
  | arrayLength =>
    obtain ⟨a, rest, top, _, below⟩ := operands_one operands
    obtain ⟨_, ran⟩ := onObject_eq_next ((pop1_eq top _).symm.trans ran)
    refine fits_of_loading fits current flow rfl rfl below (fun w _ top => ?_) ran
    obtain ⟨word, pushed⟩ := loading_eq_next ran
    cases top.symm.trans pushed
    exact admits.int (toInt word)
  | loadElement =>
    obtain ⟨b, a, rest, top, _, _, below⟩ := operands_two operands
    obtain ⟨_, ran⟩ := onObject_eq_next ((pop2_eq top _).symm.trans ran)
    obtain ⟨_, _, ran⟩ := onWidth_eq_next ran
    obtain ⟨_, _, _, _, ran⟩ := onElement_eq_next ran
    exact fits_of_loading fits current flow rfl rfl below
      (fun w rest top => fresh rfl _ _ w rest rfl top) ran
  | storeElement =>
    obtain ⟨d, b, a, rest, top, _, _, _, below⟩ := operands_three operands
    obtain ⟨_, ran⟩ := onObject_eq_next ((pop3_eq top _).symm.trans ran)
    obtain ⟨_, _, ran⟩ := onWidth_eq_next ran
    obtain ⟨_, _, _, _, ran⟩ := onElement_eq_next ran
    exact fits_of_storing fits current flow rfl below ran
  | loadField =>
    obtain ⟨a, rest, top, _, below⟩ := operands_one operands
    obtain ⟨_, ran⟩ := onObject_eq_next ((pop1_eq top _).symm.trans ran)
    obtain ⟨_, _, ran⟩ := onWidth_eq_next ran
    exact fits_of_loading fits current flow rfl rfl below
      (fun w rest top => fresh rfl _ _ w rest rfl top) ran
  | storeField =>
    obtain ⟨b, a, rest, top, _, _, below⟩ := operands_two operands
    obtain ⟨_, ran⟩ := onObject_eq_next ((pop2_eq top _).symm.trans ran)
    obtain ⟨_, _, ran⟩ := onWidth_eq_next ran
    exact fits_of_storing fits current flow rfl below ran

/-- Activations that fit are at an instruction of a checked body. -/
theorem step_eq_perform (ready : p.Runnable) (fits : c.Fits p.functions R root) :
    ∃ f instr after, p.functions.get? c.current.function = some f ∧
      p.Flows f c.current instr after ∧
      step p.types p.functions c = perform p.types p.functions f c instr := by
  obtain ⟨f, current⟩ := fits.current
  obtain ⟨k, code⟩ := ready.code current.found current.body
  obtain ⟨instr, after, flow⟩ := ready.flows code current.reachable
  refine ⟨f, instr, after, current.found, flow, ?_⟩
  have here : f.code[c.current.index]? = some instr := flow.code
  unfold step
  rw [current.found]
  dsimp only
  rw [here]

/-- A function that was just called from outside. -/
theorem fits_start (ready : p.Runnable) (admits : Admits R)
    (found : p.functions.get? root = some f) (body : f.HasBody) {arguments : List UInt64}
    (good : List.Forall₂ R f.definition.parameters arguments) (world : World) :
    (Words.start root f arguments world).Fits p.functions R root := by
  obtain ⟨reachable, none⟩ := Typing.entry_of_checked (ready.checked _ _ found body).body
  refine ⟨⟨f, found, body, reachable, good, forall₂_zeros admits f.locals, ?_⟩, rfl⟩
  show List.Forall₂ R (f.operandTypes 0) []
  rw [show f.operandTypes 0 = [] from none]
  exact .nil

end Step

/-! ## Runs -/

/-- Activations with as many values as the snapshots have types. -/
def Configuration.Shaped (functions : FunctionTable) (root : FunctionId)
    (c : Configuration UInt64) : Prop :=
  c.Fits functions (fun _ _ => True) root

/-- Any number of instructions lead from some activations to others. -/
def Words.Reaches (types : TypeTable) (functions : FunctionTable) :
    Configuration UInt64 → Configuration UInt64 → Prop :=
  Relation.ReflTransGen fun c c' => step types functions c = .next c'

theorem admits_true : Admits fun _ _ => True :=
  ⟨fun _ => trivial, fun _ => trivial, fun _ => trivial, fun _ => trivial⟩

theorem Configuration.Fits.shaped {functions : FunctionTable} {R : TypeId → UInt64 → Prop}
    (fits : c.Fits functions R root) : c.Shaped functions root :=
  fits.mono fun _ _ _ => trivial

theorem Configuration.Shaped.next {p : Program} {c' : Configuration UInt64} (ready : p.Runnable)
    (shaped : c.Shaped p.functions root) (ran : step p.types p.functions c = .next c') :
    c'.Shaped p.functions root := by
  obtain ⟨f, instr, after, found, flow, same⟩ := step_eq_perform ready shaped
  exact fits_of_perform ready admits_true shaped found flow (fun _ _ _ _ _ _ _ => trivial)
    (same ▸ ran)

theorem Words.Reaches.shaped {p : Program} {c' : Configuration UInt64}
    (reaches : Words.Reaches p.types p.functions c c') (ready : p.Runnable)
    (shaped : c.Shaped p.functions root) : c'.Shaped p.functions root := by
  induction reaches with
  | refl => exact shaped
  | tail _ ran ih => exact ih.next ready ran

end ManagedCode
