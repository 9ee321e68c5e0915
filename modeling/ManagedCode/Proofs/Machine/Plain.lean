import ManagedCode.Proofs.Machine.Addresses
import ManagedCode.Proofs.Machine.Instructions

/-!
# Instructions that neither call nor return

A machine that is where some activations are executes the machine instruction that the next
bytecode instruction was lowered to, and gets to where the bytecode instruction leads.

* `Grounds`, `Setting`: what holds of a program and its memory while it runs.
* `Here`: the innermost activation is at an instruction.
* `Here.leads_plain`: instructions that neither call nor return.
-/

namespace ManagedCode

open Bytecode TypeSystem
open Compile (CompiledFunction Piece Source codeLength)
open Machine (Stop toInt)
open Target (Op Width)

/-- What holds of a program and its memory while a function runs that was called from outside. -/
structure Grounds (x : Fixed) (root : FunctionId) (bottom : List UInt64) : Prop where
  ready : x.program.Runnable
  space : x.stackSize ≤ Memory.addressSpace
  table : x.callsBase.toNat < 2 ^ 63
  entered : ∃ f rest, x.program.functions.get? root = some f ∧
    bottom = Machine.haltAddress :: rest ∧ f.argumentCount ≤ rest.length

/-- The same of a program with short bodies on a stack that offsets of 32 bits can span, so that a
walk over the frames finds every slot. -/
structure Setting (x : Fixed) (root : FunctionId) (bottom : List UInt64) : Prop where
  ready : x.program.Ready
  small : x.stackSize ≤ 2 ^ 31
  table : x.callsBase.toNat < 2 ^ 63
  entered : ∃ f rest, x.program.functions.get? root = some f ∧
    bottom = Machine.haltAddress :: rest ∧ f.argumentCount ≤ rest.length

theorem Setting.grounds {x : Fixed} {root : FunctionId} {bottom : List UInt64}
    (setting : Setting x root bottom) : Grounds x root bottom :=
  ⟨setting.ready, Nat.le_trans setting.small (by decide), setting.table, setting.entered⟩

/-- What the snapshots say about the instruction that an activation is at. -/
abbrev Program.Flows (p : Program) (f : Function) (a : Activation UInt64) (instr : Instr)
    (after : OperandTypes) : Prop :=
  Typing.Flows ⟨p.types, p.functions, f⟩ a.index instr after

/-- The innermost activation is at an instruction, whose code is at an offset. -/
structure Here (x : Fixed) (c : Configuration UInt64) (f : Function) (k : CompiledFunction)
    (instr : Instr) (after : OperandTypes) (offset : Nat) (constant : UInt64)
    (pieces : List Piece) : Prop where
  code : x.program.Code c.current.function f k
  flow : Typing.Flows ⟨x.program.types, x.program.functions, f⟩ c.current.index instr after
  at_ : x.program.At c.current.function f k c.current.index instr offset constant pieces

section Operands

variable {R : TypeId → UInt64 → Prop} {s t u : TypeId} {types : List TypeId} {words : List UInt64}

theorem operands_one (fits : List.Forall₂ R (t :: types) words) :
    ∃ a rest, words = a :: rest ∧ R t a ∧ List.Forall₂ R types rest := by
  obtain ⟨a, rest, good, others, same⟩ := List.forall₂_cons_left_iff.mp fits
  exact ⟨a, rest, same, good, others⟩

theorem operands_two (fits : List.Forall₂ R (t :: s :: types) words) :
    ∃ b a rest, words = b :: a :: rest ∧ R t b ∧ R s a ∧ List.Forall₂ R types rest := by
  obtain ⟨b, later, rfl, good, others⟩ := operands_one fits
  obtain ⟨a, rest, rfl, good', others⟩ := operands_one others
  exact ⟨b, a, rest, rfl, good, good', others⟩

theorem operands_three (fits : List.Forall₂ R (t :: s :: u :: types) words) :
    ∃ d b a rest, words = d :: b :: a :: rest ∧ R t d ∧ R s b ∧ R u a ∧
      List.Forall₂ R types rest := by
  obtain ⟨d, later, rfl, good, others⟩ := operands_one fits
  obtain ⟨b, a, rest, rfl, good', good'', others⟩ := operands_two others
  exact ⟨d, b, a, rest, rfl, good, good', good'', others⟩

/-- What a function returns is its operand. -/
theorem Activation.Fits.returned {functions : FunctionTable} {a : Activation UInt64} {f : Function}
    {table : TypeTable} {after : OperandTypes} (fits : a.Fits functions R f)
    (flow : Typing.Flows ⟨table, functions, f⟩ a.index .ret after)
    (some_ : f.definition.returnType ≠ .void) :
    ∃ w rest, a.operands = w :: rest ∧ R f.definition.returnType w := by
  obtain ⟨stack, effect, operands⟩ := fits.effect flow
  cases effect
  have results : Typing.resultTypes f.definition = [f.definition.returnType] := if_neg some_
  rw [results] at operands
  obtain ⟨w, rest, top, good, _⟩ := operands_one operands
  exact ⟨w, rest, top, good⟩

end Operands

/-! ## Instructions of one piece -/

theorem Compile.CompiledFunction.address_add (k : CompiledFunction) (offset n : Nat) :
    k.address offset + UInt64.ofNat n = k.address (offset + n) := by
  unfold CompiledFunction.address
  rw [UInt64.ofNat_add, UInt64.add_assoc]

variable {p : Program}

theorem Program.Lies.done {k : CompiledFunction} {offset : Nat} {op : Op} {rest : List Piece}
    (lies : p.Lies k offset (.done op :: rest)) :
    p.OpAt (k.address offset) op ∧ p.Lies k (offset + op.length) rest := by
  obtain ⟨⟨op', resolves, here⟩, later⟩ := lies
  refine ⟨?_, later⟩
  cases resolves with
  | done => exact here
  | branch fixup | self fixup | call fixup => cases fixup

theorem Program.Lies.branch {k : CompiledFunction} {offset target : Nat} {op : Op}
    (lies : p.Lies k offset [⟨op, .branch target⟩]) :
    ∃ there d, p.OpAt (k.address offset) (Compile.withDistance op d) ∧
      k.offsets[target]? = some there ∧
      Machine.displace (k.address (offset + op.length)) d = k.address there := by
  obtain ⟨⟨op', resolves, here⟩, _⟩ := lies
  cases resolves with
  | done fixup | self fixup | call fixup => cases fixup
  | branch fixup there leads =>
    cases fixup
    exact ⟨_, _, here, there, leads⟩

/-- A machine comes to what an outcome says, and shows some views on the way. -/
def LeadsTo (x : Fixed) (bottom : List UInt64) (inner : View → Prop) (outcome : Outcome UInt64)
    (m : Machine Vm) : Prop :=
  Leads x inner (outcome.Shown x bottom) (outcome.Stops x) m

section Single

variable {x : Fixed} {root : FunctionId} {bottom : List UInt64} {c : Configuration UInt64}
  {f : Function} {k : CompiledFunction} {instr : Instr} {after : OperandTypes} {offset : Nat}
  {constant result : UInt64} {pieces : List Piece} {m : Machine Vm} {inner : View → Prop}
  {outcome : Outcome UInt64} {op : Op}

theorem leads_single (ready : x.program.Runnable) (here : x.program.OpAt (k.address offset) op)
    (agrees : Agrees x bottom (c.showing x bottom (k.address (offset + op.length)) result c.operands)
      (Machine.execute (k.address (offset + op.length)) op) outcome)
    (shows_ : Shows x (c.view x bottom (k.address offset) result) m) :
    LeadsTo x bottom inner outcome m := by
  rw [← k.address_add, ← view_eq] at agrees
  exact leads_last (v := c.view x bottom (k.address offset) result) ready here agrees shows_

section

variable (here : Here x c f k instr after offset constant pieces)

include here

/-- The code of the next instruction follows. -/
theorem Here.go (goes : instr.endsBlock = false) :
    x.program.addressOf? c.current.function (c.current.index + 1)
      = some (k.address (offset + codeLength pieces)) :=
  here.at_.address_next here.code (here.flow.next goes).1

/-- An instruction that is lowered to one complete piece. -/
theorem Here.leads_done (ready : x.program.Runnable) (goes : instr.endsBlock = false)
    (lowered : (x.program.source c.current.function f).lower c.current.index constant instr
      = .ok [.done op])
    (performed : Words.perform x.program.types x.program.functions f c instr = outcome)
    (agrees : ∀ next, x.program.addressOf? c.current.function (c.current.index + 1) = some next →
      Agrees x bottom (c.showing x bottom next result c.operands) (Machine.execute next op) outcome)
    (shows_ : Shows x (c.view x bottom (k.address offset) result) m) :
    LeadsTo x bottom inner (Words.perform x.program.types x.program.functions f c instr) m := by
  cases here.at_.lowered.symm.trans lowered
  rw [performed]
  exact leads_single ready here.at_.lies.done.1 (agrees _ (here.go goes)) shows_

end

variable {R : TypeId → UInt64 → Prop}

variable {width : Width}

variable {s : Source} {type : TypeId}

theorem width_eq_ok (found : s.width type = .ok width) :
    Width.ofSize? (s.types.size type) = some width := by
  unfold Source.width at found
  split at found
  · rename_i same
    cases found
    exact same
  · cases found

theorem elementWidth_eq_ok (found : s.elementWidth type = .ok width) :
    (s.types.element? type).bind (Width.ofSize? <| s.types.size ·) = some width := by
  unfold Source.elementWidth at found
  split at found
  · rename_i element array
    rw [array]
    exact width_eq_ok found
  · cases found

theorem onWidth_eq {width? : Option Width} (found : width? = some width)
    (next : Width → Outcome UInt64) : Words.perform.onWidth width? next = next width := by
  rw [found]
  rfl

/-- Instructions that neither call nor return. -/
theorem Here.leads_plain (here : Here x c f k instr after offset constant pieces)
    (grounds : Grounds x root bottom) (fits : c.current.Fits x.program.functions R f)
    (calls : instr.callee? = none) (some : instr ≠ .nop) (stays : instr ≠ .ret)
    (shows_ : Shows x (c.view x bottom (k.address offset) result) m) :
    LeadsTo x bottom inner (Words.perform x.program.types x.program.functions f c instr) m := by
  have ready := grounds.ready
  obtain ⟨stack, effect, operands⟩ := fits.effect here.flow
  have fewArguments := here.code.arguments
  have fewLocals := here.code.locals
  have arguments : f.argumentCount = c.current.arguments.length := fits.arguments.length_eq
  have locals : f.locals.length = c.current.locals.length := fits.locals.length_eq
  cases effect with
  | nop => exact absurd rfl some
  | call | callInstance => cases calls
  | ret => exact absurd rfl stays
  | pop =>
    obtain ⟨w, rest, top, _⟩ := operands_one operands
    exact here.leads_done ready rfl rfl (pop1_eq top _) (fun _ go => agrees_pop go top) shows_
  | dup =>
    obtain ⟨w, rest, top, _⟩ := operands_one operands
    exact here.leads_done ready rfl rfl (pop1_eq top _) (fun _ go => agrees_dup go top) shows_
  | loadInt | loadBool | loadNull =>
    exact here.leads_done ready rfl rfl rfl (fun _ go => agrees_push go _) shows_
  | loadFloat =>
    have readable := here.at_.readable _ rfl
    exact here.leads_done ready rfl rfl rfl (fun _ go => agrees_pushConst go readable) shows_
  | and | or | compare ordered some =>
    obtain ⟨b, a, rest, top, _⟩ := operands_two operands
    exact here.leads_done ready rfl rfl (pop2_eq top _) (fun _ go => agrees_binary go _ top) shows_
  | not | intToFloat | floatToInt =>
    obtain ⟨a, rest, top, _⟩ := operands_one operands
    exact here.leads_done ready rfl rfl (pop1_eq top _) (fun _ go => agrees_unary go _ top) shows_
  | arith numeric =>
    obtain ⟨b, a, rest, top, _⟩ := operands_two operands
    exact here.leads_done ready rfl rfl rfl (fun _ go => agrees_arith go _ _ _ top) shows_
  | newObject object =>
    exact here.leads_done ready rfl rfl rfl (fun _ go => agrees_newObject go) shows_
  | newArray array =>
    obtain ⟨a, rest, top, _⟩ := operands_one operands
    exact here.leads_done ready rfl rfl (pop1_eq top _) (fun _ go => agrees_newArray go top) shows_
  | arrayLength array =>
    obtain ⟨a, rest, top, _⟩ := operands_one operands
    exact here.leads_done ready rfl rfl (pop1_eq top _) (fun _ go => agrees_arrayLength go top)
      shows_
  | @loadLocal n type stack found =>
    have bound := (List.getElem?_eq_some_iff.mp found).1
    rw [locals] at bound
    have value := List.getElem?_eq_getElem bound
    have near : 8 * (1 + (f.argumentCount + n.toNat)) ≤ 2 ^ 31 := by omega
    refine here.leads_done ready rfl rfl (by unfold Words.perform; dsimp only; rw [value])
      (fun _ go => agrees_loadSlot go near ?_) shows_
    show (c.current.arguments ++ c.current.locals)[f.argumentCount + n.toNat]? = _
    rw [arguments, List.getElem?_append_right (Nat.le_add_right _ _), Nat.add_sub_cancel_left]
    exact value
  | @loadArgument n type stack found =>
    have bound := (List.getElem?_eq_some_iff.mp found).1
    rw [fits.arguments.length_eq] at bound
    have value := List.getElem?_eq_getElem bound
    refine here.leads_done ready rfl rfl (by unfold Words.perform; dsimp only; rw [value])
      (fun _ go => agrees_loadSlot go (by omega) ?_) shows_
    rw [List.getElem?_append_left bound]
    exact value
  | @storeLocal n type stack found =>
    have bound := (List.getElem?_eq_some_iff.mp found).1
    rw [locals] at bound
    obtain ⟨w, rest, top, _⟩ := operands_one operands
    refine here.leads_done ready rfl rfl (pop1_eq top _) (fun _ go => ?_) shows_
    show Agrees x bottom _
      (Machine.execute _ (.storeSlot (Stack.below (f.argumentCount + n.toNat)))) _
    rw [arguments]
    exact agrees_storeLocal go (by omega) bound top
  | @branch target stack =>
    cases here.at_.lowered
    obtain ⟨there, d, opAt, placed, leads⟩ := here.at_.lies.branch
    have there' : x.program.addressOf? c.current.function target
        = Option.some (Machine.displace (k.address (offset + Op.length (.jump 0))) d) := by
      rw [here.code.addressOf?, placed, leads]
      rfl
    exact leads_single ready opAt (agrees_jump there') shows_
  | @branchIf condition target type stack ordered some =>
    cases here.at_.lowered
    obtain ⟨b, a, rest, top, _⟩ := operands_two operands
    obtain ⟨there, d, opAt, placed, leads⟩ := here.at_.lies.branch
    have there' : x.program.addressOf? c.current.function target
        = Option.some (Machine.displace (k.address (offset + Op.length (.jumpIf .int condition 0)))
          d) := by
      rw [here.code.addressOf?, placed]
      exact congrArg Option.some leads.symm
    unfold Words.perform
    dsimp only
    rw [pop2_eq top]
    exact leads_single ready opAt (agrees_jumpIf (here.go rfl) there' _ _ top) shows_
  | loadElement array =>
    obtain ⟨b, a, rest, top, _⟩ := operands_two operands
    obtain ⟨width, wide, _⟩ := except_bind_eq_ok_iff.mp here.at_.lowered
    have performed := onWidth_eq (elementWidth_eq_ok wide)
    exact here.leads_done ready rfl (by unfold Source.lower; dsimp only; rw [wide]; rfl)
      ((pop2_eq top _).trans (congrArg (Words.onObject c.world a .elementLoad) (performed _)))
      (fun _ go => agrees_loadElement go top) shows_
  | storeElement array =>
    obtain ⟨d, b, a, rest, top, _⟩ := operands_three operands
    obtain ⟨width, wide, _⟩ := except_bind_eq_ok_iff.mp here.at_.lowered
    have performed := onWidth_eq (elementWidth_eq_ok wide)
    exact here.leads_done ready rfl (by unfold Source.lower; dsimp only; rw [wide]; rfl)
      ((pop3_eq top _).trans (congrArg (Words.onObject c.world a .elementStore) (performed _)))
      (fun _ go => agrees_storeElement go top) shows_
  | loadField object found offset type =>
    obtain ⟨a, rest, top, _⟩ := operands_one operands
    obtain ⟨width, wide, _⟩ := except_bind_eq_ok_iff.mp here.at_.lowered
    have performed := onWidth_eq (width_eq_ok wide)
    exact here.leads_done ready rfl (by unfold Source.lower; dsimp only; rw [wide]; rfl)
      ((pop1_eq top _).trans (congrArg (Words.onObject c.world a .fieldLoad) (performed _)))
      (fun _ go => agrees_loadField go top) shows_
  | storeField object found offset type =>
    obtain ⟨b, a, rest, top, _⟩ := operands_two operands
    obtain ⟨width, wide, _⟩ := except_bind_eq_ok_iff.mp here.at_.lowered
    have performed := onWidth_eq (width_eq_ok wide)
    exact here.leads_done ready rfl (by unfold Source.lower; dsimp only; rw [wide]; rfl)
      ((pop2_eq top _).trans (congrArg (Words.onObject c.world a .fieldStore) (performed _)))
      (fun _ go => agrees_storeField go top) shows_

end Single

end ManagedCode
