import ManagedCode.Compile.Error
import ManagedCode.Stack.Layout

/-!
# From instructions to machine instructions

`Source.lower` gives the machine instructions of one bytecode instruction. Branch distances and
call targets are not known yet; a `Fixup` beside the machine instruction says what belongs there.
The operands of the bytecode stand in the stack slots below the locals in the same order, so that
the operand types known before an instruction describe the stack at its first machine
instruction.
-/

namespace ManagedCode.Compile

open Bytecode TypeSystem
open Target (Op Width NumericKind CompareKind)

/-- How a call names its target. -/
inductive CallMode where
  /-- By its address. -/
  | absolute
  /-- By its distance from the end of the call. -/
  | relative
  deriving DecidableEq, Repr

def CallMode.widthText : CallMode → String
  | absolute => "Abs64"
  | relative => "Rel32"

/-- What the open operand of a machine instruction stands for. -/
inductive Fixup where
  | none
  /-- The distance to the code of the instruction at this position. -/
  | branch (target : Nat)
  /-- The entry of a function. -/
  | call (callee : FunctionId) (mode : CallMode)
  deriving DecidableEq

/-- A machine instruction with what its open operand stands for. -/
structure Piece where
  op : Op
  fixup : Fixup

namespace Piece

/-- A machine instruction without an open operand. -/
def done (op : Op) : Piece := ⟨op, .none⟩

end Piece

/-- The function being compiled with what its instructions refer to. -/
structure Source where
  types : TypeTable
  functions : FunctionTable
  id : FunctionId
  function : Function

namespace Source

def signature (s : Source) : String := s.function.signature s.types

def isFloat (s : Source) (type? : Option TypeId) : Bool :=
  match type?.bind s.types.shape? with
  | some (.primitive .float) => true
  | _ => false

def numericKind (s : Source) (type? : Option TypeId) : NumericKind :=
  if s.isFloat type? then .float else .int

def compareKind (s : Source) (type? : Option TypeId) : CompareKind :=
  if (type?.map s.types.isReference).getD false then .reference
  else if s.isFloat type? then .float
  else .int

def width (s : Source) (type : TypeId) : Except CompileError Width :=
  match Width.ofSize? (s.types.size type) with
  | some w => .ok w
  | none => .error (.unsupportedWidth type.raw)

def elementWidth (s : Source) (array : TypeId) : Except CompileError Width :=
  match s.types.element? array with
  | some element => s.width element
  | none => .error (.unsupportedWidth array.raw)

/-- A count that must fit the operand of an instruction. -/
def small (s : Source) (count : Nat) : Except CompileError UInt16 :=
  if count < 65536 then .ok (UInt16.ofNat count) else .error (.frameTooLarge s.signature)

/-- A call of a function with a body: note the call, make it, drop the note, push the result. -/
def lowerManaged (s : Source) (index : Nat) (callee : FunctionId) (f : Function)
    (onObject : Bool) : Except CompileError (List Piece) := do
  let check ←
    if onObject then pure [Piece.done (.nullCheck (← s.small (f.argumentCount - 1)))] else pure []
  let call : Piece :=
    if callee = s.id then ⟨.callRelative 0, .call callee .relative⟩
    else ⟨.callAbsolute 0, .call callee .absolute⟩
  let result := if f.definition.returnType = .void then [] else [Piece.done .pushResult]
  return check ++ [.done (.pushFrame s.id.toBits (UInt32.ofNat index)), call, .done .popFrame]
    ++ result

/-- A call. Collections and call-stack listings have instructions of their own, which carry the
place of the call; the other runtime routines are called without a frame. -/
def lowerCall (s : Source) (index : Nat) (callee : FunctionId) (onObject : Bool) :
    Except CompileError (List Piece) :=
  match s.functions.get? callee with
  | none => .error (.unknownFunction callee)
  | some f =>
      match f.native? with
      | some .collect => .ok [.done (.collect s.id.toBits (UInt32.ofNat index))]
      | some .printCallStack => .ok [.done (.printCallStack s.id.toBits (UInt32.ofNat index))]
      | some _ => .ok [⟨.callAbsolute 0, .call callee .absolute⟩]
      | none => s.lowerManaged index callee f onObject

/-- The machine instructions of the instruction at a position; `constant` is the address of the
constant that it loads, if it loads one. -/
def lower (s : Source) (index : Nat) (constant : UInt64) (i : Instr) :
    Except CompileError (List Piece) := do
  let arguments := s.function.argumentCount
  let top := (s.function.operandTypes index).head?
  let one (op : Op) : Except CompileError (List Piece) := .ok [.done op]
  match i with
  | .nop => .ok []
  | .pop => one .pop
  | .dup => one .dup
  | .loadInt value => one (.pushImm value.toInt64.toUInt64)
  | .loadFloat _ => one (.pushConst constant)
  | .loadBool value => one (.pushImm value.toUInt64)
  | .loadNull _ => one (.pushImm 0)
  | .loadLocal n => one (.loadSlot (Stack.localOffset arguments n.toNat))
  | .storeLocal n => one (.storeSlot (Stack.localOffset arguments n.toNat))
  | .loadArgument n => one (.loadSlot (Stack.argumentOffset n.toNat))
  | .arith op => one (.arith (s.numericKind top) op)
  | .and => one .and
  | .or => one .or
  | .not => one .not
  | .intToFloat => one .intToFloat
  | .floatToInt => one .floatToInt
  | .compare c => one (.compare (s.compareKind top) c)
  | .branch target => .ok [⟨.jump 0, .branch target⟩]
  | .branchIf c target => .ok [⟨.jumpIf (s.compareKind top) c 0, .branch target⟩]
  | .call callee => s.lowerCall index callee false
  | .callInstance callee => s.lowerCall index callee true
  | .ret =>
      let result := if s.function.definition.returnType = .void then [] else [Piece.done .popResult]
      .ok (result ++ [.done .leave, .done (.ret (UInt16.ofNat arguments))])
  | .newArray type => one (.newArray type.raw)
  | .loadElement type => one (.loadElement (← s.elementWidth type))
  | .storeElement type => one (.storeElement (← s.elementWidth type))
  | .arrayLength => one .arrayLength
  | .newObject type => one (.newObject type.raw)
  | .loadField r => one (.loadField (← s.width r.type) r.offset)
  | .storeField r => one (.storeField (← s.width r.type) r.offset)

end Source

end ManagedCode.Compile
