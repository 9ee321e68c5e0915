import ManagedCode.Bytecode.Function

/-!
# Machine instructions

The instruction set that bodies are compiled to. The machine has a stack of 64-bit slots that
grows downward, a base register for the current frame and one result register. Jump and
relative call distances count from the end of the instruction.
-/

namespace ManagedCode.Target

open Bytecode (Condition ArithOp Native)

/-- How arithmetic reads its operands. -/
inductive NumericKind where
  | int
  | float
  deriving DecidableEq, Repr

namespace NumericKind

def suffix : NumericKind → String
  | int => "i32"
  | float => "f32"

def toByte : NumericKind → UInt8
  | int => 0
  | float => 1

def ofByte? (b : UInt8) : Option NumericKind :=
  match b with
  | 0 => some int
  | 1 => some float
  | _ => none

end NumericKind

/-- How a comparison reads its operands. -/
inductive CompareKind where
  /-- The lower half as a signed integer. -/
  | int
  /-- The lower half as a single-precision number. -/
  | float
  /-- The whole word as an address. -/
  | reference
  deriving DecidableEq, Repr

namespace CompareKind

def label : CompareKind → String
  | int => "Int"
  | float => "Float"
  | reference => "Reference"

def toByte : CompareKind → UInt8
  | int => 0
  | float => 1
  | reference => 2

def ofByte? (b : UInt8) : Option CompareKind :=
  match b with
  | 0 => some int
  | 1 => some float
  | 2 => some reference
  | _ => none

end CompareKind

/-- How many bytes a heap access moves. A byte is zero-extended into a slot and four bytes are
sign-extended. -/
inductive Width where
  | byte
  | dword
  | qword
  deriving DecidableEq, Repr

namespace Width

def label : Width → String
  | byte => "Byte"
  | dword => "Dword"
  | qword => "Qword"

def bytes : Width → Nat
  | byte => 1
  | dword => 4
  | qword => 8

/-- The width that moves values of the given size. -/
def ofSize? (size : Nat) : Option Width :=
  match size with
  | 1 => some byte
  | 4 => some dword
  | 8 => some qword
  | _ => none

def toByte (w : Width) : UInt8 := UInt8.ofNat w.bytes

def ofByte? (b : UInt8) : Option Width := ofSize? b.toNat

end Width

def arithByte : ArithOp → UInt8
  | .add => 0
  | .sub => 1
  | .mul => 2
  | .div => 3

def arithOfByte? (b : UInt8) : Option ArithOp :=
  match b with
  | 0 => some .add
  | 1 => some .sub
  | 2 => some .mul
  | 3 => some .div
  | _ => none

inductive Op where
  /-- Save the base register, set it to the stack top, copy the arguments and zero the
  locals. -/
  | enter (arguments locals : UInt16)
  /-- Drop the frame and restore the base register. -/
  | leave
  /-- Return and drop the arguments that the caller pushed. -/
  | ret (slots : UInt16)
  | pushImm (value : UInt64)
  /-- Push the constant at an address. -/
  | pushConst (address : UInt64)
  /-- Push the slot at a distance from the base register. -/
  | loadSlot (distance : Int32)
  | storeSlot (distance : Int32)
  | pop
  | dup
  | pushResult
  | popResult
  | arith (kind : NumericKind) (op : ArithOp)
  | and
  | or
  | not
  | intToFloat
  | floatToInt
  | compare (kind : CompareKind) (condition : Condition)
  | jump (distance : Int32)
  | jumpIf (kind : CompareKind) (condition : Condition) (distance : Int32)
  | callRelative (distance : Int32)
  | callAbsolute (address : UInt64)
  /-- Trap if the slot `depth` below the top is null. -/
  | nullCheck (depth : UInt16)
  | newObject (type : UInt32)
  | newArray (type : UInt32)
  | loadField (width : Width) (offset : UInt32)
  | storeField (width : Width) (offset : UInt32)
  | loadElement (width : Width)
  | storeElement (width : Width)
  | arrayLength
  /-- Record a call made by a function at an instruction. -/
  | pushFrame (function : UInt64) (instruction : UInt32)
  | popFrame
  | collect (function : UInt64) (instruction : UInt32)
  | printCallStack (function : UInt64) (instruction : UInt32)
  deriving DecidableEq, Repr, Inhabited

namespace Op

def slotText (distance : Int32) : String :=
  let d := distance.toInt
  if d < 0 then s!"[rbp-{-d}]" else s!"[rbp+{d}]"

def siteText (function : UInt64) (instruction : UInt32) : String :=
  s!"fn:{Text.hexWord function}, {instruction}"

def text : Op → String
  | enter arguments locals => s!"enter {arguments}, {locals}"
  | leave => "leave"
  | ret slots => s!"ret {slots.toNat * 8}"
  | pushImm value => s!"push {value.toInt64.toInt}"
  | pushConst address => s!"push dword [{Text.hexWord address}]"
  | loadSlot distance => "push qword " ++ slotText distance
  | storeSlot distance => "pop qword " ++ slotText distance
  | pop => "add rsp, 8"
  | dup => "push qword [rsp]"
  | pushResult => "push rax"
  | popResult => "pop rax"
  | arith kind op => s!"{op.name}.{kind.suffix}"
  | and => "and"
  | or => "or"
  | not => "not"
  | intToFloat => "cvtsi2ss"
  | floatToInt => "cvttss2si"
  | compare kind condition => s!"set{condition.suffix}.{kind.label}"
  | jump distance => "jmp " ++ Text.signed distance.toInt
  | jumpIf kind condition distance =>
      s!"j{condition.suffix}.{kind.label} " ++ Text.signed distance.toInt
  | callRelative distance => "call " ++ Text.signed distance.toInt
  | callAbsolute address =>
      match Native.atAddress? address with
      | some routine => s!"call {Text.hexWord address} <{routine.name}>"
      | none => s!"call {Text.hexWord address}"
  | nullCheck depth => s!"nullcheck [rsp+{depth.toNat * 8}]"
  | newObject type => s!"call CreateClass #{type}"
  | newArray type => s!"call CreateArray #{type}"
  | loadField width offset => s!"ldfld.{width.label} +{offset}"
  | storeField width offset => s!"stfld.{width.label} +{offset}"
  | loadElement width => s!"ldelem.{width.label}"
  | storeElement width => s!"stelem.{width.label}"
  | arrayLength => "ldlen"
  | pushFrame function instruction => "pushframe " ++ siteText function instruction
  | popFrame => "popframe"
  | collect function instruction => "call GarbageCollect " ++ siteText function instruction
  | printCallStack function instruction => "call PrintCallStack " ++ siteText function instruction

end Op

end ManagedCode.Target
