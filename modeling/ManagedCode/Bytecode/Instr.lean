import ManagedCode.Bytecode.Condition
import ManagedCode.Handle
import ManagedCode.Text.Hex
import ManagedCode.TypeSystem.Table

/-!
# Bytecode instructions

The instructions of function bodies, which work on a stack of operands. Branch targets are
positions in the body. Each instruction has a mnemonic and a text; `Instr.ofMnemonic?` and its
siblings read an instruction from its mnemonic and an operand.
-/

namespace ManagedCode.Bytecode

open Number (Single)
open TypeSystem (TypeId FieldRef)

abbrev FunctionId := Handle

inductive ArithOp where
  | add
  | sub
  | mul
  | div
  deriving DecidableEq, Repr

def ArithOp.name : ArithOp → String
  | add => "add"
  | sub => "sub"
  | mul => "mul"
  | div => "div"

inductive Instr where
  | nop
  | pop
  | dup
  | loadInt (value : Int32)
  | loadFloat (value : Single)
  | loadBool (value : Bool)
  | loadNull (type : TypeId)
  | loadLocal (index : UInt16)
  | storeLocal (index : UInt16)
  | loadArgument (index : UInt16)
  | arith (op : ArithOp)
  | and
  | or
  | not
  | intToFloat
  | floatToInt
  | compare (condition : Condition)
  | branch (target : Nat)
  | branchIf (condition : Condition) (target : Nat)
  | call (callee : FunctionId)
  | callInstance (callee : FunctionId)
  | ret
  | newArray (type : TypeId)
  | loadElement (type : TypeId)
  | storeElement (type : TypeId)
  | arrayLength
  | newObject (type : TypeId)
  | loadField (field : FieldRef)
  | storeField (field : FieldRef)
  deriving DecidableEq, Inhabited

namespace Instr

def mnemonic : Instr → String
  | nop => "nop"
  | pop => "pop"
  | dup => "dup"
  | loadInt _ => "ldc.i4"
  | loadFloat _ => "ldc.r4"
  | loadBool true => "ldtrue"
  | loadBool false => "ldfalse"
  | loadNull _ => "ldnull"
  | loadLocal _ => "ldloc"
  | storeLocal _ => "stloc"
  | loadArgument _ => "ldarg"
  | arith op => op.name
  | and => "and"
  | or => "or"
  | not => "not"
  | intToFloat => "conv.r4"
  | floatToInt => "conv.i4"
  | compare c => "cmp" ++ c.suffix
  | branch _ => "br"
  | branchIf c _ => "b" ++ c.suffix
  | call _ => "call"
  | callInstance _ => "callinst"
  | ret => "ret"
  | newArray _ => "newarr"
  | loadElement _ => "ldelem"
  | storeElement _ => "stelem"
  | arrayLength => "ldlen"
  | newObject _ => "newobj"
  | loadField _ => "ldfield"
  | storeField _ => "stfield"

/-- Where control may go other than to the next instruction. -/
def target? : Instr → Option Nat
  | branch t => some t
  | branchIf _ t => some t
  | _ => none

def condition? : Instr → Option Condition
  | compare c => some c
  | branchIf c _ => some c
  | _ => none

/-- Whether control never goes to the next instruction. -/
def endsBlock : Instr → Bool
  | branch _ => true
  | ret => true
  | _ => false

def callee? : Instr → Option FunctionId
  | call f => some f
  | callInstance f => some f
  | _ => none

def withTarget (i : Instr) (target : Nat) : Instr :=
  match i with
  | branch _ => branch target
  | branchIf c _ => branchIf c target
  | other => other

def operandText? : Instr → Option String
  | loadInt v => some (toString v.toInt)
  | loadFloat v => some v.text
  | loadNull t | newArray t | loadElement t | storeElement t | newObject t => some s!"#{t.raw}"
  | loadLocal n | storeLocal n | loadArgument n => some (toString n)
  | branch t | branchIf _ t => some (Text.position t)
  | call f | callInstance f => some s!"fn#{f.index}"
  | loadField r | storeField r => some s!"#{r.owner.raw}[{r.index}]+{r.offset}"
  | _ => none

/-- The mnemonic, with the operand after it if there is one. -/
def text (i : Instr) : String :=
  match i.operandText? with
  | some operand => i.mnemonic ++ " " ++ operand
  | none => i.mnemonic

/-- The instructions without an operand. -/
def plain : List Instr :=
  [nop, pop, dup, loadBool true, loadBool false, arith .add, arith .sub, arith .mul, arith .div,
    and, or, not, intToFloat, floatToInt, ret, arrayLength] ++ Condition.all.map compare

/-- The instruction without an operand that has the given mnemonic. -/
def ofMnemonic? (mnemonic : String) : Option Instr :=
  plain.find? (·.mnemonic == mnemonic)

/-- Picks from instructions that share an operand the one with the given mnemonic. -/
def pick (mnemonic : String) (candidates : List Instr) : Option Instr :=
  candidates.find? (·.mnemonic == mnemonic)

def ofType? (mnemonic : String) (t : TypeId) : Option Instr :=
  pick mnemonic [loadNull t, newArray t, loadElement t, storeElement t, newObject t]

def ofSlot? (mnemonic : String) (n : UInt16) : Option Instr :=
  pick mnemonic [loadLocal n, storeLocal n, loadArgument n]

def ofTarget? (mnemonic : String) (target : Nat) : Option Instr :=
  pick mnemonic (branch target :: Condition.all.map (branchIf · target))

def ofCallee? (mnemonic : String) (f : FunctionId) : Option Instr :=
  pick mnemonic [call f, callInstance f]

def ofField? (mnemonic : String) (r : FieldRef) : Option Instr :=
  pick mnemonic [loadField r, storeField r]

end Instr

end ManagedCode.Bytecode
