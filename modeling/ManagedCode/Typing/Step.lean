import ManagedCode.Bytecode.Function
import ManagedCode.Typing.Error

/-!
# What an instruction does to the operand types

`step` gives the operand types after an instruction from those before it, or the cause why the
instruction cannot be executed there. It looks at the types only; where control goes next is
the matter of `ManagedCode.Typing.Snapshot`.
-/

namespace ManagedCode.Typing

open Bytecode TypeSystem

/-- What the instructions of a body refer to. -/
structure Scope where
  types : TypeTable
  functions : FunctionTable
  function : Function

namespace Scope

def resolve (s : Scope) (id : TypeId) : Except Cause Shape :=
  match s.types.shape? id with
  | some shape => .ok shape
  | none => .error (.unresolvedType id.raw)

/-- Fails on the first of the types that does not exist. -/
def resolveAll (s : Scope) (ids : List TypeId) : Except Cause Unit :=
  ids.forM fun id => discard (s.resolve id)

def callee (s : Scope) (id : FunctionId) : Except Cause Definition :=
  match s.functions.get? id with
  | some f => .ok f.definition
  | none => .error .unresolvedFunction

def unsupported (s : Scope) (id : TypeId) : Cause :=
  .unsupportedOperand (s.types.name id)

/-- The names of operand types, deepest first. -/
def names (s : Scope) (stack : OperandTypes) : List String :=
  stack.reverse.map s.types.name

def expect (s : Scope) (expected found : TypeId) : Except Cause Unit :=
  if expected = found then .ok ()
  else .error (.typeMismatch (s.types.name expected) (s.types.name found))

/-- Whether arithmetic and ordering are defined on a type. -/
def isNumeric (s : Scope) (id : TypeId) : Bool :=
  match s.types.shape? id with
  | some (.primitive .int) => true
  | some (.primitive .float) => true
  | _ => false

/-- The element type of a type that must be an array. -/
def element (s : Scope) (array : TypeId) : Except Cause TypeId := do
  discard (s.resolve array)
  match s.types.element? array with
  | some element => .ok element
  | none => .error (s.unsupported array)

/-- Checks that a field operand agrees with the layout of its class. -/
def checkField (s : Scope) (r : FieldRef) : Except Cause Unit :=
  let field? := (s.types.layout? r.owner).bind (·.fields[r.index]?)
  let matching := field?.filter fun f => f.offset == r.offset.toNat && f.type == r.type
  if matching.isSome then .ok ()
  else
    let owner := ((s.types.entryOf? r.owner).map TypeEntry.name).getD ""
    .error (.unresolvedField owner r.index)

/-- Whether a definition can be called on an object. -/
def isInstanceMethod (d : Definition) : Bool :=
  d.owner.isSome && d.parameters.head? == d.owner

end Scope

def pop : OperandTypes → Except Cause (TypeId × OperandTypes)
  | top :: rest => .ok (top, rest)
  | [] => .error .stackUnderflow

def popExpect (s : Scope) (expected : TypeId) (stack : OperandTypes) :
    Except Cause OperandTypes := do
  let (found, rest) ← pop stack
  s.expect expected found
  return rest

/-- Takes operands off the stack, the type of the top one first. -/
def popAll (s : Scope) : List TypeId → OperandTypes → Except Cause OperandTypes
  | [], stack => .ok stack
  | expected :: more, stack => do popAll s more (← popExpect s expected stack)

/-- Takes two operands of one type off the stack and returns that type. -/
def popPair (s : Scope) (stack : OperandTypes) : Except Cause (TypeId × OperandTypes) := do
  let (right, stack) ← pop stack
  let (left, stack) ← pop stack
  s.expect left right
  return (left, stack)

/-- Takes the arguments of a call off the stack and leaves its result. -/
def applyCall (s : Scope) (d : Definition) (stack : OperandTypes) :
    Except Cause OperandTypes := do
  s.resolveAll (d.parameters ++ [d.returnType])
  let stack ← popAll s d.parameters.reverse stack
  return if d.returnType = .void then stack else d.returnType :: stack

/-- The operand types of a comparison; order needs numbers, equality any value. -/
def popCompared (s : Scope) (c : Condition) (stack : OperandTypes) :
    Except Cause OperandTypes := do
  let (type, stack) ← popPair s stack
  if (c.isOrdering && !s.isNumeric type) || type = .void then throw (s.unsupported type)
  return stack

/-- The operand types after an instruction. -/
def step (s : Scope) (i : Instr) (stack : OperandTypes) : Except Cause OperandTypes := do
  match i with
  | .nop => return stack
  | .pop => return (← pop stack).2
  | .dup =>
      let (top, rest) ← pop stack
      return top :: top :: rest
  | .loadInt _ => return .int :: stack
  | .loadFloat _ => return .float :: stack
  | .loadBool _ => return .bool :: stack
  | .loadNull type =>
      if (← s.resolve type).isReference then return type :: stack
      else throw (s.unsupported type)
  | .loadLocal n =>
      match s.function.locals[n.toNat]? with
      | some type => return type :: stack
      | none => throw (.badLocal n)
  | .storeLocal n =>
      match s.function.locals[n.toNat]? with
      | some type => popExpect s type stack
      | none => throw (.badLocal n)
  | .loadArgument n =>
      match s.function.definition.parameters[n.toNat]? with
      | some type => return type :: stack
      | none => throw (.badArgument n)
  | .arith _ =>
      let (type, rest) ← popPair s stack
      if s.isNumeric type then return type :: rest else throw (s.unsupported type)
  | .and | .or =>
      let (type, rest) ← popPair s stack
      s.expect .bool type
      return type :: rest
  | .not => return .bool :: (← popExpect s .bool stack)
  | .intToFloat => return .float :: (← popExpect s .int stack)
  | .floatToInt => return .int :: (← popExpect s .float stack)
  | .compare c => return .bool :: (← popCompared s c stack)
  | .branch _ => return stack
  | .branchIf c _ => popCompared s c stack
  | .call f => applyCall s (← s.callee f) stack
  | .callInstance f =>
      let d ← s.callee f
      if Scope.isInstanceMethod d then applyCall s d stack else throw .notAnInstanceMethod
  | .ret =>
      let type := s.function.definition.returnType
      if type = .void then return stack else popExpect s type stack
  | .newArray type =>
      discard (s.element type)
      return type :: (← popExpect s .int stack)
  | .loadElement type =>
      let element ← s.element type
      return element :: (← popAll s [.int, type] stack)
  | .storeElement type =>
      let element ← s.element type
      popAll s [element, .int, type] stack
  | .arrayLength =>
      let (type, rest) ← pop stack
      match ← s.resolve type with
      | .array _ => return .int :: rest
      | _ => throw (s.unsupported type)
  | .newObject type =>
      if (s.types.layout? type).isSome then return type :: stack
      else throw (.unresolvedType type.raw)
  | .loadField r =>
      s.checkField r
      return r.type :: (← popExpect s r.owner stack)
  | .storeField r =>
      s.checkField r
      popAll s [r.type, r.owner] stack

end ManagedCode.Typing
