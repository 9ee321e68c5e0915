import ManagedCode.Bytecode.Body

/-!
# Functions

A function has a definition (its name, its parameter and return types, its owning class) and
an implementation: none yet, a routine of the runtime, or a body, which after checking carries
the types of the operands before each instruction.
-/

namespace ManagedCode.Bytecode

open TypeSystem (TypeId TypeTable)

structure Definition where
  name : String
  parameters : List TypeId
  returnType : TypeId
  /-- The class that a method or a constructor belongs to. -/
  owner : Option TypeId
  constructor : Bool
  deriving DecidableEq

namespace Definition

def free (name : String) (parameters : List TypeId) (returnType : TypeId) : Definition :=
  ⟨name, parameters, returnType, none, false⟩

/-- A method takes the object it is called on first. -/
def method (owner : TypeId) (name : String) (parameters : List TypeId) (returnType : TypeId) :
    Definition :=
  ⟨name, owner :: parameters, returnType, some owner, false⟩

/-- A constructor is a method that returns nothing. -/
def constructorOf (owner : TypeId) (parameters : List TypeId) : Definition :=
  { method owner ".constructor" parameters .void with constructor := true }

def isMember (d : Definition) : Bool := d.owner.isSome

/-- The qualified name with the parameter types. Functions of a program differ in it. -/
def signature (d : Definition) (types : TypeTable) : String :=
  let parameters := " ".intercalate (d.parameters.map types.name)
  let qualifier :=
    match d.owner with
    | some owner => types.name owner ++ "::"
    | none => ""
  qualifier ++ d.name ++ "(" ++ parameters ++ ")"

end Definition

/-- The functions that the runtime supplies. -/
inductive Native where
  | collect
  | printCallStack
  | printInt
  | printFloat
  | printBool
  deriving DecidableEq, Repr

namespace Native

/-- All routines in order of their numbers. -/
def all : List Native :=
  [collect, printCallStack, printInt, printFloat, printBool]

def index : Native → Nat
  | collect => 0
  | printCallStack => 1
  | printInt => 2
  | printFloat => 3
  | printBool => 4

def ofIndex? (n : Nat) : Option Native := all[n]?

/-- The name of the routine itself. -/
def label : Native → String
  | collect => "GarbageCollect"
  | printCallStack => "PrintCallStack"
  | printInt => "PrintInt"
  | printFloat => "PrintFloat"
  | printBool => "PrintBool"

/-- The name that programs call the routine by. -/
def name : Native → String
  | collect => "std.gc.collect"
  | printCallStack => "std.print_call_stack"
  | printInt | printFloat | printBool => "std.println"

def parameters : Native → List TypeId
  | collect | printCallStack => []
  | printInt => [.int]
  | printFloat => [.float]
  | printBool => [.bool]

def arity (n : Native) : Nat := n.parameters.length

def definition (n : Native) : Definition :=
  .free n.name n.parameters .void

/-- The address that a call to the first routine names; the others follow `stride` apart. -/
def baseAddress : UInt64 := 0xFFFF800000000000

def addressStride : UInt64 := 16

def address (n : Native) : UInt64 :=
  baseAddress + UInt64.ofNat n.index * addressStride

/-- The routine that a call address stands for. -/
def atAddress? (address : UInt64) : Option Native :=
  let distance := address - baseAddress
  if baseAddress ≤ address ∧ distance % addressStride = 0 then
    ofIndex? (distance / addressStride).toNat
  else none

end Native

/-- The types on the operand stack, the top first. -/
abbrev OperandTypes := List TypeId

/-- The operand types before each instruction of a body; none where control never comes. -/
abbrev Snapshots := Array (Option OperandTypes)

inductive Implementation where
  | missing
  | native (routine : Native)
  | body (body : Body) (snapshots : Snapshots)

structure Function where
  definition : Definition
  implementation : Implementation

namespace Function

def declared (definition : Definition) : Function := ⟨definition, .missing⟩

def ofNative (routine : Native) : Function := ⟨routine.definition, .native routine⟩

def name (f : Function) : String := f.definition.name

def signature (f : Function) (types : TypeTable) : String := f.definition.signature types

def argumentCount (f : Function) : Nat := f.definition.parameters.length

def locals (f : Function) : List TypeId :=
  match f.implementation with
  | .body b _ => b.locals
  | _ => []

def code (f : Function) : Array Instr :=
  match f.implementation with
  | .body b _ => b.code
  | _ => #[]

def snapshots (f : Function) : Snapshots :=
  match f.implementation with
  | .body _ s => s
  | _ => #[]

def native? (f : Function) : Option Native :=
  match f.implementation with
  | .native routine => some routine
  | _ => none

def isNative (f : Function) : Bool := f.native?.isSome

def isDefined (f : Function) : Bool :=
  match f.implementation with
  | .missing => false
  | _ => true

/-- Whether the function can be called: the runtime has it, or its body has been checked. -/
def isVerified (f : Function) : Bool :=
  f.isNative || (!f.code.isEmpty && !f.snapshots.isEmpty)

/-- The operand types before an instruction, the top first; none are known where control
never comes. -/
def operandTypes (f : Function) (index : Nat) : OperandTypes :=
  ((f.snapshots[index]?).bind id).getD []

def isReachable (f : Function) (index : Nat) : Bool :=
  ((f.snapshots[index]?).bind id).isSome

/-- Supplies a body, which has not been checked yet. -/
def withBody (f : Function) (body : Body) : Function :=
  { f with implementation := .body body #[] }

def withSnapshots (f : Function) (snapshots : Snapshots) : Function :=
  match f.implementation with
  | .body b _ => { f with implementation := .body b snapshots }
  | _ => f

end Function

abbrev FunctionTable := SlotTable Function

end ManagedCode.Bytecode
