import ManagedCode.Compile.Listing
import ManagedCode.Typing.Snapshot
import ManagedCode.Vm.Error
import Std.Data.HashMap

/-!
# Virtual machines

A virtual machine holds the types and functions of one program, its compiled code, a heap, a
stack and the table of calls. A program is made up of declared and defined functions until
`Vm.load` checks, compiles and links them; from then on it can be run and no longer changed.
The runtime's own functions are there from the start.
-/

namespace ManagedCode

open Bytecode (Body Definition Function FunctionId FunctionTable Native)
open Compile (Image Listing)
open Stack (CallTable)
open Heap (Collector JournalOptions)
open Memory (Region)
open TypeSystem (TypeId TypeTable TypeError)
open Typing (verify)

structure Vm where
  settings : Settings
  types : TypeTable
  functions : FunctionTable
  signatures : Std.HashMap String FunctionId
  image : Image
  collector : Collector
  stack : Region
  calls : CallTable
  output : String
  main : Option FunctionId
  loaded : Bool

/-- What the settings ask the heap's journal to record. -/
def Settings.journal (s : Settings) : JournalOptions :=
  { logAllocation := s.logAllocation
    logDeallocation := s.logDeallocation
    printAllocation := s.printAllocation
    printDeallocation := s.printDeallocation }

namespace Vm

/-- Code pages have at least this size. -/
def codePageSize : Nat := 64 * 1024

def nativeFunctions : FunctionTable × Std.HashMap String FunctionId :=
  Native.all.foldl
    (fun (functions, signatures) routine =>
      let (id, functions) := functions.insert (.ofNative routine)
      (functions, signatures.insert (routine.definition.signature .primitives) id))
    (.empty, ∅)

def native (routine : Native) : FunctionId := ⟨UInt32.ofNat routine.index, 0⟩

/-- The routine that prints a value of a type. -/
def println? (type : TypeId) : Option FunctionId :=
  if type = .int then some (native .printInt)
  else if type = .float then some (native .printFloat)
  else if type = .bool then some (native .printBool)
  else none

/-- A machine without a program. -/
def create (settings : Settings) : Except VmError Vm := do
  settings.check.mapError .settings
  let collector ← (Collector.commit settings.heapSize settings.journal).mapError .memory
  let stack ← (Stack.commitStack settings.stackSize).mapError .memory
  let calls ← (CallTable.commit settings.callCapacity).mapError .memory
  let (functions, signatures) := nativeFunctions
  return {
    settings
    types := .primitives
    functions
    signatures
    image := .empty codePageSize
    collector
    stack
    calls
    output := ""
    main := none
    loaded := false }

def onTypes {α : Type} (act : EStateM TypeError TypeTable α) : EStateM TypeError Vm α := fun vm =>
  match act vm.types with
  | .ok a types => .ok a { vm with types }
  | .error e types => .error e { vm with types }

def function? (vm : Vm) (id : FunctionId) : Option Function :=
  vm.functions.get? id

def find? (vm : Vm) (signature : String) : Option FunctionId :=
  vm.signatures[signature]?

def functionText (vm : Vm) (id : FunctionId) : String :=
  match vm.function? id with
  | some f => f.signature vm.types
  | none => id.text

def requireUnloaded : EStateM VmError Vm Unit := do
  if (← get).loaded then throw (.load .alreadyLoaded)

/-! ## Declaring and defining functions -/

/-- Whether a definition is that of the function that a run starts with. -/
def isMain (d : Definition) : Bool :=
  d.name == "main" && !d.isMember

/-- Fails unless the program can have a function with this definition. -/
def checkDefinition (vm : Vm) (d : Definition) : Except VmError Unit := do
  (vm.types.resolveAll (d.parameters ++ [d.returnType] ++ d.owner.toList)).mapError .type
  let signature := d.signature vm.types
  if vm.signatures.contains signature then throw (.load (.duplicateFunction signature))
  if isMain d && (!d.parameters.isEmpty || d.returnType != .int) then
    throw (.load (.malformedMain s!"{signature} -> {vm.types.name d.returnType}"))

def register (d : Definition) : EStateM VmError Vm FunctionId := fun vm =>
  let (id, functions) := vm.functions.insert (.declared d)
  .ok id
    { vm with
      functions
      signatures := vm.signatures.insert (d.signature vm.types) id
      main := if isMain d then some id else vm.main }

def declare (d : Definition) : EStateM VmError Vm FunctionId := do
  requireUnloaded
  MonadExcept.ofExcept ((← get).checkDefinition d)
  register d

/-- Gives a declared function its body, once. -/
def define (id : FunctionId) (body : Body) : EStateM VmError Vm Unit := do
  requireUnloaded
  let vm ← get
  match vm.function? id with
  | none => throw (.load .unknownFunction)
  | some f =>
      if f.isNative then throw (.load (.nativeBody (f.signature vm.types)))
      if f.isDefined then throw (.load (.bodyAlreadyDefined (f.signature vm.types)))
      set { vm with functions := vm.functions.set id (f.withBody body) }

def add (d : Definition) (body : Body) : EStateM VmError Vm FunctionId := do
  let id ← declare d
  define id body
  return id

/-! ## Loading -/

def bodies (vm : Vm) : List (FunctionId × Function) :=
  vm.functions.toList.filter fun (_, f) => !f.isNative && f.isDefined

/-- The first function that a function calls and that has no body. -/
def missingCallee? (vm : Vm) (f : Function) : Option FunctionId :=
  f.code.toList.findSome? fun instr =>
    instr.callee?.filter fun callee => !((vm.function? callee).any Function.isDefined)

/-- Fails if a function calls one that has no body. -/
def checkCallees (vm : Vm) : List (FunctionId × Function) → Except VmError Unit
  | [] => .ok ()
  | (id, f) :: rest =>
      match vm.missingCallee? f with
      | some callee =>
          .error (.load (.unresolvedCallee (vm.functionText id) (vm.functionText callee)))
      | none => vm.checkCallees rest

/-- Checks the body of a function and notes the operand types that were found. -/
def verifyOne (id : FunctionId) : EStateM VmError Vm Unit := do
  let vm ← get
  match vm.function? id with
  | none => return ()
  | some f =>
      let snapshots ← MonadExcept.ofExcept ((verify ⟨vm.types, vm.functions, f⟩).mapError .verify)
      set { vm with functions := vm.functions.set id (f.withSnapshots snapshots) }

def onImage {α : Type}
    (act : TypeTable → FunctionTable → EStateM Compile.CompileError Image α) :
    EStateM VmError Vm α := fun vm =>
  match act vm.types vm.functions vm.image with
  | .ok a image => .ok a { vm with image }
  | .error e image => .error (.compile e) { vm with image }

/-- Checks, compiles and links every function that has a body. -/
def load : EStateM VmError Vm Unit := do
  requireUnloaded
  let unit := (← get).bodies
  MonadExcept.ofExcept ((← get).checkCallees unit)
  unit.forM fun (id, _) => verifyOne id
  unit.forM fun (id, _) =>
    onImage fun types functions => discard (Image.compile types functions id)
  onImage fun _ functions => discard (Image.link functions)
  onImage fun _ _ => Image.finish
  modify ({ · with loaded := true })

def listing (vm : Vm) (id : FunctionId) : Except VmError Listing :=
  match vm.function? id with
  | none => .error (.load .unknownFunction)
  | some f =>
      match vm.image.cache.get? id with
      | none => .error (.load .notLoaded)
      | some compiled =>
          (Compile.listing vm.types vm.image.store f compiled).mapError .compile

end Vm

end ManagedCode
