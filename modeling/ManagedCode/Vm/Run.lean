import ManagedCode.Machine.Access
import ManagedCode.Machine.Step
import ManagedCode.Vm.State

/-!
# Running a program

A virtual machine is the host of the machine code compiled from its program. `Vm.invoke` calls a
compiled function; the heap and what was printed stay as the run leaves them, whether it ends or
is stopped.
-/

namespace ManagedCode

open Bytecode (FunctionId Native)
open Stack (ActiveCall CallTable CallError Site Visit)
open Heap (AllocationError Collector Journal)
open Machine (Host Stop Trap)
open Memory (Region)
open Target (Op Width)
open TypeSystem (TypeId TypeTable)

namespace Vm

/-! ## What the code asks for -/

def fetch (address : UInt64) : EStateM Stop Vm (List UInt8) := fun vm =>
  match vm.image.store.fetch address Op.maxLength with
  | .ok bytes => .ok bytes vm
  | .error e => .error (.memory e) vm

def readConstant (vm : Vm) (address : UInt64) : Except Stop UInt32 :=
  match vm.image.store.readConstant address with
  | .ok value => .ok value.bits
  | .error e => .error (.memory e)

def readSlot (vm : Vm) (address : UInt64) : Except Stop UInt64 :=
  match vm.stack.read64? address with
  | some value => .ok value
  | none => .error (.fault address "stack read outside the native stack")

def writeSlot (address value : UInt64) : EStateM Stop Vm Unit := fun vm =>
  if vm.stack.contains address 8 then
    .ok () { vm with stack := vm.stack.writeWord address 8 value }
  else .error (.fault address "stack write outside the native stack") vm

def readHeap (vm : Vm) (address : UInt64) (width : Width) : Except Stop UInt64 :=
  match Machine.loadFrom? vm.collector.heap.region address width with
  | some value => .ok value
  | none => .error (.fault address "heap read outside the heap")

def onHeap (change : Region → Region) (c : Collector) : Collector :=
  { c with heap := { c.heap with region := change c.heap.region } }

def writeHeap (address : UInt64) (width : Width) (value : UInt64) : EStateM Stop Vm Unit :=
  fun vm =>
    if vm.collector.heap.region.contains address width.bytes then
      .ok ()
        { vm with collector := onHeap (Machine.storeTo · address width value) vm.collector }
    else .error (.fault address "heap write outside the heap") vm

def onCollector {ε α : Type} (failed : ε → Stop) (act : TypeTable → EStateM ε Collector α) :
    EStateM Stop Vm α :=
  fun ⟨settings, types, functions, signatures, image, collector, stack, calls, output, main,
      loaded⟩ =>
    match act types collector with
    | .ok a collector =>
        .ok a ⟨settings, types, functions, signatures, image, collector, stack, calls, output,
          main, loaded⟩
    | .error e collector =>
        .error (failed e) ⟨settings, types, functions, signatures, image, collector, stack, calls,
          output, main, loaded⟩

/-- How a failed allocation ends a run. -/
def allocationFailed : AllocationError → Stop
  | .heapExhausted requested available => .heapExhausted requested available
  | .invalidLength length => .trap (.invalidLength length)
  | e => .fault 0 e.message

/-- The type that machine code names. -/
def typeOf (raw : UInt32) : Except Stop TypeId :=
  match TypeId.ofRaw? raw with
  | some type => .ok type
  | none => .error (.fault raw.toUInt64 "type id 0 in machine code")

def newObject (raw : UInt32) : EStateM Stop Vm UInt64 := do
  let type ← MonadExcept.ofExcept (typeOf raw)
  onCollector allocationFailed (Collector.newObject · type)

def newArray (raw : UInt32) (length : Int32) : EStateM Stop Vm UInt64 := do
  let type ← MonadExcept.ofExcept (typeOf raw)
  if length < 0 then throw (.trap (.negativeLength ((← get).types.name type) length))
  onCollector allocationFailed (Collector.newArray · type length.toInt)

/-- The frame that machine code names. -/
def siteAt (base function : UInt64) (instruction : UInt32) : Site :=
  ⟨base, .ofBits function, instruction.toNat⟩

/-- The references among the slots of a walk. -/
def rootsOf (types : TypeTable) (v : Visit) : List UInt64 :=
  (v.slots.toList.filter fun (_, slot) => types.isReference slot.type).map (·.2.value)

def slotText (types : TypeTable) (frame : Stack.Active) (slot : Stack.FrameSlot) : String :=
  let root := if types.isReference slot.type then " (root)" else ""
  s!"{frame.function.name} @{Text.position frame.instruction} {slot.kind.label} {slot.index}: " ++
    s!"{types.name slot.type} = {Text.hexWord slot.value}{root}"

/-- Notes visited slots in the journal. -/
def noteSlots (types : TypeTable) (v : Visit) (c : Collector) : Collector :=
  let say := fun (j : Journal) (visited : Stack.Active × Stack.FrameSlot) =>
    j.say (slotText types visited.1 visited.2)
  { c with journal := v.slots.foldl say c.journal }

/-- Frees what the active frames do not lead to. -/
def collect (base function : UInt64) (instruction : UInt32) : EStateM Stop Vm Unit := do
  let vm ← get
  let v := Stack.visit vm.stack vm.calls vm.functions (siteAt base function instruction)
  if vm.settings.printStackFrame then
    onCollector id fun types => modify (noteSlots types v)
  discard (MonadExcept.ofExcept (v.outcome.mapError .walk))
  onCollector .gc fun types => discard (Collector.collect types (rootsOf types v))

/-- Prints the active functions, the innermost first. -/
def printCallStack (base function : UInt64) (instruction : UInt32) : EStateM Stop Vm Unit :=
  fun vm =>
    match Stack.frames vm.stack vm.calls vm.functions (siteAt base function instruction) with
    | .error e => .error (.walk e) vm
    | .ok frames =>
        let text := frames.map fun f =>
          s!"  at {f.function.signature vm.types} [{Text.position f.instruction}]\n"
        .ok () { vm with output := text.foldl (· ++ ·) vm.output }

/-- The line that a routine prints for its argument. -/
def printed? : Native → List UInt64 → Option String
  | .printInt, word :: _ => some (toString (Machine.toInt word).toInt)
  | .printFloat, word :: _ => some (Machine.toSingle word).text
  | .printBool, word :: _ => some (if word = 0 then "false" else "true")
  | _, _ => none

def callNative (routine : Native) (arguments : List UInt64) : EStateM Stop Vm Unit := fun vm =>
  match printed? routine arguments with
  | some line => .ok () { vm with output := vm.output ++ line ++ "\n" }
  | none =>
      .error (.fault 0 s!"{routine.name} cannot be called through its routine address") vm

def onCalls {α : Type} (failed : CallError → Stop) (act : EStateM CallError CallTable α) :
    EStateM Stop Vm Unit :=
  fun ⟨settings, types, functions, signatures, image, collector, stack, calls, output, main,
      loaded⟩ =>
    match act calls with
    | .ok _ calls =>
        .ok () ⟨settings, types, functions, signatures, image, collector, stack, calls, output,
          main, loaded⟩
    | .error e calls =>
        .error (failed e) ⟨settings, types, functions, signatures, image, collector, stack, calls,
          output, main, loaded⟩

def pushFrame (function : UInt64) (instruction : UInt32) : EStateM Stop Vm Unit :=
  onCalls
    (fun
      | .overflow capacity => .trap (.tooManyCalls capacity)
      | e => .fault 0 e.message)
    (CallTable.push ⟨.ofBits function, instruction⟩)

def popFrame : EStateM Stop Vm Unit :=
  onCalls (fun e => .fault 0 e.message) CallTable.pop

instance : Host Vm where
  fetch := fetch
  readConstant := readConstant
  stackTop vm := vm.stack.stop
  stackLimit vm := vm.stack.base
  readSlot := readSlot
  writeSlot := writeSlot
  load := readHeap
  store := writeHeap
  newObject := newObject
  newArray := newArray
  collect := collect
  printCallStack := printCallStack
  callNative := callNative
  pushFrame := pushFrame
  popFrame := popFrame
  noteTrap _ vm := vm

/-! ## Calls from outside -/

/-- The entry of a compiled function, when it takes as many arguments as are given. -/
def entryFor (vm : Vm) (id : FunctionId) (arguments : Nat) : Except VmError UInt64 :=
  if vm.loaded then
    match vm.function? id with
    | none => .error (.load .unknownFunction)
    | some f =>
        if f.argumentCount ≠ arguments then
          .error (.load (.argumentCount (f.signature vm.types) f.argumentCount arguments))
        else
          match vm.image.cache.entryOf? id with
          | some entry => .ok entry
          | none => .error (.load .unknownFunction)
  else .error (.load .notLoaded)

def clearCalls (vm : Vm) : Vm := { vm with calls := vm.calls.clear }

/-- Runs the code at an entry, at most `fuel` steps. -/
def runAt (fuel : Nat) (entry : UInt64) (arguments : List UInt64) :
    EStateM VmError Vm (Option UInt64) := fun vm =>
  match Machine.run fuel arguments (Machine.start vm.clearCalls entry) with
  | .ok result m => .ok result m.host.clearCalls
  | .error e m => .error (.stopped e) m.host.clearCalls

/-- Takes out what was printed and the messages of the journal. -/
def takeOutput (vm : Vm) : (String × Array String) × Vm :=
  let (messages, collector) := vm.collector.takeMessages
  ((vm.output, messages), { vm with output := "", collector })

/-- Calls a compiled function with the words in its argument slots. Gives the result register,
or nothing if the function has not returned after `fuel` steps. -/
def invoke (fuel : Nat) (id : FunctionId) (arguments : List UInt64) :
    EStateM VmError Vm (Option UInt64) := do
  let entry ← MonadExcept.ofExcept ((← get).entryFor id arguments.length)
  runAt fuel entry arguments

def runMain (fuel : Nat) : EStateM VmError Vm (Option Int32) := do
  match (← get).main with
  | none => throw (.load .missingMain)
  | some id => return (← invoke fuel id []).map Machine.toInt

end Vm

end ManagedCode
