import ManagedCode.Machine.Access
import ManagedCode.Machine.Step

/-!
# A bare rig

A host for trying out machine code by itself: some code, a stack, a heap of plain bytes and a
few constants. What the code asks of the runtime is only noted down; allocations are served
from a list of addresses.
-/

namespace ManagedCode.Machine

open Memory (Region)
open Target (Op Width)

structure Rig where
  code : Region
  stack : Region
  heap : Region
  constants : List (UInt64 × UInt32)
  /-- The addresses that the next allocations give. -/
  allocations : List UInt64
  /-- How many calls are under way. -/
  depth : Nat
  fetches : Nat
  /-- What the code asked for, in order. -/
  events : Array String

namespace Rig

def codeBase : UInt64 := 0x100000

def stackEnd : UInt64 := 0x300000

def heapBase : UInt64 := 0x400000

/-- How many instructions a rig fetches before it gives up. -/
def fetchLimit : Nat := 20000

def create (code : ByteArray) (stackSize : Nat) (heap : ByteArray)
    (constants : List (UInt64 × UInt32)) (allocations : List UInt64) : Rig :=
  { code := .ofBytes codeBase code
    stack := .zeroed (stackEnd - UInt64.ofNat stackSize) stackSize
    heap := .ofBytes heapBase heap
    constants
    allocations
    depth := 0
    fetches := 0
    events := #[] }

def note (rig : Rig) (event : String) : Rig :=
  { rig with events := rig.events.push event }

/-- The code from an address on, at most an instruction long. -/
def codeFrom? (rig : Rig) (address : UInt64) : Option (List UInt8) :=
  (rig.code.offset? address 0).map fun offset =>
    rig.code.bytesAt offset (min Op.maxLength (rig.code.size - offset))

/-- The text of a request made by a function at an instruction. -/
def siteText (function : UInt64) (instruction : UInt32) : String :=
  s!"{Text.hexWord function} {instruction}"

/-- Serves an allocation from the list. -/
def allocate (event : String) : EStateM Stop Rig UInt64 := fun rig =>
  let rig := rig.note event
  match rig.allocations with
  | [] => .error (.fault 0 "no allocation left") rig
  | address :: rest => .ok address { rig with allocations := rest }

end Rig

open Rig in
instance : Host Rig where
  fetch address := fun rig =>
    let rig := { rig with fetches := rig.fetches + 1 }
    if fetchLimit < rig.fetches then .error (.fault 0 "fetch limit") rig
    else
      match rig.codeFrom? address with
      | some bytes => .ok bytes rig
      | none => .error (.fault address "fetch outside the code") rig
  readConstant rig address :=
    match rig.constants.lookup address with
    | some bits => .ok bits
    | none => .error (.fault address "no constant")
  stackTop _ := stackEnd
  stackLimit rig := rig.stack.base
  readSlot rig address :=
    match rig.stack.read64? address with
    | some value => .ok value
    | none => .error (.fault address "stack read")
  writeSlot address value := fun rig =>
    if rig.stack.contains address 8 then
      .ok () { rig with stack := rig.stack.writeWord address 8 value }
    else .error (.fault address "stack write") rig
  load rig address width :=
    match loadFrom? rig.heap address width with
    | some value => .ok value
    | none => .error (.fault address "heap read")
  store address width value := fun rig =>
    if rig.heap.contains address width.bytes then
      .ok () { rig with heap := storeTo rig.heap address width value }
    else .error (.fault address "heap write") rig
  newObject type := allocate s!"class {type}"
  newArray type length := allocate s!"array {type} {length}"
  collect base function instruction :=
    modify (·.note s!"collect {Text.hexWord base} {siteText function instruction}")
  printCallStack base function instruction :=
    modify (·.note s!"stack {Text.hexWord base} {siteText function instruction}")
  callNative routine arguments :=
    let words := " ".intercalate (arguments.map Text.hexWord)
    modify (·.note s!"native {routine.label} [{words}]")
  pushFrame function instruction := modify fun rig =>
    { rig.note s!"push {siteText function instruction}" with depth := rig.depth + 1 }
  popFrame := fun rig =>
    let rig := rig.note "pop"
    if rig.depth = 0 then .error (.fault 0 "no frame to pop") rig
    else .ok () { rig with depth := rig.depth - 1 }
  noteTrap t rig := rig.note s!"trap {t.kind.text}"

/-- Runs the code of a rig from an offset on. The rig stops by itself when it has fetched too
often. -/
def Rig.run (rig : Rig) (entry : Nat) (arguments : List UInt64) :
    EStateM.Result Stop (Machine Rig) (Option UInt64) :=
  Machine.run (fetchLimit + 1) arguments
    (Machine.start rig (codeBase + UInt64.ofNat entry))

end ManagedCode.Machine
