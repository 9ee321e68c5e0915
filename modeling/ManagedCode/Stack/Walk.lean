import ManagedCode.Bytecode.Function
import ManagedCode.Stack.CallTable
import ManagedCode.Stack.Layout

/-!
# Walking the stack

The stack holds the frames of the active functions, the innermost lowest. `frames` finds them
from the base of the innermost one and the table of calls, and `Active.slots` reads the
arguments, locals and operands of one with their types, which are known from the function and
the instruction it is at.
-/

namespace ManagedCode.Stack

open Memory (Region MemoryError)
open Bytecode (Function FunctionTable)
open TypeSystem (TypeId)

def stackBase : UInt64 := 0x20000000

/-- A fresh stack of at least the given size; it grows downward from its end. -/
def commitStack (size : Nat) : Except MemoryError Region :=
  Region.commit stackBase size

inductive SlotKind where
  | argument
  | ownLocal
  | operand
  deriving DecidableEq, Repr

def SlotKind.label : SlotKind → String
  | argument => "Argument"
  | ownLocal => "Local"
  | operand => "Operand"

structure FrameSlot where
  kind : SlotKind
  index : Nat
  type : TypeId
  address : UInt64
  value : UInt64

/-- A point that execution has reached in a function, and the base of the frame. -/
structure Site where
  base : UInt64
  function : Handle
  instruction : Nat

/-- The frame of a function that is active. -/
structure Active where
  base : UInt64
  function : Function
  instruction : Nat

inductive WalkError where
  | staleFunction (function : Handle)
  | slotOutOfRange (address : UInt64)
  | calls (e : CallError)
  deriving DecidableEq, Repr

namespace WalkError

def kind : WalkError → String
  | staleFunction _ => "StaleFunction"
  | slotOutOfRange _ => "SlotOutOfRange"
  | calls e => "CallStack." ++ e.kind

def message : WalkError → String
  | staleFunction function => s!"frame refers to unknown function {function.text}"
  | slotOutOfRange address =>
      s!"frame slot at {Text.hexWord address} lies outside the native stack"
  | calls e => e.message

end WalkError

def Site.active (functions : FunctionTable) (s : Site) : Except WalkError Active :=
  match functions.get? s.function with
  | some function => .ok ⟨s.base, function, s.instruction⟩
  | none => .error (.staleFunction s.function)

/-- The active frames from the given one outward. -/
def frames (stack : Region) (calls : CallTable) (functions : FunctionTable) (start : Site) :
    Except WalkError (List Active) := do
  let callers ← (calls.chain stack start.base).mapError .calls
  let sites := callers.map fun (base, call) => ⟨base, call.function, call.instruction.toNat⟩
  (start :: sites).mapM (Site.active functions)

namespace Active

/-- The kind, number, type and distance from the base of every slot: the arguments, the locals
and the operands, the deepest one first. -/
def slotPlan (f : Active) : List (SlotKind × Nat × TypeId × Int32) :=
  let arguments := f.function.definition.parameters
  let locals := f.function.locals
  let operands := (f.function.operandTypes f.instruction).reverse
  (arguments.zipIdx.map fun (type, i) => (.argument, i, type, argumentOffset i)) ++
    (locals.zipIdx.map fun (type, i) => (.ownLocal, i, type, localOffset arguments.length i)) ++
    (operands.zipIdx.map fun (type, i) =>
      (.operand, i, type, operandOffset arguments.length locals.length i))

def slots (f : Active) (stack : Region) : Except WalkError (List FrameSlot) :=
  f.slotPlan.mapM fun (kind, index, type, distance) =>
    let address := slotAddress f.base distance
    match stack.read64? address with
    | some value => .ok ⟨kind, index, type, address, value⟩
    | none => .error (.slotOutOfRange address)

end Active

/-- The slots of frames in order. When the slots of a frame cannot be read, those of the frames
before it are given with the error. -/
def visitFrames (stack : Region) :
    List Active → Array (Active × FrameSlot) → Array (Active × FrameSlot) × Option WalkError
  | [], visited => (visited, none)
  | f :: rest, visited =>
      match f.slots stack with
      | .error e => (visited, some e)
      | .ok slots => visitFrames stack rest (visited ++ slots.map (f, ·))

structure Visit where
  slots : Array (Active × FrameSlot)
  /-- The number of frames, or why the walk did not reach them all. -/
  outcome : Except WalkError Nat

/-- Reads every slot of every active frame, from the given frame outward. -/
def visit (stack : Region) (calls : CallTable) (functions : FunctionTable) (start : Site) :
    Visit :=
  match frames stack calls functions start with
  | .error e => ⟨#[], .error e⟩
  | .ok active =>
      match visitFrames stack active #[] with
      | (slots, some e) => ⟨slots, .error e⟩
      | (slots, none) => ⟨slots, .ok active.length⟩

end ManagedCode.Stack
