import ManagedCode.Stack.Walk
import ManagedCode.Heap.Collector
import ManagedCode.Target.Codec

/-!
# Why a run stops

A run ends early on a trap, which the program caused, when the heap is full, or because
something is wrong with the code or with what it was given.
-/

namespace ManagedCode.Machine

open Stack (WalkError)
open Heap (GcError)
open Memory (MemoryError)

inductive TrapKind where
  | invalidArrayCreation
  | arrayOutOfBounds
  | nullReference
  | stackOverflow
  | divideByZero
  deriving DecidableEq, Repr

namespace TrapKind

/-- The name that a program's user sees. -/
def text : TrapKind → String
  | invalidArrayCreation => "InvalidArrayCreation"
  | arrayOutOfBounds => "ArrayOutOfBoundsError"
  | nullReference => "NullReferenceError"
  | stackOverflow => "StackOverflow"
  | divideByZero => "DivideByZeroError"

/-- The name as part of the kind of an error. -/
def label : TrapKind → String
  | invalidArrayCreation => "InvalidArrayCreation"
  | arrayOutOfBounds => "ArrayOutOfBounds"
  | nullReference => "NullReference"
  | stackOverflow => "StackOverflow"
  | divideByZero => "DivideByZero"

end TrapKind

/-- What a null reference was used for. -/
inductive NullUse where
  | fieldLoad
  | fieldStore
  | elementLoad
  | elementStore
  | arrayLength
  | instanceCall
  deriving DecidableEq, Repr

def NullUse.text : NullUse → String
  | fieldLoad => "field load"
  | fieldStore => "field store"
  | elementLoad => "element load"
  | elementStore => "element store"
  | arrayLength => "array length"
  | instanceCall => "instance call"

/-- A condition that ends a program. -/
inductive Trap where
  | negativeLength (typeName : String) (length : Int32)
  | invalidLength (length : Int)
  | indexOutside (index length : Int32)
  | null (use : NullUse)
  /-- There is no stack slot left at this address. -/
  | stackExhausted (address : UInt64)
  | tooManyCalls (capacity : Nat)
  | divideByZero (dividend : Int32)
  deriving DecidableEq, Repr

namespace Trap

def kind : Trap → TrapKind
  | negativeLength .. | invalidLength _ => .invalidArrayCreation
  | indexOutside .. => .arrayOutOfBounds
  | null _ => .nullReference
  | stackExhausted _ | tooManyCalls _ => .stackOverflow
  | divideByZero _ => .divideByZero

def message : Trap → String
  | negativeLength typeName length => s!"cannot create {typeName} with length {length}"
  | invalidLength length => s!"array length {length}"
  | indexOutside index length => s!"index {index} outside array of length {length}"
  | null use => s!"{use.text} through null"
  | stackExhausted address => s!"native stack exhausted at {Text.hexWord address}"
  | tooManyCalls capacity => s!"call depth exceeds {capacity} frames"
  | divideByZero dividend => s!"{dividend} / 0"

end Trap

/-- Why a run stopped before its end. -/
inductive Stop where
  | trap (t : Trap)
  | heapExhausted (requested available : Nat)
  | memory (e : MemoryError)
  | walk (e : WalkError)
  | gc (e : GcError)
  /-- The code did something that no compiled function does. -/
  | fault (address : UInt64) (reason : String)
  deriving DecidableEq, Repr

namespace Stop

def kind : Stop → String
  | trap t => "Trap." ++ t.kind.label
  | heapExhausted .. => "HeapExhausted"
  | memory e => "Memory." ++ e.kind
  | walk e => "Walk." ++ e.kind
  | gc e => "Gc." ++ e.kind
  | fault .. => "Fault"

def message : Stop → String
  | trap t => s!"trap: {t.kind.text}: {t.message}"
  | heapExhausted requested available =>
      s!"heap exhausted: requested {requested} bytes, {available} available"
  | memory e => e.message
  | walk e => s!"stack walk failed: {e.message}"
  | gc e => s!"garbage collection failed: {e.message}"
  | fault address reason => s!"machine fault at {Text.hexWord address}: {reason}"

def exitCode : Stop → Nat
  | trap _ => 3
  | heapExhausted .. => 4
  | _ => 1

def trapKind? : Stop → Option TrapKind
  | trap t => some t.kind
  | _ => none

end Stop

end ManagedCode.Machine
