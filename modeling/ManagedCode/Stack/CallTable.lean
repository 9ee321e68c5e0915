import ManagedCode.Handle
import ManagedCode.Memory.Page

/-!
# The table of active calls

For every call under way the table records which function made it and at which instruction. It
has a fixed capacity and lives in a region of its own: a free word, then an entry of sixteen
bytes per call, the handle of the function first and the instruction after it.

The table does not say where the frames lie. That follows from the chain of saved bases on the
stack, which `CallTable.chain` reads.
-/

namespace ManagedCode.Stack

open Memory (Region MemoryError)

/-- A call under way: the function that made it, and the instruction. -/
structure ActiveCall where
  function : Handle
  instruction : UInt32
  deriving DecidableEq, Repr, Inhabited

inductive CallError where
  | overflow (capacity : Nat)
  | underflow
  /-- There is no stack slot at this base. -/
  | brokenChain (base : UInt64)
  /-- The entry at this address lies outside the table's region. -/
  | unwritable (address : UInt64)
  deriving DecidableEq, Repr

namespace CallError

def kind : CallError → String
  | overflow _ => "Overflow"
  | underflow => "Underflow"
  | brokenChain _ => "BrokenChain"
  | unwritable _ => "Unwritable"

def message : CallError → String
  | overflow capacity => s!"call stack overflow (capacity {capacity})"
  | underflow => "call stack underflow"
  | brokenChain base => s!"base pointer chain is broken at {Text.hexWord base}"
  | unwritable address =>
      s!"call stack entry at {Text.hexWord address} is outside the call stack region"

end CallError

/-- Calls under way, in a region with room for `capacity` of them. -/
structure CallTable where
  region : Region
  capacity : Nat
  depth : Nat
  deriving Inhabited

namespace CallTable

def tableBase : UInt64 := 0x10000000

/-- Bytes before the first entry. -/
def entriesOffset : Nat := 8

def entrySize : Nat := 16

/-- The bytes of a table, counted in a word of 64 bits. -/
def tableSize (capacity : Nat) : Nat :=
  (entriesOffset + entrySize * capacity) % 0x10000000000000000

def commit (capacity : Nat) : Except MemoryError CallTable :=
  (Region.commit tableBase (tableSize capacity)).map (⟨·, capacity, 0⟩)

def isEmpty (t : CallTable) : Bool := t.depth == 0

/-- The address of an entry, counted from the oldest. -/
def entryAddress (t : CallTable) (index : Nat) : UInt64 :=
  t.region.base + UInt64.ofNat (entriesOffset + entrySize * index)

def push (call : ActiveCall) : EStateM CallError CallTable Unit := fun t =>
  if t.depth < t.capacity then
    let address := t.entryAddress t.depth
    if t.region.contains address entrySize then
      .ok ()
        { t with
          region := (t.region.writeWord address 8 call.function.toBits).writeWord (address + 8) 4
            call.instruction.toUInt64
          depth := t.depth + 1 }
    else .error (.unwritable address) t
  else .error (.overflow t.capacity) t

/-- The call so many places before the most recent one. -/
def get? (t : CallTable) (back : Nat) : Option ActiveCall :=
  if back < t.depth then do
    let address := t.entryAddress (t.depth - 1 - back)
    let function ← t.region.read64? address
    let instruction ← t.region.read32? (address + 8)
    return ⟨.ofBits function, instruction⟩
  else none

def pop : EStateM CallError CallTable ActiveCall := fun t =>
  match t.get? 0 with
  | some call => .ok call { t with depth := t.depth - 1 }
  | none => .error .underflow t

/-- The calls, the most recent first. -/
def toList (t : CallTable) : List ActiveCall :=
  (List.range t.depth).filterMap t.get?

def clear (t : CallTable) : CallTable := { t with depth := 0 }

/-- Pairs calls, the most recent first, with the bases of the frames that made them: the slot
at a base holds the base of the frame before. -/
def pairBases (stack : Region) (base : UInt64) :
    List ActiveCall → Except CallError (List (UInt64 × ActiveCall))
  | [] => .ok []
  | call :: rest =>
      match stack.read64? base with
      | none => .error (.brokenChain base)
      | some saved => do
          return (saved, call) :: (← pairBases stack saved rest)

/-- Every call with the base of its frame, from the frame at `base` outward. -/
def chain (t : CallTable) (stack : Region) (base : UInt64) :
    Except CallError (List (UInt64 × ActiveCall)) :=
  pairBases stack base t.toList

end CallTable

end ManagedCode.Stack
