import ManagedCode.Machine.Stop

/-!
# The machine and its host

A machine has four registers and runs on a host, which holds the code, the stack and the heap
and does what the code asks of the runtime. `Host` lists what the machine needs from it. The
actions here move the stack pointer and pass requests on; they change nothing before they fail,
except where they say so.
-/

namespace ManagedCode.Machine

open Bytecode (Native)
open Target (Width)

/-- Instruction pointer, stack pointer, base of the current frame and result of the last
call. -/
structure Registers where
  ip : UInt64
  sp : UInt64
  bp : UInt64
  result : UInt64
  deriving DecidableEq, Repr, Inhabited

/-- What a machine needs from the state it runs on. -/
class Host (σ : Type) where
  /-- The bytes of code from an address on, as many as an instruction may have. -/
  fetch : UInt64 → EStateM Stop σ (List UInt8)
  readConstant : σ → UInt64 → Except Stop UInt32
  /-- The first address above the stack. -/
  stackTop : σ → UInt64
  /-- The lowest address of the stack. -/
  stackLimit : σ → UInt64
  readSlot : σ → UInt64 → Except Stop UInt64
  writeSlot : UInt64 → UInt64 → EStateM Stop σ Unit
  /-- Reads from the heap; a byte is zero-extended and four bytes are sign-extended. -/
  load : σ → UInt64 → Width → Except Stop UInt64
  /-- Writes the lowest bytes of a word to the heap. -/
  store : UInt64 → Width → UInt64 → EStateM Stop σ Unit
  newObject : UInt32 → EStateM Stop σ UInt64
  newArray : UInt32 → Int32 → EStateM Stop σ UInt64
  /-- Frees what is not reachable from the frame at a base, which is at an instruction of a
  function, and the frames around it. -/
  collect : UInt64 → UInt64 → UInt32 → EStateM Stop σ Unit
  printCallStack : UInt64 → UInt64 → UInt32 → EStateM Stop σ Unit
  callNative : Native → List UInt64 → EStateM Stop σ Unit
  pushFrame : UInt64 → UInt32 → EStateM Stop σ Unit
  popFrame : EStateM Stop σ Unit
  /-- Called before a trap of the machine's own ends the run. -/
  noteTrap : Trap → σ → σ

end Machine

/-- A machine on a host. `current` is the address of the instruction under way. -/
structure Machine (σ : Type) where
  registers : Machine.Registers
  current : UInt64
  host : σ

namespace Machine

open Target (Width)

variable {σ : Type}

/-- The return address that ends a run. -/
def haltAddress : UInt64 := 0

abbrev Action (σ α : Type) := EStateM Stop (Machine σ) α

@[inline] def ask {α : Type} (request : EStateM Stop σ α) : Action σ α :=
  fun ⟨registers, current, host⟩ =>
    match request host with
    | .ok a host => .ok a ⟨registers, current, host⟩
    | .error e host => .error e ⟨registers, current, host⟩

@[inline] def look {α : Type} (view : σ → Except Stop α) : Action σ α := fun m =>
  match view m.host with
  | .ok a => .ok a m
  | .error e => .error e m

@[inline] def registersOf : Action σ Registers := fun m => .ok m.registers m

@[inline] def setRegisters (change : Registers → Registers) : Action σ Unit :=
  fun ⟨registers, current, host⟩ => .ok () ⟨change registers, current, host⟩

@[inline] def goto (address : UInt64) : Action σ Unit :=
  setRegisters ({ · with ip := address })

/-- Ends the run because of the instruction under way. -/
def fault {α : Type} (reason : String) : Action σ α := fun m =>
  .error (.fault m.current reason) m

variable [Host σ]

def trap {α : Type} (t : Trap) : Action σ α :=
  fun ⟨registers, current, host⟩ => .error (.trap t) ⟨registers, current, Host.noteTrap t host⟩

def readSlot (address : UInt64) : Action σ UInt64 :=
  look (Host.readSlot · address)

def writeSlot (address value : UInt64) : Action σ Unit :=
  ask (Host.writeSlot address value)

def load (address : UInt64) (width : Width) : Action σ UInt64 :=
  look (Host.load · address width)

def store (address : UInt64) (width : Width) (value : UInt64) : Action σ Unit :=
  ask (Host.store address width value)

/-- Pushes a word; traps when the stack is used up. -/
def push (value : UInt64) : Action σ Unit := fun m =>
  let sp := m.registers.sp - Stack.slotSize
  if sp < Host.stackLimit m.host ∨ m.registers.sp < sp then trap (.stackExhausted sp) m
  else
    (do
      writeSlot sp value
      setRegisters ({ · with sp })) m

def pop : Action σ UInt64 := fun m =>
  let sp := m.registers.sp
  if Host.stackTop m.host ≤ sp then fault "pop from an empty stack" m
  else
    (do
      let value ← readSlot sp
      setRegisters ({ · with sp := sp + Stack.slotSize })
      return value) m

/-- The word so many slots below the top of the stack. -/
def peek (depth : UInt16) : Action σ UInt64 := do
  readSlot ((← registersOf).sp + depth.toUInt64 * Stack.slotSize)

/-- Pops words; the one popped last comes first. -/
def popMany : Nat → List UInt64 → Action σ (List UInt64)
  | 0, popped => return popped
  | n + 1, popped => do popMany n ((← pop) :: popped)

/-- Pops a reference; traps when it is null. -/
def popObject (use : NullUse) : Action σ UInt64 := do
  let object ← pop
  if object = 0 then trap (.null use) else return object

end Machine

end ManagedCode
