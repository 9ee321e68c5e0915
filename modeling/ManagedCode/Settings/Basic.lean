/-!
# Settings of the runtime

The sizes of the heap, the stack and the table of calls, and what is recorded and printed
while a program runs.
-/

namespace ManagedCode

structure Settings where
  heapSize : Nat := 16 * 1024 * 1024
  stackSize : Nat := 1024 * 1024
  callCapacity : Nat := 4096
  logAllocation : Bool := false
  logDeallocation : Bool := false
  printAllocation : Bool := false
  printDeallocation : Bool := false
  printStackFrame : Bool := false
  deriving DecidableEq, Repr, Inhabited

inductive SettingsError where
  /-- The file cannot be read as text. -/
  | unreadable
  /-- The text is no list of settings. -/
  | malformed
  | zeroHeap
  | smallStack (size : Nat)
  | zeroCalls
  deriving DecidableEq, Repr

namespace SettingsError

def kind : SettingsError → String
  | unreadable => "Io"
  | malformed => "Parse"
  | _ => "Invalid"

def message : SettingsError → String
  | unreadable => "Failed to read config file"
  | malformed => "Failed to parse config"
  | zeroHeap => "Invalid config: heap_size must be non-zero"
  | smallStack size => s!"Invalid config: stack_size must be at least 64 bytes, got {size}"
  | zeroCalls => "Invalid config: call_stack_capacity must be non-zero"

end SettingsError

namespace Settings

def minStackSize : Nat := 64

def withLogging (s : Settings) : Settings :=
  { s with logAllocation := true, logDeallocation := true }

def check (s : Settings) : Except SettingsError Unit :=
  if s.heapSize = 0 then .error .zeroHeap
  else if s.stackSize < minStackSize then .error (.smallStack s.stackSize)
  else if s.callCapacity = 0 then .error .zeroCalls
  else .ok ()

end Settings

end ManagedCode
