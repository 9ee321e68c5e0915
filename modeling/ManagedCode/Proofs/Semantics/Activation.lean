import ManagedCode.Machine.Stop

/-!
# Activations

What the bytecode works on when it is read directly: every call under way has its own arguments,
locals and operands, and calls name functions by their handles. There are no addresses of code and
no frames in memory; the heap is the same as the machine's.

* `Activation`, `Configuration`: a call under way, and all of them with the heap and the output.
* `Outcome`: what one instruction leads to.
* `Configuration.enter`, `Configuration.leave`: calls and returns.
-/

namespace ManagedCode

open Bytecode (FunctionId)
open Heap (Arena Collector)
open Machine (Stop)

/-- What a program changes besides its activations. -/
structure World where
  heap : Arena
  output : String

namespace World

def say (w : World) (text : String) : World := { w with output := w.output ++ text }

/-- The world with the heap that an action leaves. -/
def take {ε α : Type} (w : World) : EStateM.Result ε Collector α → EStateM.Result ε World α
  | .ok a c => .ok a { w with heap := c.heap }
  | .error e c => .error e { w with heap := c.heap }

/-- What an action on the heap gives, apart from statistics and journal. -/
def effect {ε α : Type} (w : World) (act : EStateM ε Collector α) : EStateM.Result ε World α :=
  w.take (act ⟨w.heap, {}, {}, ⟨false, false, false, false⟩⟩)

end World

/-- A call under way at an instruction of a function, over values of a kind. -/
structure Activation (V : Type) where
  function : FunctionId
  index : Nat
  arguments : List V
  locals : List V
  /-- The top one first. -/
  operands : List V

/-- All calls under way. A caller stays at its call instruction, with the arguments that it pushed
among its operands. -/
structure Configuration (V : Type) where
  current : Activation V
  /-- The innermost one first. -/
  callers : List (Activation V)
  world : World

/-- What an instruction leads to. -/
inductive Outcome (V : Type) where
  | next (c : Configuration V)
  /-- The outermost call returned, with a value unless its function returns none. -/
  | finished (value : Option V) (world : World)
  | stopped (why : Stop) (world : World)
  /-- The instruction has no meaning here. -/
  | stuck

namespace Configuration

variable {V : Type}

def operands (c : Configuration V) : List V := c.current.operands

/-- The calls under way, the innermost first. -/
def active (c : Configuration V) : List (Activation V) := c.current :: c.callers

def goto (c : Configuration V) (index : Nat) (operands : List V) : Configuration V :=
  { c with current := { c.current with index, operands } }

def goOn (c : Configuration V) (operands : List V) : Configuration V :=
  c.goto (c.current.index + 1) operands

def setLocal (c : Configuration V) (n : Nat) (value : V) : Configuration V :=
  { c with current := { c.current with locals := c.current.locals.set n value } }

def inWorld (c : Configuration V) (world : World) : Configuration V := { c with world }

def pop1 (c : Configuration V) (k : V → List V → Outcome V) : Outcome V :=
  match c.operands with
  | a :: rest => k a rest
  | _ => .stuck

/-- Takes two operands; the top one is the second argument of `k`. -/
def pop2 (c : Configuration V) (k : V → V → List V → Outcome V) : Outcome V :=
  match c.operands with
  | b :: a :: rest => k a b rest
  | _ => .stuck

/-- Takes three operands; the top one is the third argument of `k`. -/
def pop3 (c : Configuration V) (k : V → V → V → List V → Outcome V) : Outcome V :=
  match c.operands with
  | d :: b :: a :: rest => k a b d rest
  | _ => .stuck

/-- Calls a function with the topmost operands as its arguments. -/
def enter (c : Configuration V) (callee : FunctionId) (arguments : Nat) (locals : List V) :
    Outcome V :=
  if arguments ≤ c.operands.length then
    .next {
      current := ⟨callee, 0, (c.operands.take arguments).reverse, locals, []⟩
      callers := c.active
      world := c.world }
  else .stuck

/-- Returns to the caller, which drops the arguments that it pushed. -/
def leave (c : Configuration V) (arguments : Nat) (value : Option V) : Outcome V :=
  match c.callers with
  | [] => .finished value c.world
  | a :: rest =>
    .next {
      current :=
        { a with
          index := a.index + 1
          operands := value.toList ++ a.operands.drop arguments }
      callers := rest
      world := c.world }

end Configuration

end ManagedCode
