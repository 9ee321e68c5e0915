import ManagedCode.Number.Single

/-!
# Conditions

The six comparisons. The same condition is evaluated on integers, on single-precision numbers
and on references, according to the static type of what is compared.
-/

namespace ManagedCode.Bytecode

open Number (Single)

inductive Condition where
  | equal
  | notEqual
  | greater
  | greaterEqual
  | less
  | lessEqual
  deriving DecidableEq, Repr

namespace Condition

/-- All conditions in order of their codes. -/
def all : List Condition :=
  [equal, notEqual, greater, greaterEqual, less, lessEqual]

def suffix : Condition → String
  | equal => "eq"
  | notEqual => "ne"
  | greater => "gt"
  | greaterEqual => "ge"
  | less => "lt"
  | lessEqual => "le"

def toByte : Condition → UInt8
  | equal => 0
  | notEqual => 1
  | greater => 2
  | greaterEqual => 3
  | less => 4
  | lessEqual => 5

def ofByte? (b : UInt8) : Option Condition :=
  match b with
  | 0 => some equal
  | 1 => some notEqual
  | 2 => some greater
  | 3 => some greaterEqual
  | 4 => some less
  | 5 => some lessEqual
  | _ => none

/-- Whether the condition needs an order and not only equality. -/
def isOrdering : Condition → Bool
  | equal => false
  | notEqual => false
  | _ => true

/-- The condition on two values, given their equality and their order. -/
def eval {α : Type} (eq lt le : α → α → Bool) : Condition → α → α → Bool
  | equal, a, b => eq a b
  | notEqual, a, b => !eq a b
  | greater, a, b => lt b a
  | greaterEqual, a, b => le b a
  | less, a, b => lt a b
  | lessEqual, a, b => le a b

def evalInt (c : Condition) (a b : Int32) : Bool :=
  c.eval (· == ·) (· < ·) (· ≤ ·) a b

/-- On numbers every condition but `notEqual` is false when a side is not a number. -/
def evalSingle (c : Condition) (a b : Single) : Bool :=
  c.eval Single.eq Single.lt Single.le a b

def evalWord (c : Condition) (a b : UInt64) : Bool :=
  c.eval (· == ·) (· < ·) (· ≤ ·) a b

end Condition

end ManagedCode.Bytecode
