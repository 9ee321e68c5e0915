import ManagedCode.Bytecode.Instr

/-!
# Function bodies and labels

A body is written as a list of items: instructions, branches to labels and places where a
label is bound. `Body.assemble` drops the labels and gives every branch the position that its
label was bound to last.
-/

namespace ManagedCode.Bytecode

open TypeSystem (TypeId)

structure Body where
  locals : List TypeId
  code : Array Instr

/-- A label is a number of the body's own. -/
abbrev Label := Nat

/-- One line of a body in which branches name labels. -/
inductive Item where
  | instr (i : Instr)
  /-- A branch whose target is the label's position. -/
  | jump (i : Instr) (label : Label)
  /-- The label stands for the position of the next instruction. -/
  | bind (label : Label)

inductive BuildError where
  | unboundLabel (label : Label)
  deriving DecidableEq, Repr

namespace BuildError

def kind : BuildError → String
  | unboundLabel _ => "UnboundLabel"

def message : BuildError → String
  | unboundLabel label => s!"label {label} is referenced but never bound"

end BuildError

namespace Item

/-- Counts an item's instruction and records its label. -/
def note (seen : Nat × List (Label × Nat)) : Item → Nat × List (Label × Nat)
  | .bind label => (seen.1, (label, seen.1) :: seen.2)
  | _ => (seen.1 + 1, seen.2)

/-- Every label with a position it was bound to, the last binding first. -/
def bindings (items : List Item) : List (Label × Nat) :=
  (items.foldl note (0, [])).2

/-- The instruction of an item, with the branch target filled in. -/
def resolve (bound : List (Label × Nat)) : Item → Except BuildError (Option Instr)
  | .instr i => .ok (some i)
  | .bind _ => .ok none
  | .jump i label =>
      match bound.lookup label with
      | some target => .ok (some (i.withTarget target))
      | none => .error (.unboundLabel label)

end Item

/-- The body that a list of items stands for; the first branch to a label that is never bound
is refused. -/
def Body.assemble (locals : List TypeId) (items : List Item) : Except BuildError Body := do
  let code ← items.filterMapM (Item.resolve (Item.bindings items))
  return ⟨locals, code.toArray⟩

end ManagedCode.Bytecode
