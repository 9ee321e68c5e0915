import ManagedCode.Typing.Step

/-!
# Operand types before every instruction

`verify` checks a function and finds the operand types before each instruction that control
can reach. It follows control from the first instruction: an instruction met for the first time
takes over the operand types of its predecessor, and one met again must find them equal.

Each instruction is visited once, so the search ends: `Exploration.pending` counts what is left
to do, and a visit lowers it (`pending_advance_le`).
-/

namespace ManagedCode.Typing

open Bytecode TypeSystem

/-- A cause with the position of its instruction. -/
abbrev Located := Nat × Cause

/-- The snapshots found so far and the instructions whose successors are still to be visited,
the next one first. -/
structure Exploration where
  states : Snapshots
  worklist : List Nat

namespace Exploration

/-- Instructions not met yet and instructions met but not visited. -/
def pending (x : Exploration) : Nat :=
  x.states.countP Option.isNone + x.worklist.length

/-- Hands operand types on to a successor. -/
def flow (s : Scope) (stack : OperandTypes) (x : Exploration) (successor : Nat) :
    Except Located Exploration :=
  if h : successor < x.states.size then
    match x.states[successor] with
    | none =>
        .ok { states := x.states.set successor (some stack)
              worklist := successor :: x.worklist }
    | some existing =>
        if existing = stack then .ok x
        else .error (successor, .stackMismatch (s.names existing) (s.names stack))
  else .ok x

/-- Where control can go from an instruction: to the branch target, then to the next. -/
def successors (code : Array Instr) (index : Nat) (i : Instr) : Except Cause (List Nat) := do
  let jumps ←
    match i.target? with
    | some target => if target < code.size then pure [target] else throw (.branchOutOfRange target)
    | none => pure []
  if i.endsBlock then return jumps
  if index + 1 < code.size then return jumps ++ [index + 1] else throw .fallsOffEnd

def advance (s : Scope) (x : Exploration) (index : Nat) : Except Located Exploration := do
  match s.function.code[index]? with
  | none => return x
  | some i =>
      let stack := ((x.states[index]?).bind id).getD []
      let after ← (step s i stack).mapError (index, ·)
      let next ← (successors s.function.code index i).mapError (index, ·)
      next.foldlM (flow s after) x

theorem pending_flow_le {s : Scope} {stack : OperandTypes} {x y : Exploration} {n : Nat}
    (h : flow s stack x n = .ok y) : y.pending ≤ x.pending := by
  unfold flow at h
  split at h
  · rename_i bound
    split at h
    · rename_i unmet
      cases h
      have positive : 0 < x.states.countP Option.isNone :=
        Array.countP_pos_iff.mpr ⟨none, unmet ▸ Array.getElem_mem bound, rfl⟩
      simp only [pending, List.length_cons]
      rw [Array.countP_set bound, unmet]
      simp
      omega
    · split at h
      · cases h
        exact Nat.le_refl _
      · cases h
  · cases h
    exact Nat.le_refl _

theorem pending_foldlM_flow_le {s : Scope} {stack : OperandTypes} {next : List Nat}
    {x y : Exploration} (h : next.foldlM (flow s stack) x = .ok y) : y.pending ≤ x.pending := by
  induction next generalizing x with
  | nil =>
      cases h
      exact Nat.le_refl _
  | cons n rest ih =>
      rw [List.foldlM_cons] at h
      cases first : flow s stack x n with
      | error e => rw [first] at h; cases h
      | ok z =>
          rw [first] at h
          exact Nat.le_trans (ih h) (pending_flow_le first)

/-- A visit leaves no more to do than there was. -/
theorem pending_advance_le {s : Scope} {x y : Exploration} {index : Nat}
    (h : advance s x index = .ok y) : y.pending ≤ x.pending := by
  unfold advance at h
  split at h
  · cases h
    exact Nat.le_refl _
  · rename_i i _
    cases stepped : step s i (((x.states[index]?).bind id).getD []) with
    | error e => simp only [stepped] at h; cases h
    | ok after =>
        cases found : successors s.function.code index i with
        | error e => simp only [stepped, found] at h; cases h
        | ok next =>
            simp only [stepped, found] at h
            exact pending_foldlM_flow_le h

set_option linter.unusedVariables false in
/-- Visits instructions until none is left. -/
def finish (s : Scope) (x : Exploration) : Except Located Snapshots :=
  match h : x.worklist with
  | [] => .ok x.states
  | index :: rest =>
      match next : advance s { states := x.states, worklist := rest } index with
      | .error e => .error e
      | .ok y =>
          finish s y
termination_by x.pending
decreasing_by
  have smaller := pending_advance_le next
  simp only [pending] at smaller ⊢
  rw [h, List.length_cons]
  omega

/-- Nothing met but the first instruction, with no operands. -/
def start (count : Nat) : Exploration :=
  { states := (Array.replicate count none).setIfInBounds 0 (some []), worklist := [0] }

end Exploration

/-- Checks what is declared apart from the instructions. -/
def checkDefinition (s : Scope) : Except Cause Unit := do
  let d := s.function.definition
  s.resolveAll (d.parameters ++ s.function.locals)
  discard (s.resolve d.returnType)
  match s.function.locals.findIdx? (· == .void) with
  | some index => throw (.voidLocal index)
  | none => pure ()
  if d.owner.isSome && d.parameters.head? != d.owner then throw .missingReceiver
  if d.constructor && d.returnType != .void then throw .constructorReturnType

/-- The snapshots of a function, or where and why it is refused. -/
def snapshots (s : Scope) : Except Located Snapshots := do
  (checkDefinition s).mapError (0, ·)
  if s.function.code.isEmpty then throw (0, .emptyBody)
  (Exploration.start s.function.code.size).finish s

def verify (s : Scope) : Except VerifyError Snapshots :=
  (snapshots s).mapError fun (index, cause) =>
    ⟨s.function.signature s.types, index, cause⟩

end ManagedCode.Typing
