import ManagedCode.Proofs.Effects
import ManagedCode.Proofs.Semantics.Words
import Mathlib.Data.List.Forall2

/-!
# Activations that agree with the snapshots

An activation fits its function if it is at a reachable instruction and holds as many arguments,
locals and operands as the function has there, each in a given relation to its type. With the
relation that always holds this is about numbers alone; other relations say what the values are.

* `Activation.Fits`, `Configuration.Fits`: every activation fits, and every caller is at a call of
  the activation that it called.
-/

namespace ManagedCode

open Bytecode TypeSystem

variable {V : Type}

/-- An activation of a function that is at a reachable instruction, with values that are in a
relation to their types. -/
structure Activation.Fits (functions : FunctionTable) (R : TypeId → V → Prop) (a : Activation V)
    (f : Function) : Prop where
  found : functions.get? a.function = some f
  body : f.HasBody
  reachable : f.isReachable a.index = true
  arguments : List.Forall₂ R f.definition.parameters a.arguments
  locals : List.Forall₂ R f.locals a.locals
  operands : List.Forall₂ R (f.operandTypes a.index) a.operands

/-- Activations that fit, each at a call of the one before; the last one is of the function that
was called from outside. -/
def Suspended (functions : FunctionTable) (R : TypeId → V → Prop) (root : FunctionId) :
    FunctionId → List (Activation V) → Prop
  | callee, [] => callee = root
  | callee, a :: callers =>
    (∃ f instr, a.Fits functions R f ∧ f.code[a.index]? = some instr ∧
      instr.callee? = some callee) ∧ Suspended functions R root a.function callers

structure Configuration.Fits (functions : FunctionTable) (R : TypeId → V → Prop)
    (root : FunctionId) (c : Configuration V) : Prop where
  current : ∃ f, c.current.Fits functions R f
  callers : Suspended functions R root c.current.function c.callers

section Fits

variable {functions : FunctionTable} {R S : TypeId → V → Prop} {a : Activation V} {f : Function}

theorem Activation.Fits.mono (fits : a.Fits functions R f) (weaker : ∀ t v, R t v → S t v) :
    a.Fits functions S f :=
  { fits with
    arguments := fits.arguments.imp weaker
    locals := fits.locals.imp weaker
    operands := fits.operands.imp weaker }

variable {root callee : FunctionId} {callers : List (Activation V)} {c : Configuration V}

theorem Suspended.mono (suspended : Suspended functions R root callee callers)
    (weaker : ∀ t v, R t v → S t v) : Suspended functions S root callee callers := by
  induction callers generalizing callee with
  | nil => exact suspended
  | cons a callers ih =>
    obtain ⟨⟨f, instr, fits, code, calls⟩, rest⟩ := suspended
    exact ⟨⟨f, instr, fits.mono weaker, code, calls⟩, ih rest⟩

theorem Configuration.Fits.mono (fits : c.Fits functions R root) (weaker : ∀ t v, R t v → S t v) :
    c.Fits functions S root :=
  ⟨fits.current.imp fun _ current => current.mono weaker, fits.callers.mono weaker⟩

/-- The rule of the instruction that an activation is at, and the operands that it applies to. -/
theorem Activation.Fits.effect {types : TypeTable} {instr : Instr} {after : OperandTypes}
    (fits : a.Fits functions R f) (flow : Typing.Flows ⟨types, functions, f⟩ a.index instr after) :
    ∃ stack, Typing.Effect ⟨types, functions, f⟩ instr stack after ∧
      List.Forall₂ R stack a.operands :=
  ⟨_, flow.effect, fits.operands⟩

theorem Activation.Fits.operands_length (fits : a.Fits functions R f) :
    a.operands.length = (f.operandTypes a.index).length :=
  fits.operands.length_eq.symm

theorem Suspended.fits (suspended : Suspended functions R root callee callers) :
    ∀ a ∈ callers, ∃ f, a.Fits functions R f := by
  induction callers generalizing callee with
  | nil =>
    intro a mem
    cases mem
  | cons b callers ih =>
    obtain ⟨⟨f, _, fits, _⟩, rest⟩ := suspended
    intro a mem
    rcases List.mem_cons.mp mem with rfl | later
    · exact ⟨f, fits⟩
    · exact ih rest a later

theorem Configuration.Fits.active (fits : c.Fits functions R root) :
    ∀ a ∈ c.active, ∃ f, a.Fits functions R f := by
  intro a mem
  rcases List.mem_cons.mp mem with rfl | caller
  · exact fits.current
  · exact fits.callers.fits a caller

end Fits

end ManagedCode
