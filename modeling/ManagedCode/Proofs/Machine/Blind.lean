import ManagedCode.Proofs.Machine.Congruence

/-!
# Machine instructions that do not see the heap

Most machine instructions neither read nor change the collected heap: with another heap in its place
they do the same.

* `Vm.Swapped`: virtual machines that differ in their settings and their heaps only.
  `Vm.tame_swapped`: what machine code asks for apart from the heap keeps them so.
* `Op.changesHeap`, `quiet_execute`: the machine instructions that leave the heap as it is.
-/

namespace ManagedCode

open Heap (Collector)
open Machine (Action Related Stop execute load look)
open Target (Op)
open TypeSystem (TypeTable)

def Vm.withCollector (vm : Vm) (k : Collector) : Vm := { vm with collector := k }

def Machine.withCollector (m : Machine Vm) (k : Collector) : Machine Vm :=
  ⟨m.registers, m.current, m.host.withCollector k⟩

namespace Vm

/-- The virtual machine with other settings and another collected heap. -/
def switched (vm : Vm) (s : Settings) (c : Collector) : Vm :=
  { vm with settings := s, collector := c }

/-- Virtual machines that differ in their settings and their collected heaps only. -/
def Swapped (P : Settings → Settings → Prop) (Q : Collector → Collector → Prop) (vm vm' : Vm) :
    Prop :=
  ∃ s c, P vm.settings s ∧ Q vm.collector c ∧ vm' = vm.switched s c

variable {P : Settings → Settings → Prop} {Q : Collector → Collector → Prop} {α : Type}

/-- What is asked of the heaps decides. -/
theorem swapped_onCollector {ε : Type} {failed : ε → Stop}
    {act : TypeTable → EStateM ε Collector α} {vm : Vm} {s : Settings} {c : Collector}
    (settings : P vm.settings s) (both : Both Q (act vm.types vm.collector) (act vm.types c)) :
    Both (Swapped P Q) (onCollector failed act vm) (onCollector failed act (vm.switched s c)) := by
  unfold onCollector switched
  dsimp only
  generalize act vm.types vm.collector = here, act vm.types c = there at both
  cases both with
  | ok related => exact .ok ⟨s, _, settings, related, rfl⟩
  | error related => exact .error ⟨s, _, settings, related, rfl⟩

theorem swapped_onCalls (failed : Stack.CallError → Stop)
    (act : EStateM Stack.CallError Stack.CallTable α) :
    Parallel (Swapped P Q) (onCalls failed act) := by
  rintro vm _ ⟨s, c, settings, collector, rfl⟩
  unfold onCalls switched
  dsimp only
  cases act vm.calls with
  | ok a calls => exact .ok ⟨s, c, settings, collector, rfl⟩
  | error e calls => exact .error ⟨s, c, settings, collector, rfl⟩

/-- What machine code asks for apart from the heap does not see it. -/
theorem tame_swapped : Tame (Swapped P Q) where
  stack := by
    rintro vm _ ⟨s, c, settings, collector, rfl⟩
    rfl
  readConstant := by
    rintro vm _ ⟨s, c, settings, collector, rfl⟩ address
    rfl
  writeSlot address value := by
    rintro vm _ ⟨s, c, settings, collector, rfl⟩
    unfold writeSlot switched
    dsimp only
    split
    · exact .ok ⟨s, c, settings, collector, rfl⟩
    · exact .error ⟨s, c, settings, collector, rfl⟩
  printCallStack base function instruction := by
    rintro vm _ ⟨s, c, settings, collector, rfl⟩
    unfold printCallStack switched
    dsimp only
    cases Stack.frames vm.stack vm.calls vm.functions (siteAt base function instruction) with
    | ok frames => exact .ok ⟨s, c, settings, collector, rfl⟩
    | error e => exact .error ⟨s, c, settings, collector, rfl⟩
  callNative routine arguments := by
    rintro vm _ ⟨s, c, settings, collector, rfl⟩
    unfold callNative switched
    cases printed? routine arguments with
    | some line => exact .ok ⟨s, c, settings, collector, rfl⟩
    | none => exact .error ⟨s, c, settings, collector, rfl⟩
  pushFrame _ _ := swapped_onCalls _ _
  popFrame := swapped_onCalls _ _

end Vm

/-! ## Leaving the heap as it is -/

/-- An action that leaves the collected heap as it is. -/
def Quiet {α : Type} (act : Action Vm α) : Prop :=
  ∀ m, (leaves (act m)).host.collector = m.host.collector

def Target.Op.changesHeap : Op → Bool
  | .newObject _ | .newArray _ | .storeField .. | .storeElement _ | .collect .. => true
  | _ => false

section Rules

variable {α β : Type} {act : Action Vm α}

/-- What does not see the heap leaves it as it is. -/
theorem quiet_of_parallel (parallel : ∀ k,
    Parallel (Related fun _ => Vm.Swapped Eq fun c d : Collector => c = k ∧ d = k) act) :
    Quiet act := by
  intro m
  have same : Related (fun _ => Vm.Swapped Eq fun c d : Collector =>
      c = m.host.collector ∧ d = m.host.collector) m m := ⟨rfl, rfl, _, _, rfl, ⟨rfl, rfl⟩, rfl⟩
  obtain ⟨_, _, _, ⟨kept, _⟩, _⟩ := (parallel _ same).leaves.host
  exact kept

theorem Quiet.bind {next : α → Action Vm β} (first : Quiet act) (rest : ∀ a, Quiet (next a)) :
    Quiet (act >>= next) := fun m =>
  leaves_bind (R := fun m m' : Machine Vm => m'.host.collector = m.host.collector)
    (fun before after => after.trans before) (first m) fun a m' _ => rest a m'

theorem quiet_pop : Quiet (Machine.pop : Action Vm UInt64) :=
  quiet_of_parallel fun _ => Vm.tame_swapped.pop

theorem quiet_push (value : UInt64) : Quiet (Machine.push value : Action Vm Unit) :=
  quiet_of_parallel fun _ => Vm.tame_swapped.push value

theorem quiet_popObject (use : Machine.NullUse) :
    Quiet (Machine.popObject use : Action Vm UInt64) :=
  quiet_of_parallel fun _ => Vm.tame_swapped.shallow.popObject use

theorem quiet_load (address : UInt64) (width : Target.Width) :
    Quiet (load address width : Action Vm UInt64) := by
  intro m
  unfold load look
  split <;> rfl

theorem quiet_elementAddress (array : UInt64) (index : Int32) (width : Target.Width) :
    Quiet (Machine.elementAddress array index width : Action Vm UInt64) :=
  (quiet_load array .dword).bind fun _ => quiet_of_parallel fun _ =>
    .ite (Machine.parallel_trap _) (parallel_pure _)

end Rules

/-- A machine instruction that does not change the heap. -/
theorem quiet_execute {op : Op} (unchanged : op.changesHeap = false) (next : UInt64) :
    Quiet (execute next op : Action Vm Unit) := by
  cases touched : op.touchesHeap with
  | false => exact quiet_of_parallel fun _ => Vm.tame_swapped.execute touched next
  | true =>
    cases op with
    | loadField width offset | arrayLength =>
      exact (quiet_popObject _).bind fun _ => (quiet_load _ _).bind fun _ => quiet_push _
    | loadElement width =>
      exact quiet_pop.bind fun _ => (quiet_popObject _).bind fun _ =>
        (quiet_elementAddress _ _ _).bind fun _ => (quiet_load _ _).bind fun _ => quiet_push _
    | newObject type | newArray type | storeField width offset | storeElement width
    | collect function instruction => cases unchanged
    | _ => cases touched

end ManagedCode
