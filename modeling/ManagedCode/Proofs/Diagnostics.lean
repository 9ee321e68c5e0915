import ManagedCode.Proofs.Machine.Blind
import ManagedCode.Proofs.Requests

/-!
# The diagnostic switches

Five settings say what is logged and printed about the heap and the frames. Two virtual machines
whose settings differ in these switches alone answer everything alike, and stay the same but for the
switches and the journal.

* `Settings.muted`, `Vm.muted`: what is left without the switches and what was recorded.
* `Collector.Alike`, `Vm.Alike`: heaps and virtual machines that differ in nothing else. Allocation,
  collection, whatever machine code asks for and every operation respect this.
* `Vm.switches_invisible`: every sequence of operations.
-/

namespace ManagedCode

open Bytecode (Body Definition FunctionId)
open Heap (Collector HeapObject Report)
open Machine (Stop)
open Target (Op)
open TypeSystem (TypeError TypeId TypeTable)

def Settings.muted (s : Settings) : Settings :=
  { s with
    logAllocation := false
    logDeallocation := false
    printAllocation := false
    printDeallocation := false
    printStackFrame := false }

/-- The heap and its statistics, with an empty journal that records nothing. -/
def Heap.Collector.muted (c : Collector) : Collector :=
  { c with journal := {}, options := ⟨false, false, false, false⟩ }

/-- The virtual machine without the switches and what was recorded because of them. -/
def Vm.muted (vm : Vm) : Vm :=
  { vm with settings := vm.settings.muted, collector := vm.collector.muted }

/-! ## Heaps -/

namespace Heap.Collector

/-- Heaps with the same statistics. -/
structure Alike (c d : Collector) : Prop where
  heap : d.heap = c.heap
  stats : d.stats = c.stats

variable {types : TypeTable} {type : TypeId}

theorem parallel_allocate (dataSize : Nat) : Parallel Alike (allocate types type dataSize) := by
  rintro ⟨_, _, journal, options⟩ ⟨heap, stats, journal', options'⟩ ⟨rfl, rfl⟩
  unfold allocate
  dsimp only
  cases heap.fit? dataSize with
  | none => exact .error ⟨rfl, rfl⟩
  | some total => exact .ok ⟨rfl, rfl⟩

theorem parallel_newObject : Parallel Alike (newObject types type) := by
  unfold newObject
  cases types.layout? type with
  | none => exact parallel_throw _
  | some layout => exact parallel_allocate _

theorem parallel_newArray (length : Int) : Parallel Alike (newArray types type length) := by
  unfold newArray
  cases types.element? type with
  | none => exact parallel_throw _
  | some element =>
    refine .ite ?_ (parallel_throw _)
    refine (parallel_allocate _).bind fun data => ?_
    refine (parallel_modify fun c d alike => ?_).bind fun _ => parallel_pure _
    exact ⟨by rw [setLength, setLength, alike.heap], alike.stats⟩

theorem parallel_mark (roots : List UInt64) : Parallel Alike (mark types roots) := by
  rintro ⟨_, _, journal, options⟩ ⟨heap, stats, journal', options'⟩ ⟨rfl, rfl⟩
  unfold mark
  dsimp only
  cases Arena.mark types heap roots.reverse 0 with
  | ok count heap => exact .ok ⟨rfl, rfl⟩
  | error e heap => exact .error ⟨rfl, rfl⟩

theorem parallel_objects : Parallel Alike (objects types) := by
  intro c d alike
  unfold objects
  rw [alike.heap]
  split
  · exact .error alike
  · exact .ok alike

/-- The journal is asked what to record while an object is freed. -/
theorem parallel_sweepOne (report : Report) (o : HeapObject) :
    Parallel Alike (sweepOne types report o) := by
  rintro ⟨_, _, journal, options⟩ ⟨heap, stats, journal', options'⟩ ⟨rfl, rfl⟩
  unfold sweepOne
  dsimp only
  split
  · exact .ok ⟨rfl, rfl⟩
  · split
    · exact .ok ⟨rfl, rfl⟩
    · exact .error ⟨rfl, rfl⟩

theorem parallel_sweepAll (objects : List HeapObject) (report : Report) :
    Parallel Alike (sweepAll types objects report) := by
  induction objects generalizing report with
  | nil => exact parallel_pure report
  | cons o rest ih => exact (parallel_sweepOne report o).bind fun swept => ih swept

theorem parallel_collect (roots : List UInt64) : Parallel Alike (collect types roots) := by
  refine (parallel_mark _).bind fun marked => parallel_objects.bind fun objects => ?_
  refine parallel_get_bind fun c d alike => ?_
  rw [alike.stats]
  refine Parallel.bind (parallel_sweepAll objects _) (fun report => ?_) alike
  refine (parallel_modify fun c d alike => ?_).bind fun _ => parallel_pure _
  exact ⟨alike.heap, by rw [alike.stats]⟩

end Heap.Collector

/-! ## Requests of machine code -/

namespace Vm

/-- Virtual machines that differ in switches and journals only. -/
def Alike (vm vm' : Vm) : Prop :=
  ∃ s c, s.muted = vm.settings.muted ∧ vm.collector.Alike c ∧ vm' = vm.switched s c

variable {α : Type} {vm vm' : Vm}

theorem Alike.muted (alike : Alike vm vm') : vm.muted = vm'.muted := by
  obtain ⟨s, c, settings, collector, rfl⟩ := alike
  unfold Vm.muted switched Collector.muted
  dsimp only
  rw [settings, collector.heap, collector.stats]

theorem parallel_onCollector {ε : Type} {failed : ε → Stop}
    {act : TypeTable → EStateM ε Collector α} (each : ∀ types, Parallel Collector.Alike (act types)) :
    Parallel Alike (onCollector failed act) := by
  rintro vm _ ⟨s, c, settings, collector, rfl⟩
  exact swapped_onCollector (P := fun s₀ s => s.muted = s₀.muted) settings
    (each vm.types collector)

theorem parallel_fetch (address : UInt64) : Parallel Alike (fetch address) := by
  rintro vm _ ⟨s, c, settings, collector, rfl⟩
  unfold fetch switched
  dsimp only
  cases vm.image.store.fetch address Op.maxLength with
  | ok bytes => exact .ok ⟨s, c, settings, collector, rfl⟩
  | error e => exact .error ⟨s, c, settings, collector, rfl⟩

theorem parallel_writeHeap (address : UInt64) (width : Target.Width) (value : UInt64) :
    Parallel Alike (writeHeap address width value) := by
  rintro vm _ ⟨s, c, settings, collector, rfl⟩
  unfold writeHeap switched
  dsimp only
  rw [collector.heap]
  split
  · refine .ok ⟨s, onHeap (Machine.storeTo · address width value) c, settings,
      ⟨?_, collector.stats⟩, rfl⟩
    rw [onHeap, onHeap, collector.heap]
  · exact .error ⟨s, c, settings, collector, rfl⟩

theorem parallel_newObject (raw : UInt32) : Parallel Alike (newObject raw) :=
  (parallel_ofExcept _).bind fun _ => parallel_onCollector fun _ => Collector.parallel_newObject

theorem parallel_newArray (raw : UInt32) (length : Int32) : Parallel Alike (newArray raw length) := by
  refine (parallel_ofExcept _).bind fun type => ?_
  have allocated : Parallel Alike
      (onCollector allocationFailed (Collector.newArray · type length.toInt)) :=
    parallel_onCollector fun _ => Collector.parallel_newArray _
  split
  · refine parallel_get_bind ?_
    rintro vm _ ⟨s, c, settings, collector, rfl⟩
    exact .error ⟨s, c, settings, collector, rfl⟩
  · exact allocated

theorem parallel_collect (base function : UInt64) (instruction : UInt32) :
    Parallel Alike (collect base function instruction) := by
  rintro vm _ ⟨s, c, settings, collector, rfl⟩
  -- The slots of the frames may be noted first, which a collection does not see.
  obtain ⟨k, heap, stats, here⟩ := collect_eq base function instruction vm
  obtain ⟨k', heap', stats', there⟩ := collect_eq base function instruction (vm.switched s c)
  rw [here, there]
  refine Parallel.bind ((parallel_ofExcept _).map _) (fun _ => ?_) ⟨s, k', settings, ⟨?_, ?_⟩, rfl⟩
  · exact parallel_onCollector fun _ => (Collector.parallel_collect _).map _
  · exact heap'.trans (collector.heap.trans heap.symm)
  · exact stats'.trans (collector.stats.trans stats.symm)

/-- Machine code does not see the switches. -/
theorem compatible_alike : Compatible Alike where
  toTame := tame_swapped (P := fun s₀ s => s.muted = s₀.muted) (Q := Collector.Alike)
  readHeap := by
    rintro vm _ ⟨s, c, settings, collector, rfl⟩ address width
    unfold readHeap switched
    dsimp only
    rw [collector.heap]
  entryFor := by
    rintro vm _ ⟨s, c, settings, collector, rfl⟩ id arguments
    rfl
  main := by
    rintro vm _ ⟨s, c, settings, collector, rfl⟩
    rfl
  clearCalls := by
    rintro vm _ ⟨s, c, settings, collector, rfl⟩
    exact ⟨s, c, settings, collector, rfl⟩
  fetch := parallel_fetch
  writeHeap := parallel_writeHeap
  newObject := parallel_newObject
  newArray := parallel_newArray
  collect := parallel_collect

/-! ## Operations of a virtual machine -/

theorem parallel_onTypes (act : EStateM TypeError TypeTable α) : Parallel Alike (onTypes act) := by
  rintro vm _ ⟨s, c, settings, collector, rfl⟩
  unfold onTypes switched
  dsimp only
  cases act vm.types with
  | ok a types => exact .ok ⟨s, c, settings, collector, rfl⟩
  | error e types => exact .error ⟨s, c, settings, collector, rfl⟩

theorem parallel_onImage
    (act : TypeTable → Bytecode.FunctionTable → EStateM Compile.CompileError Compile.Image α) :
    Parallel Alike (onImage act) := by
  rintro vm _ ⟨s, c, settings, collector, rfl⟩
  unfold onImage switched
  dsimp only
  cases act vm.types vm.functions vm.image with
  | ok a image => exact .ok ⟨s, c, settings, collector, rfl⟩
  | error e image => exact .error ⟨s, c, settings, collector, rfl⟩

theorem parallel_requireUnloaded : Parallel Alike requireUnloaded := by
  refine parallel_get_bind ?_
  rintro vm _ ⟨s, c, settings, collector, rfl⟩
  exact Parallel.ite (parallel_throw _) (parallel_pure _) ⟨s, c, settings, collector, rfl⟩

theorem parallel_declare (d : Definition) : Parallel Alike (declare d) := by
  refine parallel_requireUnloaded.bind fun _ => parallel_get_bind ?_
  rintro vm _ ⟨s, c, settings, collector, rfl⟩
  refine Parallel.bind (parallel_ofExcept (vm.checkDefinition d)) (fun _ => ?_)
    ⟨s, c, settings, collector, rfl⟩
  rintro vm _ ⟨s, c, settings, collector, rfl⟩
  exact .ok ⟨s, c, settings, collector, rfl⟩

theorem parallel_define (id : FunctionId) (body : Body) : Parallel Alike (define id body) := by
  refine parallel_requireUnloaded.bind fun _ => parallel_get_bind ?_
  rintro vm _ ⟨s, c, settings, collector, rfl⟩
  have alike : Alike vm (vm.switched s c) := ⟨s, c, settings, collector, rfl⟩
  have known : (vm.switched s c).function? id = vm.function? id := rfl
  dsimp only
  rw [known]
  cases vm.function? id with
  | none => exact .error alike
  | some f =>
    dsimp only
    split
    · exact .error alike
    · split
      · exact .error alike
      · exact .ok ⟨s, c, settings, collector, rfl⟩

theorem parallel_verifyOne (id : FunctionId) : Parallel Alike (verifyOne id) := by
  refine parallel_get_bind ?_
  rintro vm _ ⟨s, c, settings, collector, rfl⟩
  have alike : Alike vm (vm.switched s c) := ⟨s, c, settings, collector, rfl⟩
  have known : (vm.switched s c).function? id = vm.function? id := rfl
  rw [known]
  cases vm.function? id with
  | none => exact .ok alike
  | some f =>
    refine Both.bind (parallel_ofExcept _ alike) ?_
    rintro snapshots _ _ here there -
    obtain ⟨-, rfl⟩ := ofExcept_eq_ok_iff.mp here
    obtain ⟨-, rfl⟩ := ofExcept_eq_ok_iff.mp there
    exact .ok ⟨s, c, settings, collector, rfl⟩

theorem checkCallees_switched (vm : Vm) (s : Settings) (c : Collector)
    (unit : List (FunctionId × Bytecode.Function)) :
    (vm.switched s c).checkCallees unit = vm.checkCallees unit := by
  induction unit with
  | nil => rfl
  | cons head rest ih =>
    unfold checkCallees
    rw [ih]
    rfl

theorem parallel_load : Parallel Alike load := by
  refine parallel_requireUnloaded.bind fun _ => parallel_get_bind ?_
  rintro vm _ ⟨s, c, settings, collector, rfl⟩
  refine parallel_get_bind ?_ ⟨s, c, settings, collector, rfl⟩
  rintro vm' _ ⟨s', c', settings', collector', rfl⟩
  rw [checkCallees_switched]
  refine Parallel.bind (parallel_ofExcept _) (fun _ => ?_) ⟨s', c', settings', collector', rfl⟩
  refine (Parallel.forM fun f _ => parallel_verifyOne _).bind fun _ => ?_
  refine (Parallel.forM fun f _ => parallel_onImage _).bind fun _ => ?_
  refine (parallel_onImage _).bind fun _ => (parallel_onImage _).bind fun _ => ?_
  refine parallel_modify ?_
  rintro vm _ ⟨s, c, settings, collector, rfl⟩
  exact ⟨s, c, settings, collector, rfl⟩

theorem Request.parallel_perform (request : Request) : Parallel Alike request.perform := by
  cases request with
  | type command => exact ((parallel_onTypes _).adaptExcept _).map _
  | declare d => exact (parallel_declare d).map _
  | define id body => exact (parallel_define id body).map _
  | add d body =>
    refine Parallel.map ((parallel_declare d).bind fun id => ?_) _
    exact (parallel_define id body).bind fun _ => parallel_pure id
  | load => exact parallel_load.map _
  | invoke fuel id arguments => exact (compatible_alike.invoke fuel id arguments).map _
  | runMain fuel => exact (compatible_alike.runMain fuel).map _

theorem Alike.answers (alike : Alike vm vm') (requests : List Request) :
    vm.answers requests = vm'.answers requests ∧ Alike (vm.after requests) (vm'.after requests) := by
  induction requests generalizing vm vm' with
  | nil => exact ⟨rfl, alike⟩
  | cons request rest ih =>
    have both := request.parallel_perform alike
    obtain ⟨same, later⟩ := ih both.leaves
    refine ⟨?_, later⟩
    have answer : answerOf (request.perform vm) = answerOf (request.perform vm') := by
      generalize request.perform vm = here, request.perform vm' = there at both
      cases both with
      | ok related | error related => rfl
    unfold Vm.answers
    rw [answer, same]

theorem create_alike {s s' : Settings} (same : s.muted = s'.muted) :
    (∃ e, create s = .error e ∧ create s' = .error e) ∨
      ∃ vm vm', create s = .ok vm ∧ create s' = .ok vm' ∧ Alike vm vm' := by
  have heapSize : s'.heapSize = s.heapSize := (congrArg Settings.heapSize same).symm
  have stackSize : s'.stackSize = s.stackSize := (congrArg Settings.stackSize same).symm
  have capacity : s'.callCapacity = s.callCapacity := (congrArg Settings.callCapacity same).symm
  have checked : s'.check = s.check := by
    unfold Settings.check
    rw [heapSize, stackSize, capacity]
  unfold create Collector.commit
  rw [checked, heapSize, stackSize, capacity]
  cases s.check with
  | error e => exact .inl ⟨_, rfl, rfl⟩
  | ok _ =>
    cases Heap.Arena.commit s.heapSize with
    | error e => exact .inl ⟨_, rfl, rfl⟩
    | ok heap =>
      cases Stack.commitStack s.stackSize with
      | error e => exact .inl ⟨_, rfl, rfl⟩
      | ok stack =>
        cases Stack.CallTable.commit s.callCapacity with
        | error e => exact .inl ⟨_, rfl, rfl⟩
        | ok calls =>
          exact .inr ⟨_, _, rfl, rfl, ⟨s', ⟨heap, {}, {}, s'.journal⟩, same.symm,
            ⟨rfl, rfl⟩, rfl⟩⟩

/-- Two virtual machines whose settings differ in the diagnostic switches alone are made or refused
alike. Whatever is asked of them, and in whatever order, they give the same answers, and after every
request they are the same but for the switches and what was recorded because of them. -/
theorem switches_invisible {s s' : Settings} (same : s.muted = s'.muted) :
    (∃ e, create s = .error e ∧ create s' = .error e) ∨
      ∃ vm vm', create s = .ok vm ∧ create s' = .ok vm' ∧ ∀ requests : List Request,
        vm.answers requests = vm'.answers requests ∧
          (vm.after requests).muted = (vm'.after requests).muted := by
  rcases create_alike same with refused | ⟨vm, vm', made, made', alike⟩
  · exact .inl refused
  · refine .inr ⟨vm, vm', made, made', fun requests => ?_⟩
    obtain ⟨answers, later⟩ := alike.answers requests
    exact ⟨answers, later.muted⟩

/-- The settings of a runtime that records and prints everything. -/
def loud : Settings :=
  { logAllocation := true
    logDeallocation := true
    printAllocation := true
    printDeallocation := true
    printStackFrame := true }

theorem switches_invisible_loud :
    ({} : Settings).muted = loud.muted ∧
      ((∃ e, create {} = .error e ∧ create loud = .error e) ∨
        ∃ vm vm', create {} = .ok vm ∧ create loud = .ok vm' ∧ ∀ requests : List Request,
          vm.answers requests = vm'.answers requests ∧
            (vm.after requests).muted = (vm'.after requests).muted) :=
  ⟨rfl, switches_invisible rfl⟩

end Vm

end ManagedCode
