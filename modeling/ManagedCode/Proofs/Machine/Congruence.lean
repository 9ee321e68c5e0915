import ManagedCode.Proofs.SideBySide
import ManagedCode.Proofs.Machine.Invocation

/-!
# Two machines side by side

Two machines that execute the same code stay related when every action that machine instructions
are made of keeps them so.

* `Machine.Related`: two machines with the same registers whose hosts are related.
* `Op.reachesDown`, `Op.touchesHeap`: the machine instructions that read the stack below its top, and
  those that read or change the heap.
* `Shallow`, `Congruent`: relations that these actions keep at the top of the stack, without and with
  the heap.
* `both_resume`, `both_invoke`: what every machine instruction keeps, a whole call keeps.
* `Vm.Tame`, `Vm.Compatible`: relations of virtual machines that what machine code asks for keeps,
  without and with the heap; a call keeps the latter as well.
* `Vm.lasting`, `Vm.Invoked.fixed`: what no run changes.
-/

namespace ManagedCode

open Bytecode (FunctionId Native)
open Machine (Action Host Registers Stop Trap haltAddress resume run start toInt)
open Target (Op Width)

/-! ## Machines with related hosts -/

variable {request : EStateM Stop Vm α}

namespace Machine

/-- Machines with the same registers whose hosts are related, which may depend on the top of the
stack. -/
structure Related (R : UInt64 → Vm → Vm → Prop) (m n : Machine Vm) : Prop where
  registers : n.registers = m.registers
  current : n.current = m.current
  host : R m.registers.sp m.host n.host

variable {R : UInt64 → Vm → Vm → Prop} {α : Type}

namespace Related

variable {m n : Machine Vm}

theorem setRegisters {change : Registers → Registers} (related : Related R m n)
    (host : R (change m.registers).sp m.host n.host) :
    Both (Related R) (Machine.setRegisters change m) (Machine.setRegisters change n) := by
  obtain ⟨registers, current, _⟩ := n
  obtain ⟨rfl, rfl, _⟩ := related
  exact .ok ⟨rfl, rfl, host⟩

theorem ask (related : Related R m n)
    (both : Both (R m.registers.sp) (request m.host) (request n.host)) :
    Both (Related R) (Machine.ask request m) (Machine.ask request n) := by
  obtain ⟨registers, current, host⟩ := m
  obtain ⟨_, _, host'⟩ := n
  obtain ⟨rfl, rfl, _⟩ := related
  unfold Machine.ask
  dsimp only at both ⊢
  generalize request host = here, request host' = there at both
  cases both with
  | ok related => exact .ok ⟨rfl, rfl, related⟩
  | error related => exact .error ⟨rfl, rfl, related⟩

theorem look {view : Vm → Except Stop α} (related : Related R m n)
    (same : view n.host = view m.host) :
    Both (Related R) (Machine.look view m) (Machine.look view n) := by
  unfold Machine.look
  rw [same]
  cases view m.host with
  | ok a => exact .ok related
  | error e => exact .error related

end Related

theorem parallel_begin : Parallel (Related R) (begin : Action Vm UInt64) := by
  rintro m ⟨registers, current, host⟩ ⟨rfl, rfl, related⟩
  exact .ok ⟨rfl, rfl, related⟩

theorem parallel_trap (t : Trap) : Parallel (Related R) (trap t : Action Vm α) := by
  rintro m ⟨registers, current, host⟩ ⟨rfl, rfl, related⟩
  exact .error ⟨rfl, rfl, related⟩

theorem parallel_fault (reason : String) : Parallel (Related R) (fault reason : Action Vm α) := by
  rintro m ⟨registers, current, host⟩ ⟨rfl, rfl, related⟩
  exact .error ⟨rfl, rfl, related⟩

theorem parallel_registersOf : Parallel (Related R) (registersOf : Action Vm Registers) := by
  rintro m ⟨registers, current, host⟩ ⟨rfl, rfl, related⟩
  exact .ok ⟨rfl, rfl, related⟩

theorem parallel_ask (each : ∀ sp, Parallel (R sp) request) : Parallel (Related R) (ask request) :=
  fun _ _ related => related.ask (each _ related.host)

end Machine

/-! ## Actions at the top of the stack -/

/-- The machine instructions that read the stack below its top, or drop more than one word. -/
def Target.Op.reachesDown : Op → Bool
  | .enter .. | .leave | .ret _ | .loadSlot _ | .nullCheck _ | .collect .. | .printCallStack .. =>
    true
  | _ => false

def Target.Op.touchesHeap : Op → Bool
  | .newObject _ | .newArray _ | .loadField .. | .storeField .. | .loadElement _ | .storeElement _
  | .arrayLength | .collect .. => true
  | _ => false

/-- A relation of machines that is kept by what machine instructions are made of, where they keep to
the top of the stack and to themselves. -/
structure Shallow (R : Machine Vm → Machine Vm → Prop) : Prop where
  registers {m n : Machine Vm} (related : R m n) : n.registers = m.registers
  current {m n : Machine Vm} (related : R m n) : n.current = m.current
  goto (address : UInt64) : Parallel R (Machine.goto address : Action Vm Unit)
  setResult (value : UInt64) :
    Parallel R (Machine.setRegisters ({ · with result := value }) : Action Vm Unit)
  trap {α : Type} (t : Trap) : Parallel R (Machine.trap t : Action Vm α)
  readConstant (address : UInt64) :
    Parallel R (Machine.look (Host.readConstant · address) : Action Vm UInt32)
  push (value : UInt64) : Parallel R (Machine.push value : Action Vm Unit)
  pop : Parallel R (Machine.pop : Action Vm UInt64)
  top : Parallel R (Machine.peek 0 : Action Vm UInt64)
  writeSlot (address value : UInt64) :
    Parallel R (Machine.writeSlot address value : Action Vm Unit)
  callNative (routine : Native) (arguments : List UInt64) :
    Parallel R (Machine.ask (Host.callNative routine arguments) : Action Vm Unit)
  pushFrame (function : UInt64) (instruction : UInt32) :
    Parallel R (Machine.ask (Host.pushFrame function instruction) : Action Vm Unit)
  popFrame : Parallel R (Machine.ask Host.popFrame : Action Vm Unit)

/-- Such a relation that is kept by the actions on the heap as well. -/
structure Congruent (R : Machine Vm → Machine Vm → Prop) : Prop extends Shallow R where
  begin_ : Parallel R (Machine.begin : Action Vm UInt64)
  fetch (address : UInt64) : Parallel R (Machine.ask (Host.fetch address) : Action Vm (List UInt8))
  load (address : UInt64) (width : Width) :
    Parallel R (Machine.load address width : Action Vm UInt64)
  store (address : UInt64) (width : Width) (value : UInt64) :
    Parallel R (Machine.store address width value : Action Vm Unit)
  newObject (type : UInt32) : Parallel R (Machine.ask (Host.newObject type) : Action Vm UInt64)
  newArray (type : UInt32) (length : Int32) :
    Parallel R (Machine.ask (Host.newArray type length) : Action Vm UInt64)

variable {op : Op} {vm : Vm}

namespace Shallow

variable {R : Machine Vm → Machine Vm → Prop}

section

variable (shallow : Shallow R)

include shallow

theorem registersOf : Parallel R Machine.registersOf := by
  intro m n related
  show Both R (.ok m.registers m) (.ok n.registers n)
  rw [shallow.registers related]
  exact .ok related

theorem fault {α : Type} (reason : String) : Parallel R (Machine.fault reason : Action Vm α) := by
  intro m n related
  show Both R (.error (Machine.Stop.fault m.current reason) m)
    (.error (Machine.Stop.fault n.current reason) n)
  rw [shallow.current related]
  exact .error related

theorem pushAll (arguments : List UInt64) :
    Parallel R (Machine.pushAll arguments : Action Vm Unit) := by
  induction arguments with
  | nil => exact parallel_pure ()
  | cons value rest ih => exact (shallow.push value).bind fun _ => ih

theorem pushZeros (n : Nat) : Parallel R (Machine.pushZeros n : Action Vm Unit) := by
  induction n with
  | zero => exact parallel_pure ()
  | succ n ih => exact (shallow.push 0).bind fun _ => ih

theorem popMany (n : Nat) (popped : List UInt64) :
    Parallel R (Machine.popMany n popped : Action Vm (List UInt64)) := by
  induction n generalizing popped with
  | zero => exact parallel_pure popped
  | succ n ih => exact shallow.pop.bind fun _ => ih _

theorem popObject (use : Machine.NullUse) : Parallel R (Machine.popObject use : Action Vm UInt64) :=
  shallow.pop.bind fun _ => .ite (shallow.trap _) (parallel_pure _)

theorem unary (f : UInt64 → UInt64) : Parallel R (Machine.unary f : Action Vm Unit) :=
  shallow.pop.bind fun _ => shallow.push _

theorem binary (f : UInt64 → UInt64 → UInt64) : Parallel R (Machine.binary f : Action Vm Unit) :=
  shallow.pop.bind fun _ => shallow.pop.bind fun _ => shallow.push _

/-- A machine instruction that keeps to the top of the stack and to itself keeps the relation. -/
theorem execute (above : op.reachesDown = false) (untouched : op.touchesHeap = false)
    (next : UInt64) : Parallel R (Machine.execute next op : Action Vm Unit) := by
  have pop := shallow.pop
  have push := shallow.push
  cases op with
  | pushImm value => exact push value
  | pushConst address => exact (shallow.readConstant address).bind fun _ => push _
  | storeSlot distance =>
    exact pop.bind fun _ => shallow.registersOf.bind fun _ => shallow.writeSlot _ _
  | pop => exact pop.bind fun _ => parallel_pure _
  | dup => exact shallow.top.bind fun _ => push _
  | pushResult => exact shallow.registersOf.bind fun _ => push _
  | popResult => exact pop.bind fun _ => shallow.setResult _
  | arith kind op =>
    cases kind with
    | int =>
      refine pop.bind fun right => pop.bind fun left => ?_
      cases Machine.arithInt? op (toInt left) (toInt right) with
      | some value => exact push _
      | none => exact shallow.trap _
    | float => exact shallow.binary _
  | and | or | compare kind condition => exact shallow.binary _
  | not | intToFloat | floatToInt => exact shallow.unary _
  | jump distance => exact shallow.goto _
  | jumpIf kind condition distance =>
    exact pop.bind fun _ => pop.bind fun _ => .ite (shallow.goto _) (parallel_pure _)
  | callRelative distance => exact (push next).bind fun _ => shallow.goto _
  | callAbsolute address =>
    unfold Machine.execute
    dsimp only
    split
    · exact (shallow.popMany _ _).bind fun _ => shallow.callNative _ _
    · exact (push next).bind fun _ => shallow.goto _
  | pushFrame function instruction => exact shallow.pushFrame function instruction
  | popFrame => exact shallow.popFrame
  | enter arguments locals | leave | ret slots | loadSlot distance | nullCheck depth
  | collect function instruction | printCallStack function instruction => cases above
  | newObject type | newArray type | loadField width offset | storeField width offset
  | loadElement width | storeElement width | arrayLength => cases untouched

end

end Shallow

namespace Congruent

variable {R : Machine Vm → Machine Vm → Prop}

theorem elementAddress (congruent : Congruent R) (array : UInt64) (index : Int32) (width : Width) :
    Parallel R (Machine.elementAddress array index width : Action Vm UInt64) :=
  (congruent.load array .dword).bind fun _ => .ite (congruent.trap _) (parallel_pure _)

/-- A machine instruction that keeps to the top of the stack keeps the relation. -/
theorem execute (congruent : Congruent R) (above : op.reachesDown = false) (next : UInt64) :
    Parallel R (Machine.execute next op : Action Vm Unit) := by
  have pop := congruent.pop
  have push := congruent.push
  have load := congruent.load
  cases touched : op.touchesHeap with
  | false => exact congruent.toShallow.execute above touched next
  | true =>
    cases op with
    | newObject type => exact (congruent.newObject type).bind fun _ => push _
    | newArray type => exact pop.bind fun _ => (congruent.newArray type _).bind fun _ => push _
    | loadField width offset | arrayLength =>
      exact (congruent.popObject _).bind fun _ => (load _ _).bind fun _ => push _
    | storeField width offset =>
      exact pop.bind fun _ => (congruent.popObject _).bind fun _ => congruent.store _ _ _
    | loadElement width =>
      exact pop.bind fun _ => (congruent.popObject _).bind fun _ =>
        (congruent.elementAddress _ _ _).bind fun _ => (load _ _).bind fun _ => push _
    | storeElement width =>
      exact pop.bind fun _ => pop.bind fun _ => (congruent.popObject _).bind fun _ =>
        (congruent.elementAddress _ _ _).bind fun _ => congruent.store _ _ _
    | collect function instruction => cases above
    | _ => cases touched

/-- Machines that execute every instruction alike step alike. -/
theorem step (congruent : Congruent R)
    (execute : ∀ next op, Parallel R (Machine.execute next op : Action Vm Unit)) :
    Parallel R (Machine.step : Action Vm Unit) := by
  refine congruent.begin_.bind fun address => (congruent.fetch address).bind fun bytes => ?_
  cases Target.decode bytes with
  | error e => exact congruent.fault _
  | ok found => exact (congruent.goto _).bind fun _ => execute _ found.1

end Congruent

section Runs

variable {R : Machine Vm → Machine Vm → Prop} {I : Machine Vm → Prop}

/-- What is kept by the steps of two machines is kept by all steps of a run. The invariant `I` of the
first machine may be needed to step. -/
theorem both_resume (congruent : Congruent R)
    (kept : ∀ m m', I m → Runs m m' → I m')
    (steps : ∀ m n, I m → R m n → m.registers.ip ≠ haltAddress →
      Both R (Machine.step m) (Machine.step n))
    (fuel : Nat) {m n : Machine Vm} (holds : I m) (related : R m n) :
    Both R (resume fuel m) (resume fuel n) := by
  induction fuel generalizing m n with
  | zero =>
    rw [Vm.resume_zero, Vm.resume_zero, congruent.registers related]
    exact .ok related
  | succ fuel ih =>
    have same := congruent.registers related
    by_cases halted : m.registers.ip = haltAddress
    · rw [Vm.resume_halted halted, Vm.resume_halted (by rw [same]; exact halted), same]
      exact .ok related
    · rw [Vm.resume_running halted, Vm.resume_running (by rw [same]; exact halted)]
      refine (steps m n holds related halted).bind fun _ m' n' stepped _ later => ?_
      exact ih (kept m m' holds ⟨halted, stepped⟩) later

/-- Two calls of a function give the same when their machines are related from the start on. -/
theorem both_invoke (congruent : Congruent R) {S : Vm → Vm → Prop}
    (cleared : ∀ m n, R m n → S m.host.clearCalls n.host.clearCalls) {vm' : Vm} (similar : S vm vm')
    (id : FunctionId) (arguments : List UInt64)
    (entries : vm'.entryFor id arguments.length = vm.entryFor id arguments.length)
    (started : ∀ entry, R (start vm.clearCalls entry) (start vm'.clearCalls entry))
    (kept : ∀ m m', I m → Runs m m' → I m') (starts : ∀ m, vm.Starts id arguments m → I m)
    (steps : ∀ m n, I m → R m n → m.registers.ip ≠ haltAddress → Both R (Machine.step m)
      (Machine.step n))
    (fuel : Nat) : Both S (Vm.invoke fuel id arguments vm) (Vm.invoke fuel id arguments vm') := by
  cases found : vm.entryFor id arguments.length with
  | error e =>
    rw [Vm.invoke_of_refusal found, Vm.invoke_of_refusal (entries.trans found)]
    exact .error similar
  | ok entry =>
    have ran : Both R (run fuel arguments (start vm.clearCalls entry))
        (run fuel arguments (start vm'.clearCalls entry)) := by
      rw [Vm.run_eq]
      have pushed : Parallel R (do Machine.pushAll arguments; Machine.push haltAddress :
          Action Vm Unit) :=
        (congruent.pushAll arguments).bind fun _ => congruent.push haltAddress
      refine (pushed (started entry)).bind fun _ m n here _ related => ?_
      exact both_resume congruent kept steps fuel (starts m ⟨entry, found, here⟩) related
    rw [Vm.invoke_of_entryFor found, Vm.invoke_of_entryFor (entries.trans found)]
    unfold Vm.runAt
    generalize run fuel arguments (start vm.clearCalls entry) = here,
      run fuel arguments (start vm'.clearCalls entry) = there at ran
    cases ran with
    | ok related => exact .ok (cleared _ _ related)
    | error related => exact .error (cleared _ _ related)

end Runs

/-! ## Virtual machines side by side -/

namespace Vm

/-- A relation of virtual machines that is kept by what machine code asks for apart from the heap.
What it reads is the same in both. -/
structure Tame (S : Vm → Vm → Prop) : Prop where
  stack {vm vm' : Vm} (related : S vm vm') : vm'.stack = vm.stack
  readConstant {vm vm' : Vm} (related : S vm vm') (address : UInt64) :
    vm'.readConstant address = vm.readConstant address
  writeSlot (address value : UInt64) : Parallel S (writeSlot address value)
  printCallStack (base function : UInt64) (instruction : UInt32) :
    Parallel S (printCallStack base function instruction)
  callNative (routine : Native) (arguments : List UInt64) : Parallel S (callNative routine arguments)
  pushFrame (function : UInt64) (instruction : UInt32) : Parallel S (pushFrame function instruction)
  popFrame : Parallel S popFrame

/-- A relation of virtual machines that is kept by whatever machine code asks for. What it reads is
the same in both. -/
structure Compatible (S : Vm → Vm → Prop) : Prop extends Tame S where
  readHeap {vm vm' : Vm} (related : S vm vm') (address : UInt64) (width : Width) :
    vm'.readHeap address width = vm.readHeap address width
  entryFor {vm vm' : Vm} (related : S vm vm') (id : FunctionId) (arguments : Nat) :
    vm'.entryFor id arguments = vm.entryFor id arguments
  main {vm vm' : Vm} (related : S vm vm') : vm'.main = vm.main
  clearCalls {vm vm' : Vm} (related : S vm vm') : S vm.clearCalls vm'.clearCalls
  fetch (address : UInt64) : Parallel S (fetch address)
  writeHeap (address : UInt64) (width : Width) (value : UInt64) :
    Parallel S (writeHeap address width value)
  newObject (type : UInt32) : Parallel S (newObject type)
  newArray (type : UInt32) (length : Int32) : Parallel S (newArray type length)
  collect (base function : UInt64) (instruction : UInt32) :
    Parallel S (collect base function instruction)

open Machine (Related)

namespace Tame

variable {S : Vm → Vm → Prop}

theorem setRegisters (change : Registers → Registers) :
    Parallel (Related fun _ => S) (Machine.setRegisters change : Action Vm Unit) :=
  fun _ _ related => related.setRegisters related.host

section

variable (tame : Tame S)

include tame

theorem readSlot (address : UInt64) :
    Parallel (Related fun _ => S) (Machine.readSlot address : Action Vm UInt64) := by
  refine fun m n related => related.look ?_
  show Vm.readSlot n.host address = Vm.readSlot m.host address
  unfold Vm.readSlot
  rw [tame.stack related.host]

theorem push (value : UInt64) :
    Parallel (Related fun _ => S) (Machine.push value : Action Vm Unit) := by
  intro m n related
  have limit : Host.stackLimit n.host = Host.stackLimit m.host :=
    congrArg Memory.Region.base (tame.stack related.host)
  unfold Machine.push
  rw [related.registers, limit]
  dsimp only
  by_cases full : m.registers.sp - Stack.slotSize < Host.stackLimit m.host ∨
      m.registers.sp < m.registers.sp - Stack.slotSize
  · rw [if_pos full, if_pos full]
    exact Machine.parallel_trap _ related
  · rw [if_neg full, if_neg full]
    refine Parallel.bind (Machine.parallel_ask fun _ => tame.writeSlot _ value) (fun _ => ?_)
      related
    exact setRegisters _

theorem pop : Parallel (Related fun _ => S) (Machine.pop : Action Vm UInt64) := by
  intro m n related
  have top : Host.stackTop n.host = Host.stackTop m.host :=
    congrArg Memory.Region.stop (tame.stack related.host)
  unfold Machine.pop
  rw [related.registers, top]
  dsimp only
  by_cases empty : Host.stackTop m.host ≤ m.registers.sp
  · rw [if_pos empty, if_pos empty]
    exact Machine.parallel_fault _ related
  · rw [if_neg empty, if_neg empty]
    refine Parallel.bind (tame.readSlot _) (fun _ => ?_) related
    exact (setRegisters _).bind fun _ => parallel_pure _

theorem shallow : Shallow (Related fun _ => S) where
  registers := Related.registers
  current := Related.current
  goto _ := setRegisters _
  setResult _ := setRegisters _
  trap := Machine.parallel_trap
  readConstant address _ _ related := related.look (tame.readConstant related.host address)
  push := tame.push
  pop := tame.pop
  top := Machine.parallel_registersOf.bind fun _ => tame.readSlot _
  writeSlot address value := Machine.parallel_ask fun _ => tame.writeSlot address value
  callNative routine arguments := Machine.parallel_ask fun _ => tame.callNative routine arguments
  pushFrame function instruction :=
    Machine.parallel_ask fun _ => tame.pushFrame function instruction
  popFrame := Machine.parallel_ask fun _ => tame.popFrame

theorem copyArguments (arguments left : Nat) :
    Parallel (Related fun _ => S) (Machine.copyArguments arguments left : Action Vm Unit) := by
  induction left with
  | zero => exact parallel_pure ()
  | succ left ih =>
    exact Machine.parallel_registersOf.bind fun _ => (tame.readSlot _).bind fun _ =>
      (tame.push _).bind fun _ => ih

/-- A machine instruction that does not touch the heap keeps the relation. -/
theorem execute (untouched : op.touchesHeap = false) (next : UInt64) :
    Parallel (Related fun _ => S) (Machine.execute next op : Action Vm Unit) := by
  have registersOf := Machine.parallel_registersOf (R := fun _ => S)
  cases deep : op.reachesDown with
  | false => exact tame.shallow.execute deep untouched next
  | true =>
    cases op with
    | enter arguments locals =>
      exact registersOf.bind fun _ => (tame.push _).bind fun _ =>
        (setRegisters _).bind fun _ => (tame.copyArguments _ _).bind fun _ =>
          tame.shallow.pushZeros _
    | leave =>
      exact (setRegisters _).bind fun _ => tame.pop.bind fun _ => setRegisters _
    | ret slots => exact tame.pop.bind fun _ => setRegisters _
    | loadSlot distance =>
      exact registersOf.bind fun _ => (tame.readSlot _).bind fun _ => tame.push _
    | nullCheck depth =>
      exact (registersOf.bind fun _ => tame.readSlot _).bind fun _ =>
        .ite (Machine.parallel_trap _) (parallel_pure _)
    | printCallStack function instruction =>
      exact registersOf.bind fun _ => Machine.parallel_ask fun _ => tame.printCallStack _ _ _
    | collect function instruction => cases untouched
    | _ => cases deep

end

end Tame

namespace Compatible

variable {S : Vm → Vm → Prop}

section

variable (compatible : Compatible S)

include compatible

theorem congruent : Congruent (Related fun _ => S) where
  toShallow := compatible.shallow
  begin_ := Machine.parallel_begin
  fetch address := Machine.parallel_ask fun _ => compatible.fetch address
  load address width _ _ related := related.look (compatible.readHeap related.host address width)
  store address width value := Machine.parallel_ask fun _ => compatible.writeHeap address width value
  newObject type := Machine.parallel_ask fun _ => compatible.newObject type
  newArray type length := Machine.parallel_ask fun _ => compatible.newArray type length

theorem execute (next : UInt64) (op : Op) :
    Parallel (Related fun _ => S) (Machine.execute next op : Action Vm Unit) := by
  cases touched : op.touchesHeap with
  | false => exact compatible.toTame.execute touched next
  | true =>
    cases op with
    | collect function instruction =>
      exact Machine.parallel_registersOf.bind fun _ =>
        Machine.parallel_ask fun _ => compatible.collect _ _ _
    | newObject type | newArray type | loadField width offset | storeField width offset
    | loadElement width | storeElement width | arrayLength =>
      exact compatible.congruent.execute rfl next
    | _ => cases touched

theorem invoke (fuel : Nat) (id : FunctionId) (arguments : List UInt64) :
    Parallel S (invoke fuel id arguments) := by
  intro vm vm' related
  refine both_invoke compatible.congruent (S := S) (I := fun _ => True) ?_ related id arguments
    (compatible.entryFor related id _) (fun entry => ?_) (fun _ _ _ _ => trivial)
    (fun _ _ => trivial) ?_ fuel
  · exact fun m n later => compatible.clearCalls later.host
  · have cleared := compatible.clearCalls related
    have top : Host.stackTop vm'.clearCalls = Host.stackTop vm.clearCalls :=
      congrArg Memory.Region.stop (compatible.stack cleared)
    refine ⟨?_, rfl, cleared⟩
    unfold start
    rw [top]
  · exact fun m n _ later _ => compatible.congruent.step compatible.execute later

theorem runMain (fuel : Nat) : Parallel S (runMain fuel) := by
  refine parallel_get_bind fun vm vm' related => ?_
  rw [compatible.main related]
  cases vm.main with
  | none => exact .error related
  | some id => exact ((compatible.invoke fuel id []).bind fun _ => parallel_pure _) related

end

end Compatible

/-! ## What no run changes -/

def lasting (vm : Vm) : Fixed × Std.HashMap String FunctionId × Option FunctionId :=
  (vm.fixed, vm.signatures, vm.main)

/-- A virtual machine beside itself, with what no run changes. -/
def Standing (kept : Fixed × Std.HashMap String FunctionId × Option FunctionId) (vm vm' : Vm) :
    Prop := vm' = vm ∧ vm.lasting = kept

section Standing

variable {kept : Fixed × Std.HashMap String FunctionId × Option FunctionId} {α : Type}

theorem standing_of_keeps (keeps : ∀ vm, (leaves (request vm)).lasting = vm.lasting) :
    Parallel (Standing kept) request := by
  rintro vm vm' ⟨rfl, same⟩
  have lasts := (keeps vm').trans same
  cases answer : request vm' with
  | ok a later =>
    rw [answer] at lasts
    exact .ok ⟨rfl, lasts⟩
  | error e later =>
    rw [answer] at lasts
    exact .error ⟨rfl, lasts⟩

theorem standing_onCollector {ε : Type} (failed : ε → Stop)
    (act : TypeSystem.TypeTable → EStateM ε Heap.Collector α) :
    Parallel (Standing kept) (onCollector failed act) := by
  refine standing_of_keeps fun vm => ?_
  unfold onCollector
  dsimp only
  split <;> rfl

theorem standing_onCalls (failed : Stack.CallError → Stop)
    {act : EStateM Stack.CallError Stack.CallTable α}
    (lasts : ∀ t, (leaves (act t)).region.base = t.region.base ∧
      (leaves (act t)).region.size = t.region.size ∧ (leaves (act t)).capacity = t.capacity) :
    Parallel (Standing kept) (onCalls failed act) := by
  refine standing_of_keeps fun vm => ?_
  have same := lasts vm.calls
  unfold onCalls
  dsimp only
  split <;> rename_i ran <;> rw [ran] at same <;> simp [leaves, lasting, fixed, program] at same ⊢ <;>
    simp [same]

theorem compatible_standing : Compatible (Standing kept) where
  stack standing := by rw [standing.1]
  readConstant standing _ := by rw [standing.1]
  readHeap standing _ _ := by rw [standing.1]
  entryFor standing _ _ := by rw [standing.1]
  main standing := by rw [standing.1]
  clearCalls standing := ⟨by rw [standing.1], standing.2⟩
  fetch address := standing_of_keeps fun vm => by
    unfold fetch
    split <;> rfl
  writeSlot address value := standing_of_keeps fun vm => by
    unfold writeSlot
    split
    · simp [leaves, lasting, fixed, program]
    · rfl
  writeHeap address width value := standing_of_keeps fun vm => by
    unfold writeHeap
    split <;> rfl
  newObject type := (parallel_ofExcept _).bind fun _ => standing_onCollector _ _
  newArray type length := by
    refine (parallel_ofExcept _).bind fun type => ?_
    split
    · exact standing_of_keeps fun vm => rfl
    · exact standing_onCollector _ _
  collect base function instruction := standing_of_keeps fun vm => by
    obtain ⟨collector, same⟩ := leaves_collect base function instruction vm
    rw [same]
    rfl
  printCallStack base function instruction := standing_of_keeps fun vm => by
    unfold printCallStack
    split <;> rfl
  callNative routine arguments := standing_of_keeps fun vm => by
    unfold callNative
    split <;> rfl
  pushFrame _ _ := standing_onCalls _ fun t => by
    unfold Stack.CallTable.push
    split
    · dsimp only
      split <;> simp [leaves]
    · exact ⟨rfl, rfl, rfl⟩
  popFrame := standing_onCalls _ fun t => by
    unfold Stack.CallTable.pop
    split <;> exact ⟨rfl, rfl, rfl⟩

end Standing

theorem lasting_invoke (fuel : Nat) (id : FunctionId) (arguments : List UInt64) (vm : Vm) :
    (leaves (invoke fuel id arguments vm)).lasting = vm.lasting :=
  (compatible_standing.invoke fuel id arguments ⟨rfl, rfl⟩).leaves.2

theorem lasting_runMain (fuel : Nat) (vm : Vm) :
    (leaves (runMain fuel vm)).lasting = vm.lasting :=
  (compatible_standing.runMain fuel ⟨rfl, rfl⟩).leaves.2

/-- Calls change nothing that a run never changes. -/
theorem Invoked.fixed {admissible : Vm → FunctionId → List UInt64 → Prop} {initial : Vm}
    (invoked : Invoked admissible initial vm) : vm.fixed = initial.fixed := by
  induction invoked with
  | none => rfl
  | more _ fuel id arguments _ ih =>
    exact (congrArg Prod.fst (lasting_invoke fuel id arguments _)).trans ih

end Vm

end ManagedCode
