import ManagedCode.Proofs.Machine.Track

/-!
# Calls from outside

A machine with a loaded program is called any number of times. Each call sets up the stack and then
executes machine instructions, all of which are on the track of the called function.

* `Vm.Loaded`: a machine whose program was just loaded, in memory where it can run.
* `Vm.Visits`: the states of a run that a call comes to. `Vm.Visits.track`: they are on its track.
* `Vm.invoke_cases`: how a call ends, in terms of the states that it visits.
* `Vm.Invoked`: the machines that calls lead to.
-/

namespace ManagedCode

open Bytecode TypeSystem
open Machine (Stop Registers Action haltAddress push pushAll registersOf resume start step)
open Stack (Spells CallTable)

/-! ## Memory -/

/-- What holds of a loaded program and of its memory. -/
structure Fixed.Sound (x : Fixed) : Prop where
  ready : x.program.Ready
  small : x.stackSize ≤ 2 ^ 31
  below : x.stackBase.toNat + x.stackSize < 2 ^ 64
  table : x.callsBase.toNat < 2 ^ 63

/-- The same of a program and a stack of any size. -/
structure Fixed.Grounded (x : Fixed) : Prop where
  ready : x.program.Runnable
  space : x.stackSize ≤ Memory.addressSpace
  below : x.stackBase.toNat + x.stackSize < 2 ^ 64
  table : x.callsBase.toNat < 2 ^ 63

variable {x : Fixed}

theorem Fixed.Sound.grounded (sound : x.Sound) : x.Grounded :=
  ⟨sound.ready, Nat.le_trans sound.small (by decide), sound.below, sound.table⟩

namespace Vm

variable {vm : Vm} {m : Machine Vm} {id : FunctionId} {arguments : List UInt64}

/-- A machine whose program was just loaded. The pages of its code lie apart and neither at the halt
address nor where the routines of the runtime are called; the stack and every body are of a size that
offsets of 32 bits can span. -/
structure Loaded (vm : Vm) : Prop where
  made : ∃ before, Assembled before ∧ load before = .ok () vm
  apart : vm.image.store.Apart
  notHalt : vm.image.store.isCode haltAddress = false
  notNative : ∀ routine : Native, vm.image.store.isCode routine.address = false
  short : ∀ id f, vm.functions.get? id = some f → f.code.size < 2 ^ 31
  small : vm.stack.size < 2 ^ 31

/-- The same of a machine of any size. -/
structure Runnable (vm : Vm) : Prop where
  made : ∃ before, Assembled before ∧ load before = .ok () vm
  apart : vm.image.store.Apart
  notHalt : vm.image.store.isCode haltAddress = false
  notNative : ∀ routine : Native, vm.image.store.isCode routine.address = false

theorem Loaded.runnable (loaded : vm.Loaded) : vm.Runnable :=
  ⟨loaded.made, loaded.apart, loaded.notHalt, loaded.notNative⟩

structure Fresh (vm : Vm) : Prop where
  heap : ∃ size, vm.collector.heap = ⟨.zeroed Heap.heapBase size, 0⟩ ∧ size < Memory.addressSpace
  stack : ∃ size, vm.stack = .zeroed Stack.stackBase size ∧ size < Memory.addressSpace
  calls : ∃ capacity, vm.calls
      = ⟨.zeroed CallTable.tableBase (Memory.roundToPages (CallTable.tableSize capacity)), capacity,
        0⟩ ∧ Memory.roundToPages (CallTable.tableSize capacity) < Memory.addressSpace

variable {size : Nat}

theorem commit_eq_ok {base : UInt64} {r : Memory.Region}
    (committed : Memory.Region.commit base size = .ok r) :
    r = .zeroed base (Memory.roundToPages size) ∧ Memory.roundToPages size < Memory.addressSpace := by
  unfold Memory.Region.commit at committed
  dsimp only at committed
  split at committed
  · cases committed
    exact ⟨rfl, ‹_›⟩
  · cases committed

variable {ε : Type}

theorem except_map_eq_ok {α β : Type} {f : α → β} {r : Except ε α} {b : β}
    (mapped : r.map f = .ok b) : ∃ a, r = .ok a ∧ f a = b := by
  cases r with
  | error e => cases mapped
  | ok a =>
    cases mapped
    exact ⟨a, rfl, rfl⟩

theorem fresh_of_create {settings : Settings} (made : create settings = .ok vm) : Fresh vm := by
  obtain ⟨collector, stack, calls, hasHeap, hasStack, hasCalls, rfl⟩ := create_eq_ok made
  obtain ⟨arena, committed, rfl⟩ := except_map_eq_ok hasHeap
  obtain ⟨region, hasRegion, rfl⟩ := except_map_eq_ok committed
  obtain ⟨rfl, small⟩ := commit_eq_ok hasRegion
  obtain ⟨rfl, small'⟩ := commit_eq_ok hasStack
  obtain ⟨table, committed', rfl⟩ := except_map_eq_ok hasCalls
  obtain ⟨rfl, small''⟩ := commit_eq_ok committed'
  exact ⟨⟨_, rfl, small⟩, ⟨_, rfl, small'⟩, ⟨_, rfl, small''⟩⟩

section Loaded

variable {vm : Vm}

theorem Runnable.prepared (runnable : vm.Runnable) :
    Prepared vm ∧ vm.loaded = true ∧ Compile.Linked vm.types vm.functions vm.image ∧
      ∀ id f, vm.functions.get? id = some f → f.HasBody → CheckedIn vm.types vm.functions f := by
  obtain ⟨before, assembled, load⟩ := runnable.made
  exact load_linked assembled.prepared load runnable.apart

theorem Runnable.fresh (runnable : vm.Runnable) : Fresh vm := by
  obtain ⟨initial, made, heap, stack, calls⟩ := runnable.prepared.1.fresh
  have fresh := fresh_of_create made
  exact ⟨by rw [heap]; exact fresh.heap, by rw [stack]; exact fresh.stack,
    by rw [calls]; exact fresh.calls⟩

theorem Runnable.grounded (runnable : vm.Runnable) : vm.fixed.Grounded := by
  obtain ⟨prepared, _, linked, checked⟩ := runnable.prepared
  have fresh := runnable.fresh
  obtain ⟨size, same, small⟩ := fresh.stack
  refine ⟨⟨prepared.types.wellFormed, prepared.functions, linked, checked, runnable.apart,
    runnable.notHalt, runnable.notNative⟩, ?_, ?_, ?_⟩
  · show vm.stack.size ≤ Memory.addressSpace
    rw [same]
    exact Nat.le_of_lt small
  · show vm.stack.base.toNat + vm.stack.size < 2 ^ 64
    rw [same]
    exact Nat.lt_trans (Nat.add_lt_add_left small _)
      (show Stack.stackBase.toNat + Memory.addressSpace < 2 ^ 64 by decide)
  · obtain ⟨capacity, same, _⟩ := fresh.calls
    show vm.calls.region.base.toNat < 2 ^ 63
    rw [same]
    exact (show CallTable.tableBase.toNat < 2 ^ 63 by decide)

theorem Loaded.prepared (loaded : vm.Loaded) :
    Prepared vm ∧ vm.loaded = true ∧ Compile.Linked vm.types vm.functions vm.image ∧
      ∀ id f, vm.functions.get? id = some f → f.HasBody → CheckedIn vm.types vm.functions f :=
  loaded.runnable.prepared

theorem Loaded.fresh (loaded : vm.Loaded) : Fresh vm := loaded.runnable.fresh

theorem Loaded.sound (loaded : vm.Loaded) : vm.fixed.Sound :=
  have grounded := loaded.runnable.grounded
  ⟨⟨grounded.ready, loaded.short⟩, Nat.le_of_lt loaded.small, grounded.below, grounded.table⟩

end Loaded

/-! ## The start of a run -/

/-- The words on the stack when a called function starts. -/
def bottom (arguments : List UInt64) : List UInt64 := haltAddress :: arguments.reverse

/-- A call has put its arguments on the stack and is at the entry of the function. -/
def Starts (vm : Vm) (id : FunctionId) (arguments : List UInt64) (m : Machine Vm) : Prop :=
  ∃ entry, vm.entryFor id arguments.length = .ok entry ∧
    (do pushAll arguments; push haltAddress : Action Vm Unit)
      (start vm.clearCalls entry) = .ok () m

/-- A state that a call comes to. -/
def Visits (vm : Vm) (id : FunctionId) (arguments : List UInt64) (m : Machine Vm) : Prop :=
  ∃ m₀, vm.Starts id arguments m₀ ∧ Steps m₀ m

section Start

variable {vm : Vm} {id : FunctionId} {arguments : List UInt64} {entry : UInt64} {m : Machine Vm}

theorem shows_start (below : vm.stack.base.toNat + vm.stack.size < 2 ^ 64) (entry : UInt64) :
    Shows vm.fixed ⟨entry, 0, 0, [], [], vm.world⟩ (start vm.clearCalls entry) := by
  have top : vm.fixed.place ([] : List UInt64).length = vm.stack.stop := by
    show UInt64.ofNat (vm.stack.base.toNat + vm.stack.size - 8 * 0) = _
    rw [Nat.mul_zero, Nat.sub_zero, UInt64.ofNat_add, UInt64.ofNat_toNat]
    rfl
  refine ⟨rfl, rfl, ?_, ?_, Stack.CallTable.lists_clear _⟩
  · unfold View.registers
    rw [top]
    rfl
  · rw [top]
    exact Spells.empty below

variable {v : View}

theorem gives_pushAll {E : Stop → World → Prop}
    (overflow : ∀ address, E (.trap (.stackExhausted address)) v.world) (arguments : List UInt64) :
    Gives x v (pushAll arguments) () { v with words := arguments.reverse ++ v.words } E := by
  induction arguments generalizing v with
  | nil => exact gives_pure ()
  | cons value rest ih =>
    unfold pushAll
    have later := ih (v := { v with words := value :: v.words }) overflow
    rw [show rest.reverse ++ value :: v.words = (value :: rest).reverse ++ v.words by simp] at later
    exact (gives_push overflow).bind later

theorem gives_start {world : World} (entry : UInt64) (arguments : List UInt64) :
    Gives x ⟨entry, 0, 0, [], [], world⟩
      (do pushAll arguments; push haltAddress) ()
      ⟨entry, 0, 0, bottom arguments, [], world⟩
      fun e w => e.trapKind? = some .stackOverflow ∧ w = world := by
  have pushed := gives_pushAll (x := x) (v := ⟨entry, 0, 0, [], [], world⟩)
    (E := fun e w => e.trapKind? = some .stackOverflow ∧ w = world) (fun _ => ⟨rfl, rfl⟩) arguments
  rw [List.append_nil] at pushed
  exact pushed.bind (gives_push fun _ => ⟨rfl, rfl⟩)

theorem entryFor_eq_ok (ready : vm.program.Runnable)
    (found : vm.entryFor id arguments.length = .ok entry) :
    ∃ f k, vm.program.Code id f k ∧ k.entry = entry ∧ f.argumentCount = arguments.length := by
  unfold entryFor at found
  split at found
  · split at found
    · cases found
    · rename_i f known
      split at found
      · cases found
      · rename_i count
        split at found
        · rename_i entry' cached
          cases found
          obtain ⟨k, compiled, rfl⟩ := Option.map_eq_some_iff.mp cached
          obtain ⟨f', code⟩ := ready.code_of_cached compiled
          cases code.found.symm.trans known
          exact ⟨f, k, code, rfl, Decidable.not_not.mp count⟩
        · cases found
  · cases found

theorem Starts.shows (starts : vm.Starts id arguments m) (grounded : vm.fixed.Grounded) :
    ∃ f k, vm.program.Code id f k ∧ f.argumentCount = arguments.length ∧
      Shows vm.fixed ⟨k.entry, 0, 0, bottom arguments, [], vm.world⟩ m := by
  obtain ⟨entry, found, ran⟩ := starts
  obtain ⟨f, k, code, rfl, count⟩ := entryFor_eq_ok grounded.ready found
  have after := gives_start k.entry arguments _ (shows_start grounded.below k.entry)
  rw [ran] at after
  obtain ⟨v, shows_, _, rfl⟩ := after
  exact ⟨f, k, code, count, shows_⟩

/-- The words above the return address of a call from outside are its arguments. -/
theorem spine_start (x : Fixed) (arguments : List UInt64) :
    spine x (bottom arguments) [] = haltAddress :: (arguments.reverse ++ []) := by
  rw [List.append_nil]
  rfl

/-- A call starts on the track of the function. -/
theorem Starts.track (starts : vm.Starts id arguments m) (sound : vm.fixed.Sound) :
    ∃ f, vm.functions.get? id = some f ∧ f.HasBody ∧ f.argumentCount = arguments.length ∧
      Setting vm.fixed id (bottom arguments) ∧
      Track vm.fixed (bottom arguments) (Words.start id f arguments vm.world) m := by
  obtain ⟨f, k, code, count, shows_⟩ := starts.shows sound.grounded
  have ready := sound.ready
  refine ⟨f, code.found, code.body, count, ⟨ready, sound.small, sound.table, f, arguments.reverse,
    code.found, rfl, ?_⟩, .entering shows_ (ready.interior_entry code) ⟨_, code.enter, rfl⟩ rfl rfl
      ?_⟩
  · exact Nat.le_of_eq (count.trans List.length_reverse.symm)
  · exact leads_enter ready code (bottom arguments) [] vm.world (spine_start _ arguments) count.symm
      shows_

theorem starts_of_gives (below : vm.stack.base.toNat + vm.stack.size < 2 ^ 64)
    (found : vm.entryFor id arguments.length = .ok entry)
    (started : Gives vm.fixed ⟨entry, 0, 0, [], [], vm.world⟩
      (do pushAll arguments; push haltAddress) () v fun _ _ => False) :
    ∃ m, vm.Starts id arguments m ∧ Shows vm.fixed v m := by
  have after := started _ (shows_start below entry)
  cases pushed : (do pushAll arguments; push haltAddress : Action Vm Unit)
      (start vm.clearCalls entry) with
  | error e m =>
    rw [pushed] at after
    exact after.2.elim
  | ok _ m =>
    rw [pushed] at after
    obtain ⟨_, shown, _, rfl⟩ := after
    exact ⟨m, ⟨_, found, pushed⟩, shown⟩

end Start

/-! ## Whole runs -/

theorem resume_zero (m : Machine Vm) :
    resume 0 m = .ok (if m.registers.ip = haltAddress then
      some m.registers.result else none) m :=
  rfl

theorem resume_halted (halted : m.registers.ip = haltAddress) (fuel : Nat) :
    resume (fuel + 1) m = .ok (some m.registers.result) m := by
  unfold resume
  rw [bind_of_ok (show registersOf m = .ok m.registers m from rfl), if_pos halted]
  rfl

theorem resume_running (running : m.registers.ip ≠ haltAddress) (fuel : Nat) :
    resume (fuel + 1) m
      = (do step; resume fuel : Action Vm (Option UInt64)) m := by
  conv => lhs; unfold resume
  rw [bind_of_ok (show registersOf m = .ok m.registers m from rfl), if_neg running]

/-- How the steps of a machine end. -/
theorem resume_cases (fuel : Nat) (m : Machine Vm) :
    match resume fuel m with
    | .ok answer m' => Steps m m' ∧
        answer = if m'.registers.ip = haltAddress then some m'.registers.result else none
    | .error e m' => ∃ last, Steps m last ∧ last.registers.ip ≠ haltAddress ∧
        step last = .error e m' := by
  induction fuel generalizing m with
  | zero => exact ⟨.refl, rfl⟩
  | succ fuel ih =>
    by_cases halted : m.registers.ip = haltAddress
    · rw [resume_halted halted]
      exact ⟨.refl, (if_pos halted).symm⟩
    · rw [resume_running halted]
      cases stepped : step m with
      | error e m' =>
        rw [bind_of_error stepped]
        exact ⟨m, .refl, halted, stepped⟩
      | ok _ next =>
        rw [bind_of_ok stepped]
        have later := ih next
        cases rest : resume fuel next with
        | ok answer m' =>
          rw [rest] at later
          exact ⟨.head ⟨halted, stepped⟩ later.1, later.2⟩
        | error e m' =>
          rw [rest] at later
          obtain ⟨last, steps, running, failed⟩ := later
          exact ⟨last, .head ⟨halted, stepped⟩ steps, running, failed⟩

/-- How a call ends.

* `refused`: it is not one of a compiled function with so many arguments.
* `cramped`: the arguments do not fit on the stack.
* `stopped`: a machine instruction stops the run.
* `paused`: the function has not returned after so many steps.
* `returned`: it has. -/
inductive Ends (vm : Vm) (id : FunctionId) (arguments : List UInt64) :
    EStateM.Result VmError Vm (Option UInt64) → Prop where
  | refused {e : VmError} (refusal : vm.entryFor id arguments.length = .error e) :
      Ends vm id arguments (.error e vm)
  | cramped {e : Stop} {m : Machine Vm} (exhausted : e.trapKind? = some .stackOverflow)
      (fixed : m.host.fixed = vm.fixed) (world : m.host.world = vm.world) :
      Ends vm id arguments (.error (.stopped e) m.host.clearCalls)
  | stopped {e : Stop} {m m' : Machine Vm} (visits : vm.Visits id arguments m)
      (running : m.registers.ip ≠ haltAddress) (failed : step m = .error e m') :
      Ends vm id arguments (.error (.stopped e) m'.host.clearCalls)
  | paused {m : Machine Vm} (visits : vm.Visits id arguments m)
      (running : m.registers.ip ≠ haltAddress) :
      Ends vm id arguments (.ok none m.host.clearCalls)
  | returned {m : Machine Vm} (visits : vm.Visits id arguments m)
      (halted : m.registers.ip = haltAddress) :
      Ends vm id arguments (.ok (some m.registers.result) m.host.clearCalls)

theorem invoke_of_refusal {e : VmError} (refusal : vm.entryFor id arguments.length = .error e)
    (fuel : Nat) : invoke fuel id arguments vm = .error e vm := by
  unfold invoke
  rw [get_bind, refusal]
  rfl

theorem invoke_of_entryFor {entry : UInt64} (found : vm.entryFor id arguments.length = .ok entry)
    (fuel : Nat) : invoke fuel id arguments vm = runAt fuel entry arguments vm := by
  unfold invoke
  rw [get_bind, found]
  rfl

theorem run_eq (fuel : Nat) (arguments : List UInt64) :
    (Machine.run fuel arguments : Action Vm (Option UInt64)) = (do
      (do pushAll arguments; push haltAddress : Action Vm Unit)
      resume fuel) := by
  unfold Machine.run
  rw [bind_assoc]

/-- A call that has put its arguments on the stack executes machine instructions. -/
theorem invoke_of_starts (starts : vm.Starts id arguments m) (fuel : Nat) :
    invoke fuel id arguments vm
      = match resume fuel m with
        | .ok answer m' => .ok answer m'.host.clearCalls
        | .error e m' => .error (.stopped e) m'.host.clearCalls := by
  obtain ⟨entry, found, pushed⟩ := starts
  have ran : Machine.run fuel arguments (start vm.clearCalls entry)
      = resume fuel m := by
    rw [run_eq, bind_of_ok pushed]
  rw [invoke_of_entryFor found]
  unfold runAt
  cases resumed : resume fuel m <;> rw [ran, resumed]

section

variable (below : vm.stack.base.toNat + vm.stack.size < 2 ^ 64)

include below

/-- A call is refused, or its arguments do not fit on the stack, or it starts. -/
theorem starts_cases (id : FunctionId) (arguments : List UInt64) :
    (∃ e, vm.entryFor id arguments.length = .error e) ∨
      (∃ (e : Stop) (m : Machine Vm), e.trapKind? = some .stackOverflow ∧
        m.host.fixed = vm.fixed ∧ m.host.world = vm.world ∧
        ∀ fuel, invoke fuel id arguments vm = .error (.stopped e) m.host.clearCalls) ∨
      ∃ m, vm.Starts id arguments m := by
  cases found : vm.entryFor id arguments.length with
  | error e => exact .inl ⟨e, rfl⟩
  | ok entry =>
    have after := gives_start entry arguments _ (shows_start below entry)
    cases pushed : (do pushAll arguments; push haltAddress :
        Action Vm Unit) (start vm.clearCalls entry) with
    | error e m =>
      rw [pushed] at after
      refine .inr (.inl ⟨e, m, after.2.1, after.1, after.2.2, fun fuel => ?_⟩)
      rw [invoke_of_entryFor found]
      unfold runAt
      rw [run_eq, bind_of_error pushed]
    | ok _ m => exact .inr (.inr ⟨m, entry, found, pushed⟩)

theorem invoke_ends (fuel : Nat) (id : FunctionId) (arguments : List UInt64) :
    Ends vm id arguments (invoke fuel id arguments vm) := by
  rcases starts_cases below id arguments with
    ⟨e, refusal⟩ | ⟨e, m, exhausted, fixed, world, failed⟩ | ⟨m, starts⟩
  · rw [invoke_of_refusal refusal]
    exact .refused refusal
  · rw [failed]
    exact .cramped exhausted fixed world
  · rw [invoke_of_starts starts]
    have cases_ := resume_cases fuel m
    cases resumed : resume fuel m with
    | error e m' =>
      rw [resumed] at cases_
      obtain ⟨last, steps, running, failed⟩ := cases_
      exact .stopped ⟨m, starts, steps⟩ running failed
    | ok answer m' =>
      rw [resumed] at cases_
      obtain ⟨steps, rfl⟩ := cases_
      dsimp only
      split
      · exact .returned ⟨m, starts, steps⟩ ‹_›
      · exact .paused ⟨m, starts, steps⟩ ‹_›

end

section Visits

variable {vm : Vm} {id : FunctionId} {arguments : List UInt64} {m : Machine Vm}

theorem shaped_start {f : Function} (ready : vm.program.Runnable)
    (found : vm.functions.get? id = some f) (body : f.HasBody)
    (count : f.argumentCount = arguments.length) :
    (Words.start id f arguments vm.world).Shaped vm.functions id := by
  refine fits_start ready admits_true found body ?_ vm.world
  exact List.forall₂_iff_get.mpr ⟨count, fun _ _ _ => trivial⟩

/-- The states that a call comes to are on its track. -/
theorem Visits.track (visits : vm.Visits id arguments m) (sound : vm.fixed.Sound) :
    ∃ f, vm.functions.get? id = some f ∧ f.HasBody ∧ f.argumentCount = arguments.length ∧
      Setting vm.fixed id (bottom arguments) ∧
      (Words.start id f arguments vm.world).Shaped vm.functions id ∧
      Track vm.fixed (bottom arguments) (Words.start id f arguments vm.world) m := by
  obtain ⟨m₀, starts, steps⟩ := visits
  obtain ⟨f, found, body, count, setting, track⟩ := starts.track sound
  have shaped := shaped_start sound.ready.toRunnable found body count
  exact ⟨f, found, body, count, setting, shaped, track.steps setting shaped steps⟩

end Visits

/-! ## Histories -/

/-- The machines that calls lead to. Each call may be asked to be admissible; it may fail, and it may
be given up before the function returns. -/
inductive Invoked (admissible : Vm → FunctionId → List UInt64 → Prop) (initial : Vm) : Vm → Prop where
  | none : Invoked admissible initial initial
  | more {vm : Vm} (before : Invoked admissible initial vm) (fuel : Nat) (id : FunctionId)
      (arguments : List UInt64) (good : admissible vm id arguments) :
      Invoked admissible initial (leaves (invoke fuel id arguments vm))

/-! ## A program

A function that asks for a collection and returns seven. -/

namespace Sample

def settings : Settings := { heapSize := 64, stackSize := 64, callCapacity := 1 }

def definition : Definition := .free "seven" [] .int

def body : Body := ⟨[], #[.call (native .collect), .loadInt 7, .ret]⟩

/-- The handle of the function, which comes after those of the runtime. -/
def seven : FunctionId := ⟨5, 0⟩

def empty : Vm where
  settings := settings
  types := .primitives
  functions := nativeFunctions.1
  signatures := nativeFunctions.2
  image := .empty codePageSize
  collector := ⟨⟨.zeroed Heap.heapBase (Memory.roundToPages 64), 0⟩, {}, {}, settings.journal⟩
  stack := .zeroed Stack.stackBase (Memory.roundToPages 64)
  calls := ⟨.zeroed CallTable.tableBase (Memory.roundToPages (CallTable.tableSize 1)), 1, 0⟩
  output := ""
  main := none
  loaded := false

def assembled : Vm := leaves (define seven body (leaves (register definition empty)))

def machine : Vm := leaves (load assembled)

theorem except_eq_ok {r : Except ε Unit} (good : r.isOk = true) : r = .ok () := by
  cases r with
  | ok => rfl
  | error => cases good

/-- The hash of a text does not compute, so that the signatures are compared one by one. -/
theorem unused_of_natives {text : String} (unused : ∀ routine : Native,
    (routine.definition.signature .primitives == text) = false) :
    empty.signatures.contains text = false := by
  show nativeFunctions.2.contains text = false
  simp only [nativeFunctions, Native.all, List.foldl, Std.HashMap.contains_insert,
    Std.HashMap.contains_empty, unused, Bool.or_false]

variable {d : Definition}

theorem declare_eq (open_ : vm.loaded = false)
    (known : (vm.types.resolveAll (d.parameters ++ [d.returnType] ++ d.owner.toList)).isOk = true)
    (shaped : (isMain d && (!d.parameters.isEmpty || d.returnType != .int)) = false)
    (unused : vm.signatures.contains (d.signature vm.types) = false) :
    declare d vm = register d vm := by
  have unloaded : requireUnloaded vm = .ok () vm := by
    unfold requireUnloaded
    rw [get_bind, open_]
    rfl
  have checked : vm.checkDefinition d = .ok () := by
    unfold checkDefinition
    dsimp only
    rw [except_eq_ok known, unused, shaped]
    rfl
  unfold declare
  rw [bind_of_ok unloaded, get_bind, checked]
  rfl

theorem assembled_register (made : Assembled vm) (open_ : vm.loaded = false)
    (known : (vm.types.resolveAll (d.parameters ++ [d.returnType] ++ d.owner.toList)).isOk = true)
    (shaped : (isMain d && (!d.parameters.isEmpty || d.returnType != .int)) = false)
    (unused : vm.signatures.contains (d.signature vm.types) = false) :
    Assembled (leaves (register d vm)) :=
  declare_eq open_ known shaped unused ▸ .declare _ made

theorem commit_eq (base : UInt64) (small : Memory.roundToPages size < Memory.addressSpace) :
    Memory.Region.commit base size = .ok (.zeroed base (Memory.roundToPages size)) :=
  if_pos small

theorem create_eq : create settings = .ok empty := by
  unfold create Heap.Collector.commit Heap.Arena.commit Stack.commitStack CallTable.commit
  rw [commit_eq _ (by decide), commit_eq _ (by decide), commit_eq _ (by decide)]
  rfl

theorem assembled_assembled : Assembled assembled := by
  have unused : empty.signatures.contains (definition.signature empty.types) = false := by
    refine unused_of_natives fun routine => ?_
    cases routine <;> decide +kernel
  exact .define _ _ (assembled_register (.create create_eq) rfl (by decide +kernel)
    (by decide +kernel) unused)

/-- Whether a program loads, with code and a stack that lie as they have to. -/
def loadsWell (vm : Vm) : Bool :=
  match load vm with
  | .ok _ u => decide u.image.store.Apart && (!u.image.store.isCode haltAddress &&
      (Native.all.all (fun routine => !u.image.store.isCode routine.address) &&
      (u.functions.toList.all (fun entry => decide (entry.2.code.size < 2 ^ 31)) &&
        decide (u.stack.size < 2 ^ 31))))
  | .error .. => false

theorem loaded_of_loadsWell (made : Assembled vm) (well : loadsWell vm = true) :
    load vm = .ok () (leaves (load vm)) ∧ (leaves (load vm)).Loaded := by
  unfold loadsWell at well
  cases run : load vm with
  | error e u =>
    rw [run] at well
    cases well
  | ok _ u =>
    rw [run] at well
    simp only [Bool.and_eq_true, decide_eq_true_eq, Bool.not_eq_true', List.all_eq_true] at well
    obtain ⟨apart, notHalt, notNative, short, small⟩ := well
    refine ⟨rfl, ⟨vm, made, run⟩, apart, notHalt, fun routine => notNative routine ?_,
      fun id f found => short _ (SlotTable.mem_toList_of_get? found), small⟩
    cases routine <;> decide

theorem assembled_loads : load assembled = .ok () machine ∧ machine.Loaded :=
  loaded_of_loadsWell assembled_assembled (by decide +kernel)

theorem load_eq : load assembled = .ok () machine := assembled_loads.1

theorem loaded : machine.Loaded := assembled_loads.2

/-- Whether a result is the given word. -/
def yields {ε : Type} (value : UInt64) : Except ε UInt64 → Bool
  | .ok found => found == value
  | .error _ => false

theorem eq_ok_of_yields {r : Except ε UInt64} {value : UInt64} (good : yields value r = true) :
    r = .ok value := by
  cases r with
  | ok found => exact congrArg Except.ok (eq_of_beq good)
  | error e => cases good

end Sample

end Vm

end ManagedCode
