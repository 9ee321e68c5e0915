import ManagedCode.Proofs.Heap.Bookkeeping
import ManagedCode.Proofs.Machine.View

/-!
# What machine instructions do to a view

Rules for the requests that a machine makes of the runtime, and from them what the instructions do
that stay inside one frame.

* `gives_load`, `gives_store`, `gives_newObject`, `gives_newArray`: the heap.
* `gives_pushFrame`, `gives_popFrame`: the table of calls.
* `Leads`: where a machine gets to, with `leads_last` and `leads_more` for one instruction.
-/

namespace ManagedCode

open Bytecode TypeSystem
open Heap (HeapOnly Collector)
open Machine (Action Stop Trap NullUse Registers Host ask execute haltAddress load loadFrom?
  popObject step store storeTo)
open Memory (CodeStore)
open Stack (ActiveCall CallTable)
open Target (Op Width)

section Rules

variable {x : Fixed} {v u : View} {α : Type} {E : Stop → World → Prop}
variable {world : World} {Q : UInt64 → View → Prop} {type : TypeId} {length : Int32}
  {address object w : UInt64} {width : Width}

/-! ## Registers and words -/

theorem gives_goto (address : UInt64) :
    Gives x v (Machine.goto address) () { v with ip := address } E :=
  gives_setRegisters 0 (Nat.zero_le _) rfl rfl rfl rfl

theorem gives_setResult (w : UInt64) :
    Gives x v (Machine.setRegisters ({ · with result := w })) () { v with result := w } E :=
  gives_setRegisters 0 (Nat.zero_le _) rfl rfl rfl rfl

theorem gives_peek {depth : UInt16} (here : v.words[depth.toNat]? = some w) :
    Gives x v (Machine.peek depth) w v E := by
  intro m shows_
  have bound := (List.getElem?_eq_some_iff.mp here).1
  have place : (v.registers x).sp + depth.toUInt64 * Stack.slotSize
      = x.place (v.words.length - depth.toNat) := by
    rw [shows_.place_sub (Nat.le_of_lt bound)]
    show x.place v.words.length + depth.toUInt64 * 8 = _
    congr 1
    apply UInt64.toNat_inj.mp
    rw [UInt64.toNat_mul, UInt16.toNat_toUInt64, UInt64.toNat_ofNat', show UInt64.toNat 8 = 8 from rfl,
      Nat.mul_comm]
  exact gives_registersOf.bind (gives_readSlot depth.toNat here place) m shows_

theorem does_popObject {use : NullUse} {rest : List UInt64} (top : v.words = object :: rest)
    (null : object = 0 → E (.trap (.null use)) v.world)
    (good : object ≠ 0 → Q object { v with words := rest }) :
    Does x v (popObject use) Q E := by
  unfold popObject
  refine (gives_pop top).bind ?_
  split
  · rename_i zero
    exact does_trap (null zero)
  · rename_i some
    exact (gives_pure object).does (good some)

/-! ## The heap -/

theorem heap_of_shows {m : Machine Vm} (shows_ : Shows x v m) :
    m.host.collector.heap = v.world.heap :=
  congrArg World.heap shows_.world

theorem gives_load (found : Words.load? v.world address width = some w) :
    Gives x v (load address width) w v E := by
  intro m shows_
  have answer : Host.load m.host address width = .ok w := by
    show Vm.readHeap m.host address width = .ok w
    unfold Vm.readHeap
    rw [heap_of_shows shows_, show loadFrom? v.world.heap.region address width = some w
      from found]
  have run : load address width m = .ok w m := look_eq answer
  rw [run]
  exact ⟨v, shows_, rfl, rfl⟩

theorem does_load_none (none : Words.load? v.world address width = none)
    (stops : ∀ e, E e v.world) : Does x v (load address width) Q E := by
  intro m shows_
  have answer : Host.load m.host address width
      = .error (.fault address "heap read outside the heap") := by
    show Vm.readHeap m.host address width = _
    unfold Vm.readHeap
    rw [heap_of_shows shows_, show loadFrom? v.world.heap.region address width = .none
      from none]
  have run : load address width m = .error _ m := look_error answer
  rw [run]
  refine ⟨shows_.fixed, ?_⟩
  rw [shows_.world]
  exact stops _

theorem gives_store (stored : Words.store? v.world address width w = some world) :
    Gives x v (store address width w) () { v with world } E := by
  intro m shows_
  unfold Words.store? at stored
  split at stored
  · rename_i inside
    cases stored
    rw [← heap_of_shows shows_] at inside
    have answer : Host.store address width w m.host = .ok () { m.host with
        collector := Vm.onHeap (storeTo · address width w) m.host.collector } := by
      show Vm.writeHeap address width w m.host = _
      unfold Vm.writeHeap
      rw [if_pos inside]
    have run : store address width w m = .ok () ⟨m.registers, m.current, { m.host with
        collector := Vm.onHeap (storeTo · address width w) m.host.collector }⟩ :=
      ask_eq answer
    rw [run]
    refine ⟨{ v with world := { v.world with heap := { v.world.heap with
      region := storeTo v.world.heap.region address width w } } },
      ⟨shows_.fixed, ?_, shows_.registers, shows_.spells, shows_.lists⟩, rfl, rfl⟩
    rw [← shows_.world]
    rfl
  · cases stored

theorem does_store_none {Q : Unit → View → Prop}
    (none : Words.store? v.world address width w = none) (stops : ∀ e, E e v.world) :
    Does x v (store address width w) Q E := by
  intro m shows_
  unfold Words.store? at none
  split at none
  · cases none
  · rename_i outside
    rw [← heap_of_shows shows_] at outside
    have answer : Host.store address width w m.host
        = .error (.fault address "heap write outside the heap") m.host := by
      show Vm.writeHeap address width w m.host = _
      unfold Vm.writeHeap
      rw [if_neg outside]
    have run : store address width w m = .error _ ⟨m.registers, m.current, m.host⟩ :=
      ask_error answer
    rw [run]
    refine ⟨shows_.fixed, ?_⟩
    show E _ m.host.world
    rw [shows_.world]
    exact stops _

variable {ε : Type} {act : TypeTable → EStateM ε Collector α} {a : α} {vm : Vm} {calls : CallTable}

theorem gives_onCollector {failed : ε → Stop} (only : HeapOnly (act x.program.types))
    (ran : v.world.effect (act x.program.types) = .ok a world) :
    Gives x v (ask (Vm.onCollector failed act)) a { v with world } E := by
  intro m shows_
  have types : m.host.types = x.program.types := congrArg Program.types shows_.program
  rw [only.effect (heap_of_shows shows_)] at ran
  cases acted : act x.program.types m.host.collector with
  | error e c =>
    rw [acted] at ran
    cases ran
  | ok b c =>
    rw [acted] at ran
    cases ran
    have answer : Vm.onCollector failed act m.host = .ok a { m.host with collector := c } := by
      unfold Vm.onCollector
      dsimp only
      rw [types, acted]
    rw [ask_eq answer]
    refine ⟨{ v with world := { v.world with heap := c.heap } }, ⟨shows_.fixed, ?_, shows_.registers, shows_.spells, shows_.lists⟩, rfl, rfl⟩
    rw [← shows_.world]
    rfl

theorem does_onCollector_error {failed : ε → Stop} (only : HeapOnly (act x.program.types)) {e : ε}
    {Q : α → View → Prop} (ran : v.world.effect (act x.program.types) = .error e world)
    (stops : E (failed e) world) : Does x v (ask (Vm.onCollector failed act)) Q E := by
  intro m shows_
  have types : m.host.types = x.program.types := congrArg Program.types shows_.program
  rw [only.effect (heap_of_shows shows_)] at ran
  cases acted : act x.program.types m.host.collector with
  | ok b c =>
    rw [acted] at ran
    cases ran
  | error e' c =>
    rw [acted] at ran
    cases ran
    have answer : Vm.onCollector failed act m.host
        = .error (failed e) { m.host with collector := c } := by
      unfold Vm.onCollector
      dsimp only
      rw [types, acted]
    rw [ask_error answer]
    refine ⟨shows_.fixed, ?_⟩
    rw [← shows_.world] at stops
    exact stops

theorem typeOf_raw (type : TypeId) : Vm.typeOf type.raw = .ok type := by
  unfold Vm.typeOf
  rw [TypeId.ofRaw?_raw]

theorem newObject_eq (type : TypeId) :
    Vm.newObject type.raw = Vm.onCollector Vm.allocationFailed (Collector.newObject · type) := by
  unfold Vm.newObject
  rw [typeOf_raw]
  rfl

theorem gives_newObject
    (ran : v.world.effect (Collector.newObject x.program.types type) = .ok object world) :
    Gives x v (ask (Host.newObject type.raw)) object { v with world } E := by
  show Gives x v (ask (Vm.newObject type.raw)) object { v with world } E
  rw [newObject_eq]
  exact gives_onCollector Heap.heapOnly_newObject ran

variable {e : Heap.AllocationError} {failed : Stack.CallError → Stop}

theorem does_newObject_error
    (ran : v.world.effect (Collector.newObject x.program.types type) = .error e world)
    (stops : E (Vm.allocationFailed e) world) : Does x v (ask (Host.newObject type.raw)) Q E := by
  show Does x v (ask (Vm.newObject type.raw)) Q E
  rw [newObject_eq]
  exact does_onCollector_error Heap.heapOnly_newObject ran stops

theorem newArray_raw (type : TypeId) (length : Int32) (vm : Vm) :
    Vm.newArray type.raw length vm = (do
      if length < 0 then throw (.trap (.negativeLength ((← get).types.name type) length))
      Vm.onCollector Vm.allocationFailed (Collector.newArray · type length.toInt) :
        EStateM Stop Vm UInt64) vm := by
  unfold Vm.newArray
  rw [typeOf_raw]
  rfl

/-- The request for an array whose length is not negative. -/
theorem newArray_eq (type : TypeId) (natural : ¬ length < 0) :
    Vm.newArray type.raw length
      = Vm.onCollector Vm.allocationFailed (Collector.newArray · type length.toInt) := by
  funext vm
  rw [newArray_raw, if_neg natural]

theorem gives_newArray (natural : ¬ length < 0)
    (ran : v.world.effect (Collector.newArray x.program.types type length.toInt)
      = .ok object world) :
    Gives x v (ask (Host.newArray type.raw length)) object { v with world } E := by
  show Gives x v (ask (Vm.newArray type.raw length)) object { v with world } E
  rw [newArray_eq type natural]
  exact gives_onCollector (Heap.heapOnly_newArray _) ran

theorem does_newArray_error (natural : ¬ length < 0)
    (ran : v.world.effect (Collector.newArray x.program.types type length.toInt) = .error e world)
    (stops : E (Vm.allocationFailed e) world) :
    Does x v (ask (Host.newArray type.raw length)) Q E := by
  show Does x v (ask (Vm.newArray type.raw length)) Q E
  rw [newArray_eq type natural]
  exact does_onCollector_error (Heap.heapOnly_newArray _) ran stops

/-- The request for an array whose length is negative. -/
theorem newArray_negative (type : TypeId) (negative : length < 0) (vm : Vm) :
    Vm.newArray type.raw length vm
      = .error (.trap (.negativeLength (vm.types.name type) length)) vm := by
  rw [newArray_raw, if_pos negative]
  rfl

theorem does_newArray_negative (negative : length < 0)
    (stops : E (.trap (.negativeLength (x.program.types.name type) length)) v.world) :
    Does x v (ask (Host.newArray type.raw length)) Q E := by
  intro m shows_
  have types : m.host.types = x.program.types := congrArg Program.types shows_.program
  have answer : Host.newArray type.raw length m.host = _ :=
    newArray_negative type negative m.host
  rw [ask_error answer, types]
  refine ⟨shows_.fixed, ?_⟩
  show E _ m.host.world
  rwa [shows_.world]

/-! ## The output and the table of calls -/

theorem gives_callNative {routine : Native} {arguments : List UInt64} {line : String}
    (printed : Vm.printed? routine arguments = some line) :
    Gives x v (ask (Host.callNative routine arguments)) ()
      { v with world := (v.world.say line).say "\n" } E := by
  intro m shows_
  have answer : Host.callNative routine arguments m.host
      = .ok () { m.host with output := m.host.output ++ line ++ "\n" } := by
    show Vm.callNative routine arguments m.host = _
    unfold Vm.callNative
    rw [printed]
  rw [ask_eq answer]
  refine ⟨{ v with world := (v.world.say line).say "\n" },
    ⟨shows_.fixed, ?_, shows_.registers, shows_.spells, shows_.lists⟩, rfl, rfl⟩
  rw [← shows_.world]
  rfl

/-- The table of calls has room for as many calls as it admits. -/
def Fixed.Roomy (x : Fixed) : Prop := 8 + 16 * x.capacity ≤ x.callsSize

theorem onCalls_ok {act : EStateM Stack.CallError CallTable α} (run : act vm.calls = .ok a calls) :
    Vm.onCalls failed act vm = .ok () { vm with calls } := by
  unfold Vm.onCalls
  dsimp only
  rw [run]

theorem onCalls_error {act : EStateM Stack.CallError CallTable α} {e : Stack.CallError}
    (run : act vm.calls = .error e calls) :
    Vm.onCalls failed act vm = .error (failed e) { vm with calls } := by
  unfold Vm.onCalls
  dsimp only
  rw [run]

theorem pushFrame_eq (id : FunctionId) (instruction : UInt32) :
    ∃ failed : Stack.CallError → Stop,
      Vm.pushFrame id.toBits instruction = Vm.onCalls failed (CallTable.push ⟨id, instruction⟩) ∧
      (∀ capacity, failed (.overflow capacity) = .trap (.tooManyCalls capacity)) ∧
      ∀ address, ∃ reason, failed (.unwritable address) = .fault 0 reason := by
  unfold Vm.pushFrame
  rw [Handle.ofBits_toBits]
  exact ⟨_, rfl, fun _ => rfl, fun _ => ⟨_, rfl⟩⟩

theorem gives_pushFrame {id : FunctionId} {instruction : UInt32}
    (below : x.callsBase.toNat + (8 + 16 * (v.calls.length + 1)) < 2 ^ 64)
    (overflow : x.capacity ≤ v.calls.length → E (.trap (.tooManyCalls x.capacity)) v.world)
    (unwritable : ¬ x.Roomy → ∀ address reason, E (.fault address reason) v.world) :
    Gives x v (ask (Host.pushFrame id.toBits instruction)) ()
      { v with calls := ⟨id, instruction⟩ :: v.calls } E := by
  intro m shows_
  have capacity : m.host.calls.capacity = x.capacity := congrArg Fixed.capacity shows_.fixed
  have base : m.host.calls.region.base = x.callsBase := congrArg Fixed.callsBase shows_.fixed
  have size : m.host.calls.region.size = x.callsSize := congrArg Fixed.callsSize shows_.fixed
  have depth := shows_.lists.depth
  rw [← base, ← depth] at below
  obtain ⟨failed, same, tooMany, bad⟩ := pushFrame_eq id instruction
  have run := CallTable.push_eq m.host.calls ⟨id, instruction⟩
  show After x _ E (ask (Vm.pushFrame id.toBits instruction) m)
  rw [same]
  split at run
  · split at run
    · rename_i inside
      rw [ask_eq (onCalls_ok run)]
      refine ⟨{ v with calls := ⟨id, instruction⟩ :: v.calls },
        ⟨?_, shows_.world, shows_.registers, shows_.spells,
          shows_.lists.pushed ⟨id, instruction⟩ below inside⟩, rfl, rfl⟩
      rw [← shows_.fixed]
      simp [Vm.fixed, Vm.program, CallTable.pushed]
    · rename_i free outside
      rw [ask_error (onCalls_error run)]
      refine ⟨shows_.fixed, ?_⟩
      obtain ⟨reason, faulted⟩ := bad (m.host.calls.entryAddress m.host.calls.depth)
      show E (failed _) m.host.world
      rw [shows_.world, faulted]
      refine unwritable (fun roomy => outside ?_) _ _
      unfold Fixed.Roomy at roomy
      rw [Memory.Region.contains_iff, CallTable.toNat_entryAddress (by omega), size,
        show CallTable.entrySize = 16 from rfl]
      omega
  · rename_i full
    rw [ask_error (onCalls_error run)]
    refine ⟨shows_.fixed, ?_⟩
    show E (failed _) m.host.world
    rw [shows_.world, tooMany, capacity]
    refine overflow ?_
    rw [← capacity, ← depth]
    exact Nat.not_lt.mp full

theorem gives_popFrame {call : ActiveCall} {rest : List ActiveCall}
    (top : v.calls = call :: rest) :
    Gives x v (ask Host.popFrame) () { v with calls := rest } E := by
  intro m shows_
  have lists := shows_.lists
  rw [top] at lists
  obtain ⟨calls, run, lists', region, capacity⟩ := lists.pop
  have answer : Host.popFrame m.host = .ok () { m.host with calls } := onCalls_ok run
  rw [ask_eq answer]
  refine ⟨{ v with calls := rest }, ⟨?_, shows_.world, shows_.registers, shows_.spells, lists'⟩,
    rfl, rfl⟩
  rw [← shows_.fixed]
  simp [Vm.fixed, Vm.program, region, capacity]

end Rules

/-! ## Steps -/

/-- Where the steps of a machine lead: to a view that is wanted, after at least one step and past
views of some kind only, or to a stop for a reason that is. -/
inductive Leads (x : Fixed) (inner : View → Prop) (Q : View → Prop) (E : Stop → World → Prop) :
    Machine Vm → Prop where
  | stop {m m' : Machine Vm} {e : Stop} (running : m.registers.ip ≠ haltAddress)
      (failed : step m = .error e m') (fixed : m'.host.fixed = x)
      (why : E e m'.host.world) : Leads x inner Q E m
  | last {m m' : Machine Vm} {v : View} (running : m.registers.ip ≠ haltAddress)
      (stepped : step m = .ok () m') (shows_ : Shows x v m') (good : Q v) :
      Leads x inner Q E m
  | more {m m' : Machine Vm} {v : View} (running : m.registers.ip ≠ haltAddress)
      (stepped : step m = .ok () m') (shows_ : Shows x v m') (inside : inner v)
      (rest : Leads x inner Q E m') : Leads x inner Q E m

section Steps

variable {x : Fixed} {v u : View} {m : Machine Vm} {inner : View → Prop} {Q : View → Prop}
  {E : Stop → World → Prop} {op : Op}
variable {p : Program} {address : UInt64}

theorem isCode_of_opAt (ready : p.Runnable) (here : p.OpAt address op) :
    p.image.store.isCode address = true := by
  have positive : 0 < op.encode.length := by
    rw [Op.length_encode]
    exact CodeStore.length_pos op
  obtain ⟨page, offset, found, _⟩ := CodeStore.page?_of_holds ready.apart.code positive here
  show (p.image.store.code.page? address).isSome = true
  rw [found]
  rfl

/-- There is no machine instruction at the halt address. -/
theorem Program.Runnable.ne_halt (ready : p.Runnable) (here : p.OpAt address op) :
    address ≠ haltAddress := by
  rintro rfl
  have code := isCode_of_opAt ready here
  rw [ready.notHalt] at code
  cases code

/-- A machine executes the instruction that is decoded where it is. -/
theorem execute_of_shows (shows_ : Shows x v m) (here : x.program.op? v.ip = some op) :
    ∃ m', Shows x { v with ip := v.ip + UInt64.ofNat op.length } m' ∧
      step m = execute (v.ip + UInt64.ofNat op.length) op m' := by
  have ip : m.registers.ip = v.ip := congrArg Registers.ip shows_.registers
  refine ⟨⟨{ m.registers with ip := v.ip + UInt64.ofNat op.length }, v.ip, m.host⟩,
    ⟨shows_.fixed, shows_.world, ?_, shows_.spells, shows_.lists⟩, ?_⟩
  · rw [shows_.registers]
    rfl
  · rw [← shows_.program, ← ip] at here
    rw [step_of_op? here, ip]

section

variable (ready : x.program.Runnable)

include ready

/-- A machine at an instruction executes it. -/
theorem step_of_shows (shows_ : Shows x v m) (here : x.program.OpAt v.ip op) :
    m.registers.ip ≠ haltAddress ∧ ∃ m', Shows x { v with ip := v.ip + UInt64.ofNat op.length } m' ∧
      step m = execute (v.ip + UInt64.ofNat op.length) op m' := by
  have ip : m.registers.ip = v.ip := congrArg Registers.ip shows_.registers
  constructor
  · rw [ip]
    exact ready.ne_halt here
  · exact execute_of_shows shows_ (ready.op?_eq_some here)

theorem leads_last (here : x.program.OpAt v.ip op)
    (does : Does x { v with ip := v.ip + UInt64.ofNat op.length } (execute
      (v.ip + UInt64.ofNat op.length) op) (fun _ u => Q u) E)
    (shows_ : Shows x v m) : Leads x inner Q E m := by
  obtain ⟨running, m', shows', stepped⟩ := step_of_shows ready shows_ here
  have after := does m' shows'
  cases run : execute (v.ip + UInt64.ofNat op.length) op m' with
  | ok a m'' =>
    rw [run] at after stepped
    obtain ⟨u, shows'', good⟩ := after
    exact .last running stepped shows'' good
  | error e m'' =>
    rw [run] at after stepped
    exact .stop running stepped after.1 after.2

theorem leads_more (here : x.program.OpAt v.ip op)
    (gives : Gives x { v with ip := v.ip + UInt64.ofNat op.length } (execute
      (v.ip + UInt64.ofNat op.length) op) () u E)
    (inside : inner u) (rest : ∀ m, Shows x u m → Leads x inner Q E m) (shows_ : Shows x v m) :
    Leads x inner Q E m := by
  obtain ⟨running, m', shows', stepped⟩ := step_of_shows ready shows_ here
  have after := gives m' shows'
  cases run : execute (v.ip + UInt64.ofNat op.length) op m' with
  | ok a m'' =>
    rw [run] at after stepped
    obtain ⟨w, shows'', _, same⟩ := after
    rw [same] at shows''
    exact .more running stepped shows'' inside (rest m'' shows'')
  | error e m'' =>
    rw [run] at after stepped
    exact .stop running stepped after.1 after.2

end

end Steps

end ManagedCode
