import ManagedCode.Proofs.Machine.Behind

/-!
# Calls inside calls

While a program runs, some callers wait for the function that they called. Every machine instruction
keeps them, but for a call, which adds the activation that makes it, and a return, which takes it
back where it was.

* `Op.calls`, `Op.returns`: the machine instructions that go to a function and back.
* `Stage`: what a machine shows before each of its machine instructions, given the callers that wait.
* `Turn`: what one machine instruction does. `Stage.turn`: it does this in every stage.

Nothing is said about the heap, so that the stack may be larger than a walk over it can span.
-/

namespace ManagedCode

open Bytecode TypeSystem
open Compile (CompiledFunction Piece Source codeLength codeLength_cons)
open Machine (Stop Registers execute)
open Target (Op)

/-- A machine instruction that goes to a function with a body. -/
def Target.Op.calls : Op → Bool
  | .callRelative _ => true
  | .callAbsolute address => (Native.atAddress? address).isNone
  | _ => false

/-- A machine instruction that goes back to the caller. -/
def Target.Op.returns : Op → Bool
  | .ret _ => true
  | _ => false

theorem Target.Op.calls_of_plain {op : Op} (plain : op.isLinkage = false) : op.calls = false := by
  cases op <;> first | rfl | cases plain

theorem Target.Op.returns_of_plain {op : Op} (plain : op.isLinkage = false) :
    op.returns = false := by
  cases op <;> first | rfl | cases plain

/-! ## Instructions that keep the callers -/

/-- An outcome with the same callers, if the run goes on. -/
def Outcome.Keeps (callers : List (Activation UInt64)) : Outcome UInt64 → Prop
  | .next c => c.callers = callers
  | .finished .. => False
  | .stopped .. => True
  | .stuck => True

section Keeps

variable {c : Configuration UInt64} {f : Function} {instr : Instr} {types : TypeTable}
  {functions : FunctionTable}

theorem keeps_pop1 {k : UInt64 → List UInt64 → Outcome UInt64}
    (each : ∀ a rest, (k a rest).Keeps c.callers) : (c.pop1 k).Keeps c.callers := by
  unfold Configuration.pop1
  split
  · exact each _ _
  · trivial

theorem keeps_pop2 {k : UInt64 → UInt64 → List UInt64 → Outcome UInt64}
    (each : ∀ a b rest, (k a b rest).Keeps c.callers) : (c.pop2 k).Keeps c.callers := by
  unfold Configuration.pop2
  split
  · exact each _ _ _
  · trivial

theorem keeps_pop3 {k : UInt64 → UInt64 → UInt64 → List UInt64 → Outcome UInt64}
    (each : ∀ a b d rest, (k a b d rest).Keeps c.callers) : (c.pop3 k).Keeps c.callers := by
  unfold Configuration.pop3
  split
  · exact each _ _ _ _
  · trivial

theorem keeps_loading (rest : List UInt64) (address : UInt64) (width : Target.Width) :
    (Words.loading c rest address width).Keeps c.callers := by
  unfold Words.loading
  split
  · exact rfl
  · trivial

theorem keeps_storing (rest : List UInt64) (address : UInt64) (width : Target.Width)
    (value : UInt64) : (Words.storing c rest address width value).Keeps c.callers := by
  unfold Words.storing
  split
  · exact rfl
  · trivial

theorem keeps_allocating (rest : List UInt64)
    (act : EStateM Heap.AllocationError Heap.Collector UInt64) :
    (Words.allocating c rest act).Keeps c.callers := by
  unfold Words.allocating
  split
  · exact rfl
  · trivial

theorem keeps_onObject {object : UInt64} {use : Machine.NullUse} {k : Outcome UInt64}
    (rest : k.Keeps c.callers) : (Words.onObject c.world object use k).Keeps c.callers := by
  unfold Words.onObject
  split
  · trivial
  · exact rest

theorem keeps_onWidth {width? : Option Target.Width} {k : Target.Width → Outcome UInt64}
    (rest : ∀ width, (k width).Keeps c.callers) :
    (Words.perform.onWidth width? k).Keeps c.callers := by
  unfold Words.perform.onWidth
  split
  · exact rest _
  · trivial

theorem keeps_onElement {array : UInt64} {index : Int32} {width : Target.Width}
    {k : UInt64 → Outcome UInt64} (rest : ∀ address, (k address).Keeps c.callers) :
    (Words.onElement c.world array index width k).Keeps c.callers := by
  unfold Words.onElement
  split
  · trivial
  · split
    · trivial
    · exact rest _

/-- An instruction that neither calls nor returns keeps the callers. -/
theorem keeps_perform (calls : instr.callee? = none) (stays : instr ≠ .ret) :
    (Words.perform types functions f c instr).Keeps c.callers := by
  cases instr with
  | call | callInstance => cases calls
  | ret => exact absurd rfl stays
  | loadLocal n | loadArgument n =>
    unfold Words.perform
    dsimp only
    split
    · exact rfl
    · trivial
  | arith op =>
    refine keeps_pop2 fun left right rest => ?_
    split
    · split
      · exact rfl
      · trivial
    · exact rfl
  | branchIf condition target =>
    refine keeps_pop2 fun left right rest => ?_
    split
    · exact rfl
    · exact rfl
  | newArray type =>
    refine keeps_pop1 fun length rest => ?_
    split
    · trivial
    · exact keeps_allocating _ _
  | newObject type => exact keeps_allocating _ _
  | loadElement type =>
    exact keeps_pop2 fun _ _ rest => keeps_onObject (keeps_onWidth fun _ =>
      keeps_onElement fun _ => keeps_loading rest _ _)
  | storeElement type =>
    exact keeps_pop3 fun _ _ _ rest => keeps_onObject (keeps_onWidth fun _ =>
      keeps_onElement fun _ => keeps_storing rest _ _ _)
  | arrayLength => exact keeps_pop1 fun _ rest => keeps_onObject (keeps_loading rest _ _)
  | loadField r =>
    exact keeps_pop1 fun _ rest => keeps_onObject (keeps_onWidth fun _ => keeps_loading rest _ _)
  | storeField r =>
    exact keeps_pop2 fun _ _ rest => keeps_onObject (keeps_onWidth fun _ =>
      keeps_storing rest _ _ _)
  | pop | dup | storeLocal n | not | intToFloat | floatToInt => exact keeps_pop1 fun _ _ => rfl
  | and | or | compare condition => exact keeps_pop2 fun _ _ _ => rfl
  | _ => exact rfl

end Keeps

/-! ## Machine instructions of plain instructions -/

section Lowering

variable {s : Source} {index : Nat} {constant : UInt64} {instr : Instr} {pieces : List Piece}
  {piece : Piece}

theorem plain_of_lower (lowered : s.lower index constant instr = .ok pieces)
    (calls : instr.callee? = none) (stays : instr ≠ .ret) (mem : piece ∈ pieces) :
    piece.op.isLinkage = false ∧ ∀ callee mode, piece.fixup ≠ .call callee mode := by
  cases instr with
  | call | callInstance => cases calls
  | ret => exact absurd rfl stays
  | nop =>
    cases lowered
    cases mem
  | loadElement type | storeElement type | loadField r | storeField r =>
    obtain ⟨_, _, rfl⟩ := Source.eq_of_width lowered mem
    exact ⟨rfl, fun _ _ => nofun⟩
  | _ =>
    cases lowered
    cases List.mem_singleton.mp mem
    exact ⟨rfl, fun _ _ => nofun⟩

theorem plain_of_resolves {p : Program} {k : CompiledFunction} {placed : Compile.Placed} {op : Op}
    (resolves : p.Resolves k placed op) (plain : placed.piece.op.isLinkage = false)
    (open_ : ∀ callee mode, placed.piece.fixup ≠ .call callee mode) : op.isLinkage = false := by
  cases resolves with
  | done => exact plain
  | branch =>
    unfold Compile.withDistance
    split
    · rfl
    · rfl
    · rename_i relative
      rw [relative] at plain
      cases plain
    · exact plain
  | self fixup | call fixup => exact absurd fixup (open_ _ _)

end Lowering

/-! ## One machine instruction -/

section Step

variable {x : Fixed} {v u : View} {m : Machine Vm} {op : Op} {Q : View → Prop}

theorem after_of_does (ready : x.program.Runnable) (here : x.program.OpAt v.ip op)
    (does : Does x { v with ip := v.ip + UInt64.ofNat op.length }
      (execute (v.ip + UInt64.ofNat op.length) op) (fun _ u => Q u) fun _ _ => True)
    (shows_ : Shows x v m) : After x (fun _ u => Q u) (fun _ _ => True) (Machine.step m) := by
  obtain ⟨_, m', shows', stepped⟩ := step_of_shows ready shows_ here
  rw [stepped]
  exact does m' shows'

variable {E : Stop → World → Prop}

theorem Leads.after (leads : Leads x (fun _ => False) Q E m) :
    After x (fun _ u => Q u) (fun _ _ => True) (Machine.step m) := by
  cases leads with
  | stop _ failed fixed =>
    rw [failed]
    exact ⟨fixed, trivial⟩
  | last _ stepped shows_ good =>
    rw [stepped]
    exact ⟨_, shows_, good⟩
  | more _ _ _ inside => exact inside.elim

theorem After.mono {α : Type} {P Q : α → View → Prop} {answer : EStateM.Result Stop (Machine Vm) α}
    (after : After x P E answer) (good : ∀ a u, P a u → Q a u) : After x Q E answer := by
  cases answer with
  | ok a m =>
    obtain ⟨u, shows_, holds⟩ := after
    exact ⟨u, shows_, good a u holds⟩
  | error e m => exact after

end Step

/-! ## Requests that walk the stack -/

section Walks

variable {x : Fixed} {v : View}

theorem does_walk {request : UInt64 → EStateM Stop Vm Unit}
    (rests : ∀ base (vm : Vm), ∃ collector output,
      leaves (request base vm) = { vm with collector, output }) :
    Does x v (do let bp := (← Machine.registersOf).bp; Machine.ask (request bp))
      (fun _ u => ∃ world, u = { v with world }) fun _ _ => True := by
  refine gives_registersOf.bind fun m shows_ => ?_
  obtain ⟨collector, output, same⟩ := rests (v.registers x).bp m.host
  have shows' : Shows x { v with world := ⟨collector.heap, output⟩ }
      ⟨m.registers, m.current, { m.host with collector, output }⟩ :=
    ⟨shows_.fixed, rfl, shows_.registers, shows_.spells, shows_.lists⟩
  cases answer : request (v.registers x).bp m.host with
  | ok a host =>
    rw [answer] at same
    cases same
    rw [ask_eq answer]
    exact ⟨_, shows', _, rfl⟩
  | error e host =>
    rw [answer] at same
    cases same
    rw [ask_error answer]
    exact ⟨shows'.fixed, trivial⟩

theorem does_collect (next function : UInt64) (instruction : UInt32) :
    Does x v (execute next (.collect function instruction))
      (fun _ u => ∃ world, u = { v with world }) fun _ _ => True :=
  does_walk fun base vm =>
    let ⟨collector, same⟩ := leaves_collect base function instruction vm
    ⟨collector, vm.output, same⟩

theorem does_printCallStack (next function : UInt64) (instruction : UInt32) :
    Does x v (execute next (.printCallStack function instruction))
      (fun _ u => ∃ world, u = { v with world }) fun _ _ => True := by
  have rests (base : UInt64) (vm : Vm) : ∃ collector output,
      leaves (Vm.printCallStack base function instruction vm) = { vm with collector, output } := by
    unfold Vm.printCallStack
    split <;> exact ⟨_, _, rfl⟩
  exact does_walk rests

end Walks

/-! ## Stages -/

def Program.called? (p : Program) (a : Activation UInt64) : Option FunctionId :=
  ((p.functions.get? a.function).bind (·.code[a.index]?)).bind (·.callee?)

/-- A machine instruction takes the innermost activation to the entry of a function. -/
structure Calling (x : Fixed) (root : FunctionId) (c : Configuration UInt64) (callee : FunctionId)
    (g : Function) (k : CompiledFunction) (ip : UInt64) (op : Op) : Prop where
  code : x.program.Code callee g k
  called : x.program.called? c.current = some callee
  here : x.program.OpAt ip op
  calls : op.calls = true
  gives : ∀ v : View, Gives x v (execute (ip + UInt64.ofNat op.length) op) ()
    { v with ip := k.entry, words := (ip + UInt64.ofNat op.length) :: v.words } fun _ _ => True
  target : ip + UInt64.ofNat op.length = x.program.returnAddress c.current
  enough : g.argumentCount ≤ c.operands.length
  shaped : (Words.entered callee g (c.operands.take g.argumentCount).reverse c.active
    c.world).Shaped x.program.functions root

/-- A machine instruction takes the innermost activation back to its caller. -/
structure Returning (x : Fixed) (root : FunctionId) (c : Configuration UInt64) (f : Function)
    (ip : UInt64) : Prop where
  shaped : c.Shaped x.program.functions root
  found : x.program.functions.get? c.current.function = some f
  few : f.argumentCount < 65536
  goes : x.program.OpAt ip (.ret (UInt16.ofNat f.argumentCount))

/-- The value that a function returns in the result register. -/
def Bytecode.Function.resultFrom (g : Function) (result : UInt64) : Option UInt64 :=
  if g.definition.returnType = .void then none else some result

/-- A caller goes on behind its call. -/
structure Resuming (x : Fixed) (root : FunctionId) (g : Function) (a : Activation UInt64)
    (callers : List (Activation UInt64)) (result : UInt64) (world : World) : Prop where
  called : ∃ callee, x.program.called? a = some callee ∧
    x.program.functions.get? callee = some g
  awaits : x.program.Awaits a g
  shaped : Configuration.Shaped x.program.functions root
    ⟨a.resumed g.argumentCount (g.resultFrom result), callers, world⟩

theorem Resuming.le_length {x : Fixed} {root : FunctionId} {g : Function} {a : Activation UInt64}
    {callers : List (Activation UInt64)} {result : UInt64} {world : World}
    (resuming : Resuming x root g a callers result world) (base : UInt64) (rest : List UInt64) :
    g.argumentCount ≤ (a.frame base rest).length := by
  have enough := resuming.awaits.enough
  rw [Activation.frame_eq, List.length_append]
  omega

/-- What a machine shows before each of its machine instructions, given the callers that wait.

* `at_`: at the instruction that some activations are at.
* `noting`, `calling`, `entering`: in a call, at the machine instruction that notes it, at the one
  that goes to the function, and at the one that makes the frame.
* `leaving`, `returning`: in a return, at the machine instruction that drops the frame, and at the
  one that goes back.
* `back`, `taking`: behind a call, at the machine instruction that drops its note, and at the one
  that pushes its result. -/
inductive Stage (x : Fixed) (root : FunctionId) (bottom : List UInt64) :
    List (Activation UInt64) → View → Prop where
  | at_ {c : Configuration UInt64} {ip result : UInt64} (shaped : c.Shaped x.program.functions root)
      (address : x.program.addressOf? c.current.function c.current.index = some ip) :
      Stage x root bottom c.callers (c.view x bottom ip result)
  | noting {c : Configuration UInt64} {callee : FunctionId} {g : Function} {k : CompiledFunction}
      {ip result : UInt64} {op : Op}
      (here : x.program.OpAt ip
        (.pushFrame c.current.function.toBits (UInt32.ofNat c.current.index)))
      (calling : Calling x root c callee g k (ip + 13) op) :
      Stage x root bottom c.callers (c.view x bottom ip result)
  | calling {c : Configuration UInt64} {callee : FunctionId} {g : Function} {k : CompiledFunction}
      {ip result : UInt64} {op : Op} (calling : Calling x root c callee g k ip op) :
      Stage x root bottom c.callers
        { c.view x bottom ip result with calls := c.active.map Activation.site }
  | entering {callee : FunctionId} {g : Function} {k : CompiledFunction}
      {active : List (Activation UInt64)} {arguments rest : List UInt64} {address result : UInt64}
      {world : World} (code : x.program.Code callee g k)
      (words : spine x bottom active = address :: (arguments.reverse ++ rest))
      (count : arguments.length = g.argumentCount)
      (shaped : (Words.entered callee g arguments active world).Shaped x.program.functions root) :
      Stage x root bottom active (.linking x bottom active k.entry result world)
  | leaving {c : Configuration UInt64} {f : Function} {ip result : UInt64} {operands : List UInt64}
      (here : x.program.OpAt ip .leave) (returning : Returning x root c f (ip + 1)) :
      Stage x root bottom c.callers (c.showing x bottom ip result operands)
  | returning {c : Configuration UInt64} {f : Function} {ip result : UInt64}
      (returning : Returning x root c f ip) :
      Stage x root bottom c.callers (.linking x bottom c.callers ip result c.world)
  | back {g : Function} {a : Activation UInt64} {callers : List (Activation UInt64)}
      {result : UInt64} {world : World} (resuming : Resuming x root g a callers result world) :
      Stage x root bottom callers (.back x bottom a callers g.argumentCount result world)
  | taking {g : Function} {a : Activation UInt64} {callers : List (Activation UInt64)}
      {result : UInt64} {world : World} (resuming : Resuming x root g a callers result world)
      (some_ : g.definition.returnType ≠ .void) :
      Stage x root bottom callers
        { View.back x bottom a callers g.argumentCount result world with
          ip := x.program.returnAddress a + 1
          calls := callers.map Activation.site }

/-- What one machine instruction does.

* `stays`: it neither calls nor returns, and leads to no machine instruction that calls.
* `notes`: it notes a call.
* `enters`: it goes to a function, and the activation that makes the call waits.
* `leaves`: it goes back to the caller that has waited since last.
* `ends`: it goes back to where the run was called from. -/
inductive Turn (x : Fixed) (root : FunctionId) (bottom : List UInt64)
    (callers : List (Activation UInt64)) (v : View) (op : Op) (u : View) : Prop where
  | stays (calls : op.calls = false) (returns : op.returns = false)
      (quiet : ∀ op', x.program.OpAt u.ip op' → op'.calls = false)
      (stage : Stage x root bottom callers u)
  | notes {function : UInt64} {instruction : UInt32} {call : Stack.ActiveCall}
      (note : op = .pushFrame function instruction)
      (same : u = { v with ip := u.ip, calls := call :: v.calls })
      (stage : Stage x root bottom callers u)
  | enters {a : Activation UInt64} {callee : FunctionId} {g : Function} {k : CompiledFunction}
      (calls : op.calls = true) (called : x.program.called? a = some callee)
      (code : x.program.Code callee g k)
      (words : v.words = a.frame (baseOf x bottom callers) (spine x bottom callers))
      (base : v.bp = baseOf x bottom (a :: callers))
      (table : v.calls = (a :: callers).map Activation.site)
      (target : v.ip + UInt64.ofNat op.length = x.program.returnAddress a)
      (entry : u.ip = k.entry) (stage : Stage x root bottom (a :: callers) u)
  | leaves {a : Activation UInt64} {outer : List (Activation UInt64)} {g : Function}
      (returns : op.returns = true) (waits : callers = a :: outer)
      (resuming : Resuming x root g a outer v.result v.world)
      (same : u = .back x bottom a outer g.argumentCount v.result v.world)
  | ends {f : Function} (returns : op.returns = true) (none : callers = [])
      (words : v.words = bottom) (found : x.program.functions.get? root = some f)
      (same : u = ⟨Machine.haltAddress, 0, v.result, bottom.tail.drop f.argumentCount, [], v.world⟩)

def Turns (x : Fixed) (root : FunctionId) (bottom : List UInt64)
    (callers : List (Activation UInt64)) (v : View) (m : Machine Vm) : Prop :=
  ∃ op, x.program.OpAt v.ip op ∧
    After x (fun _ u => Turn x root bottom callers v op u) (fun _ _ => True) (Machine.step m)

/-! ## The first machine instruction of an instruction -/

section First

variable {x : Fixed} {root callee : FunctionId} {bottom : List UInt64} {c : Configuration UInt64}
  {f g : Function} {k : CompiledFunction} {instr : Instr} {after : OperandTypes} {offset : Nat}
  {constant ip : UInt64} {pieces : List Piece}

theorem Here.first_routine (here : Here x c f k (.call callee) after offset constant pieces)
    {routine : Native} (found : x.program.functions.get? callee = some (.ofNative routine)) :
    ∃ op, x.program.OpAt (k.address offset) op ∧ op.calls = false ∧ op.returns = false := by
  have lies := here.at_.lies
  have lowered : Source.lowerCall _ _ callee false = _ := here.at_.lowered
  unfold Source.lowerCall at lowered
  rw [show (x.program.source c.current.function f).functions.get? callee = _ from found] at lowered
  have direct : pieces = [⟨.callAbsolute 0, .call callee .absolute⟩] →
      ∃ op, x.program.OpAt (k.address offset) op ∧ op.calls = false ∧ op.returns = false := by
    rintro rfl
    obtain ⟨address, target, opAt, _⟩ := lies.absolute
    unfold Compile.CodeCache.target? at target
    rw [found] at target
    cases target
    refine ⟨_, opAt, ?_, rfl⟩
    show (Native.atAddress? routine.address).isNone = false
    rw [routine.atAddress?_address]
    rfl
  cases routine with
  | collect | printCallStack =>
    cases lowered
    exact ⟨_, lies.done.1, rfl, rfl⟩
  | _ =>
    cases lowered
    exact direct rfl

/-- No instruction starts with a machine instruction that goes to a function or back. -/
theorem Here.first (here : Here x c f k instr after offset constant pieces)
    (ready : x.program.Runnable) (some_ : instr ≠ .nop) :
    ∃ op, x.program.OpAt (k.address offset) op ∧ op.calls = false ∧ op.returns = false := by
  have lies := here.at_.lies
  have lowered := here.at_.lowered
  cases calls : instr.callee? with
  | none =>
    by_cases returns : instr = .ret
    · subst returns
      unfold Source.lower at lowered
      dsimp only at lowered
      split at lowered <;> cases lowered <;> exact ⟨_, lies.done.1, rfl, rfl⟩
    · cases pieces with
      | nil => exact absurd rfl (lower_ne_nil lowered some_)
      | cons piece rest =>
        obtain ⟨⟨op, resolves, there⟩, _⟩ := lies
        obtain ⟨plain, open_⟩ := plain_of_lower lowered calls returns List.mem_cons_self
        have plain := plain_of_resolves resolves plain open_
        exact ⟨op, there, Op.calls_of_plain plain, Op.returns_of_plain plain⟩
  | some callee =>
    obtain ⟨g, found⟩ := here.known calls
    cases native : g.native? with
    | some routine =>
      have same : g = .ofNative routine := ready.tidy.natives _ _ _ found native
      subst same
      obtain rfl := here.eq_call calls found
      exact here.first_routine found
    | none =>
      obtain ⟨onObject, _, _, rfl⟩ := lowered_call here.at_ calls found native
      cases onObject with
      | false | true => exact ⟨_, lies.done.1, rfl, rfl⟩

/-- A machine instruction that goes to a function is not the first one of an instruction. -/
theorem quiet_at (ready : x.program.Runnable) (shaped : c.Shaped x.program.functions root)
    (address : x.program.addressOf? c.current.function c.current.index = some ip) {op : Op}
    (there : x.program.OpAt ip op) : op.calls = false := by
  obtain ⟨c', settled⟩ := settles [] ready shaped address
  obtain ⟨f, k, instr, after, offset, constant, pieces, here, some_, rfl⟩ := settled.here
  obtain ⟨op', there', calls, _⟩ := here.first ready some_
  cases opAt_unique ready there there'
  exact calls

theorem quiet_of_opAt (ready : x.program.Runnable) {op op' : Op} (here : x.program.OpAt ip op)
    (calls : op.calls = false) (there : x.program.OpAt ip op') : op'.calls = false := by
  cases opAt_unique ready here there
  exact calls

end First

/-! ## One machine instruction in each stage -/

section Turns

variable {x : Fixed} {root callee : FunctionId} {bottom : List UInt64} {c : Configuration UInt64}
  {f g : Function} {k k' : CompiledFunction} {instr : Instr} {after : OperandTypes} {offset : Nat}
  {constant ip result : UInt64} {pieces : List Piece} {op : Op} {m : Machine Vm}
  {callers : List (Activation UInt64)}

theorem turns_of_gives {v u : View} (ready : x.program.Runnable) (here : x.program.OpAt v.ip op)
    (gives : Gives x { v with ip := v.ip + UInt64.ofNat op.length }
      (execute (v.ip + UInt64.ofNat op.length) op) () u fun _ _ => True)
    (turn : Turn x root bottom callers v op u) (shows_ : Shows x v m) :
    Turns x root bottom callers v m :=
  ⟨op, here, after_of_does ready here (gives.does turn) shows_⟩

/-- The stage of an outcome with the same callers. -/
theorem turn_of_shown {outcome : Outcome UInt64} {v u : View} (ready : x.program.Runnable)
    (shaped : c.Shaped x.program.functions root)
    (stepped : Words.step x.program.types x.program.functions c = outcome)
    (keeps : outcome.Keeps c.callers) (calls : op.calls = false) (returns : op.returns = false)
    (shown : outcome.Shown x bottom u) : Turn x root bottom c.callers v op u := by
  cases outcome with
  | next c' =>
    obtain ⟨ip, result, address, rfl⟩ := shown
    have shaped' := shaped.next ready stepped
    have keeps : c'.callers = c.callers := keeps
    rw [← keeps]
    exact .stays calls returns (fun _ => quiet_at ready shaped' address) (.at_ shaped' address)
  | finished => exact keeps.elim
  | stopped | stuck => exact shown.elim

theorem Here.calling (here : Here x c f k instr after offset constant pieces)
    (ready : x.program.Runnable) (shaped : c.Shaped x.program.functions root)
    (calls : instr.callee? = some callee) (found : x.program.functions.get? callee = some g)
    (native : g.native? = none) {onObject : Bool}
    (same : instr = if onObject then .callInstance callee else .call callee)
    (split : pieces
      = (x.program.source c.current.function f).callPieces c.current.index callee g onObject)
    (place : ip = k.address (offset + codeLength (Source.checkPieces g onObject))) :
    x.program.OpAt ip (.pushFrame c.current.function.toBits (UInt32.ofNat c.current.index)) ∧
      ∃ k' op, Calling x root c callee g k' (ip + 13) op := by
  have current := shaped.current_of_found here.code.found
  obtain ⟨_, _, _, enough⟩ := operands_of_call current here.flow calls found
  have enough : g.argumentCount ≤ c.operands.length := enough
  have lies := here.at_.lies
  rw [split] at lies
  obtain ⟨_, lies⟩ := lies.append
  obtain ⟨noted, lies⟩ := lies.done
  obtain ⟨k', op, code', opAt, goes, length⟩ := call_of_lies ready here.code found native lies
  have there : ip + 13 = k.address (offset + codeLength (Source.checkPieces g onObject) + 13) := by
    rw [place]
    exact k.address_add _ 13
  refine ⟨place ▸ noted, k', op, code', ?_, ?_, ?_, ?_, ?_, enough, ?_⟩
  · unfold Program.called?
    rw [here.code.found, Option.bind_some, here.flow.code]
    exact calls
  · rw [there]
    exact opAt
  · rcases goes with ⟨d, rfl, _⟩ | rfl
    · rfl
    · show (Native.atAddress? k'.entry).isNone = true
      rw [code'.atAddress?_entry ready]
      rfl
  · intro v
    rw [there, k.address_add]
    exact goes.gives ready code' v fun _ => trivial
  · rw [there, k.address_add, length]
    exact (returnAddress_of_call here.code here.flow.code here.at_ same g).symm
  · exact fits_of_enter ready admits_true shaped current here.flow calls found native (if_pos enough)

theorem after_noting (grounds : Grounds x root bottom)
    (here : x.program.OpAt ip
      (.pushFrame c.current.function.toBits (UInt32.ofNat c.current.index)))
    (calling : Calling x root c callee g k (ip + 13) op)
    (shows_ : Shows x (c.view x bottom ip result) m) :
    Turns x root bottom c.callers (c.view x bottom ip result) m :=
  turns_of_gives (v := c.view x bottom ip result) grounds.ready here
    (gives_pushFrame (room_for_call grounds shows_) (fun _ => trivial) fun _ _ _ => trivial)
    (.notes rfl rfl (.calling calling)) shows_

theorem after_calling (calling : Calling x root c callee g k ip op) (ready : x.program.Runnable)
    (shows_ : Shows x { c.view x bottom ip result with calls := c.active.map Activation.site } m) :
    Turns x root bottom c.callers
      { c.view x bottom ip result with calls := c.active.map Activation.site } m := by
  have count : (c.operands.take g.argumentCount).reverse.length = g.argumentCount := by
    rw [List.length_reverse, List.length_take, Nat.min_eq_left calling.enough]
  have stage : Stage x root bottom c.active
      (.linking x bottom c.active k.entry result c.world) :=
    .entering calling.code (spine_of_call x bottom c g.argumentCount) count calling.shaped
  refine turns_of_gives (v := { c.view x bottom ip result with
    calls := c.active.map Activation.site }) ready calling.here (calling.gives _) ?_ shows_
  rw [calling.target]
  exact .enters calling.calls calling.called calling.code rfl rfl rfl calling.target rfl stage

theorem after_entering (ready : x.program.Runnable) (code : x.program.Code callee g k)
    {active : List (Activation UInt64)} {arguments rest : List UInt64} {address : UInt64}
    {world : World} (words : spine x bottom active = address :: (arguments.reverse ++ rest))
    (count : arguments.length = g.argumentCount)
    (shaped : (Words.entered callee g arguments active world).Shaped x.program.functions root)
    (shows_ : Shows x (.linking x bottom active k.entry result world) m) :
    Turns x root bottom active (.linking x bottom active k.entry result world) m := by
  refine ⟨_, code.enter,
    (leads_enter ready code bottom active world words count shows_).after.mono ?_⟩
  rintro _ _ ⟨ip, result, address, rfl⟩
  exact .stays rfl rfl (fun _ => quiet_at ready shaped address) (.at_ shaped address)

theorem after_leaving (ready : x.program.Runnable) (here : x.program.OpAt ip .leave)
    (returning : Returning x root c f (ip + 1)) {operands : List UInt64}
    (shows_ : Shows x (c.showing x bottom ip result operands) m) :
    Turns x root bottom c.callers (c.showing x bottom ip result operands) m := by
  have base : (c.showing x bottom (ip + 1) result operands).bp
      = x.place ((spine x bottom c.callers).length + 1) := showing_base operands
  refine turns_of_gives (v := c.showing x bottom ip result operands) ready here
    (gives_leave (showing_words operands) base) ?_ shows_
  exact .stays rfl rfl (fun _ => quiet_of_opAt ready returning.goes rfl) (.returning returning)

theorem Returning.resuming (returning : Returning x root c f ip) (ready : x.program.Runnable)
    {a : Activation UInt64} (waits : c.callers = a :: callers) (result : UInt64) :
    Resuming x root f a callers result c.world := by
  have current := returning.shaped.current_of_found returning.found
  have native := Function.native?_of_hasBody current.body
  have suspended := returning.shaped.callers
  rw [waits] at suspended
  -- The caller waits at a call of this function, and its code says what stands behind the call.
  obtain ⟨⟨g, instr, fits, code, calls⟩, _⟩ := suspended
  have awaits := awaits_of_fits ready fits code calls returning.found native
  refine ⟨⟨_, ?_, returning.found⟩, awaits, ?_⟩
  · unfold Program.called?
    rw [fits.found, Option.bind_some, code]
    exact calls
  · have left : c.leave f.argumentCount (f.resultFrom result)
        = .next ⟨a.resumed f.argumentCount (f.resultFrom result), callers, c.world⟩ := by
      unfold Configuration.leave
      rw [waits]
      rfl
    refine fits_of_leave ready returning.shaped current ?_ left
    unfold Typing.resultTypes Function.resultFrom
    split
    · exact .nil
    · exact .cons trivial .nil

theorem after_returning (returning : Returning x root c f ip) (grounds : Grounds x root bottom)
    (shows_ : Shows x (.linking x bottom c.callers ip result c.world) m) :
    Turns x root bottom c.callers (.linking x bottom c.callers ip result c.world) m := by
  have ready := grounds.ready
  cases waits : c.callers with
  | nil =>
    -- The address to go back to is the word that the run put at the bottom of the stack.
    have outermost : c.current.function = root := by
      have suspended := returning.shaped.callers
      rw [waits] at suspended
      exact suspended
    obtain ⟨f', rest, found, under, enough⟩ := grounds.entered
    have found' := returning.found
    rw [outermost] at found'
    cases found.symm.trans found'
    rw [waits] at shows_
    refine turns_of_gives (v := .linking x bottom [] ip result c.world) ready returning.goes
      (gives_ret returning.few under enough) ?_ shows_
    refine .ends rfl rfl rfl found ?_
    rw [under]
    rfl
  | cons a callers =>
    have resuming := returning.resuming ready waits result
    rw [waits] at shows_
    refine turns_of_gives (v := .linking x bottom (a :: callers) ip result c.world) ready
      returning.goes (gives_ret returning.few rfl (resuming.le_length _ _)) ?_ shows_
    refine .leaves rfl rfl resuming ?_
    rw [drop_frame resuming.awaits.enough]
    rfl

/-- A caller that goes on with the result of its call. -/
theorem stage_resumed {a : Activation UInt64} {world : World} {n : Nat} {value : Option UInt64}
    (shaped : Configuration.Shaped x.program.functions root ⟨a.resumed n value, callers, world⟩)
    (address : x.program.addressOf? a.function (a.index + 1) = some ip) :
    Stage x root bottom callers ⟨ip, baseOf x bottom (a :: callers), result,
      value.toList ++ (a.without n).frame (baseOf x bottom callers) (spine x bottom callers),
      callers.map Activation.site, world⟩ := by
  rw [← view_resumed]
  exact .at_ shaped address

theorem after_back {a : Activation UInt64} {world : World} (ready : x.program.Runnable)
    (resuming : Resuming x root g a callers result world)
    (shows_ : Shows x (.back x bottom a callers g.argumentCount result world) m) :
    Turns x root bottom callers (.back x bottom a callers g.argumentCount result world) m := by
  refine turns_of_gives (v := .back x bottom a callers g.argumentCount result world) ready
    resuming.awaits.dropped (gives_popFrame rfl) ?_ shows_
  have next := resuming.awaits.next
  by_cases void : g.definition.returnType = .void
  · rw [if_pos void] at next
    have shaped := resuming.shaped
    rw [show g.resultFrom result = none from if_pos void] at shaped
    exact .stays rfl rfl (fun _ => quiet_at ready shaped next) (stage_resumed shaped next)
  · rw [if_neg void] at next
    exact .stays rfl rfl (fun _ => quiet_of_opAt ready next.1 rfl) (.taking resuming void)

theorem after_taking {a : Activation UInt64} {world : World} (ready : x.program.Runnable)
    (resuming : Resuming x root g a callers result world)
    (some_ : g.definition.returnType ≠ .void) {v : View}
    (same : v = { View.back x bottom a callers g.argumentCount result world with
      ip := x.program.returnAddress a + 1
      calls := callers.map Activation.site })
    (shows_ : Shows x v m) : Turns x root bottom callers v m := by
  subst same
  have next := resuming.awaits.next
  rw [if_neg some_] at next
  have shaped := resuming.shaped
  rw [show g.resultFrom result = some result from if_neg some_] at shaped
  exact turns_of_gives ready next.1 (gives_pushResult fun _ => trivial)
    (.stays rfl rfl (fun _ => quiet_at ready shaped next.2.2) (stage_resumed shaped next.2.2)) shows_

/-- A routine of the runtime that walks the stack. -/
theorem Here.after_walk (here : Here x c f k instr after offset constant pieces)
    (ready : x.program.Runnable) (shaped : c.Shaped x.program.functions root)
    (goes : instr.endsBlock = false) (same : pieces = [.done op])
    (keeps : after = f.operandTypes c.current.index) (calls : op.calls = false)
    (returns : op.returns = false)
    (does : ∀ v next, Does x v (execute next op) (fun _ u => ∃ world, u = { v with world })
      fun _ _ => True)
    (shows_ : Shows x (c.view x bottom (k.address offset) result) m) :
    Turns x root bottom c.callers (c.view x bottom (k.address offset) result) m := by
  subst same
  have current := shaped.current_of_found here.code.found
  have opAt := here.at_.lies.done.1
  refine ⟨op, opAt, after_of_does (v := c.view x bottom (k.address offset) result) ready opAt
    ((does _ _).mono ?_ fun _ _ => id) shows_⟩
  rintro _ _ ⟨world, rfl⟩
  have shaped' : ((c.inWorld world).goOn c.operands).Shaped x.program.functions root :=
    shaped.goOn current here.flow goes (keeps ▸ current.operands)
  have address := here.go goes
  rw [show codeLength [Piece.done op] = op.length from Nat.add_zero _, ← k.address_add] at address
  have view : ((c.inWorld world).goOn c.operands).view x bottom
        (k.address offset + UInt64.ofNat op.length) result
      = { c.view x bottom (k.address offset + UInt64.ofNat op.length) result with world } := by
    rw [view_eq (c := c)]
    exact view_goto (c.current.index + 1) c.operands world
  have stage : Stage x root bottom c.callers
      { c.view x bottom (k.address offset + UInt64.ofNat op.length) result with world } := by
    rw [← view]
    exact Stage.at_ (c := (c.inWorld world).goOn c.operands) shaped' address
  exact .stays calls returns (fun _ => quiet_at ready shaped' address) stage

theorem Here.after_routine (here : Here x c f k (.call callee) after offset constant pieces)
    (ready : x.program.Runnable) (shaped : c.Shaped x.program.functions root) {routine : Native}
    (found : x.program.functions.get? callee = some (.ofNative routine))
    (shows_ : Shows x (c.view x bottom (k.address offset) result) m) :
    Turns x root bottom c.callers (c.view x bottom (k.address offset) result) m := by
  have current := shaped.current_of_found here.code.found
  obtain ⟨low, before, left, _⟩ := operands_of_call current here.flow rfl found
  have lowered : Source.lowerCall _ _ callee false = _ := here.at_.lowered
  unfold Source.lowerCall at lowered
  rw [show (x.program.source c.current.function f).functions.get? callee = _ from found] at lowered
  have prints : routine ≠ .collect → routine ≠ .printCallStack →
      Turns x root bottom c.callers (c.view x bottom (k.address offset) result) m := by
    intro collects lists
    obtain ⟨op, opAt, calls, returns⟩ := here.first_routine found
    refine ⟨op, opAt, (here.leads_print ready current found collects lists shows_).after.mono
      fun _ u shown => ?_⟩
    refine turn_of_shown ready shaped (here.step_eq.trans (perform_routine found)) ?_ calls returns
      shown
    unfold Words.callRoutine
    split
    · exact absurd rfl collects
    · exact absurd rfl lists
    · refine keeps_pop1 fun value rest => ?_
      split
      · exact rfl
      · trivial
  cases routine with
  | collect =>
    cases lowered
    exact here.after_walk ready shaped rfl rfl (left.trans before.symm) rfl rfl
      (fun _ _ => does_collect _ _ _) shows_
  | printCallStack =>
    cases lowered
    exact here.after_walk ready shaped rfl rfl (left.trans before.symm) rfl rfl
      (fun _ _ => does_printCallStack _ _ _) shows_
  | _ => exact prints (by decide) (by decide)

theorem Here.after_managed (here : Here x c f k instr after offset constant pieces)
    (grounds : Grounds x root bottom) (shaped : c.Shaped x.program.functions root)
    (calls : instr.callee? = some callee) (found : x.program.functions.get? callee = some g)
    (native : g.native? = none)
    (shows_ : Shows x (c.view x bottom (k.address offset) result) m) :
    Turns x root bottom c.callers (c.view x bottom (k.address offset) result) m := by
  have ready := grounds.ready
  obtain ⟨onObject, same, few, split⟩ := lowered_call here.at_ calls found native
  obtain ⟨noted, k', op, calling⟩ := here.calling ready shaped calls found native same split rfl
  cases onObject with
  | false => exact after_noting grounds noted calling shows_
  | true =>
    have current := shaped.current_of_found here.code.found
    obtain ⟨_, _, _, enough⟩ := operands_of_call current here.flow calls found
    have lies := here.at_.lies
    rw [split] at lies
    obtain ⟨opAt, _⟩ := lies.append.1.done
    subst same
    obtain ⟨w, _, there⟩ := here.object found (few rfl) enough
    refine ⟨_, opAt, after_of_does (v := c.view x bottom (k.address offset) result) ready opAt ?_
      shows_⟩
    rw [show (c.view x bottom (k.address offset) result).ip = k.address offset from rfl,
      k.address_add]
    refine Gives.bind (gives_peek (there _ _ _)) ?_
    by_cases null : w = 0
    · rw [if_pos null]
      exact does_trap trivial
    · rw [if_neg null]
      refine (gives_pure ()).does (.stays rfl rfl ?_ (.noting noted calling))
      exact fun _ => quiet_of_opAt ready noted rfl

theorem Here.after_ret (here : Here x c f k .ret after offset constant pieces)
    (ready : x.program.Runnable) (shaped : c.Shaped x.program.functions root)
    (shows_ : Shows x (c.view x bottom (k.address offset) result) m) :
    Turns x root bottom c.callers (c.view x bottom (k.address offset) result) m := by
  have current := shaped.current_of_found here.code.found
  have code := here.code_of_ret current
  have one : ∀ start, k.address start + 1 = k.address (start + 1) := fun start =>
    k.address_add start 1
  have returning : ∀ {start}, x.program.OpAt (k.address (start + 1))
      (.ret (UInt16.ofNat f.argumentCount)) → Returning x root c f (k.address start + 1) :=
    fun goes => ⟨shaped, here.code.found, here.code.arguments, by rw [one]; exact goes⟩
  rw [view_eq] at shows_ ⊢
  split at code
  · obtain ⟨_, drops, goes⟩ := code
    exact after_leaving ready drops (returning goes) shows_
  · obtain ⟨_, pops, ⟨drops, goes⟩, w, rest, top⟩ := code
    have popped : Gives x (c.showing x bottom (k.address (offset + 1)) result c.operands)
        (execute (k.address (offset + 1)) .popResult) ()
        (c.showing x bottom (k.address (offset + 1)) w rest) fun _ _ => True := by
      rw [top]
      exact (gives_pop rfl).bind (gives_setResult w)
    rw [← one] at popped
    refine turns_of_gives (v := c.showing x bottom (k.address offset) result c.operands) ready pops
      popped ?_ shows_
    rw [one]
    exact .stays rfl rfl (fun _ => quiet_of_opAt ready drops rfl) (.leaving drops (returning goes))

theorem Here.turns (here : Here x c f k instr after offset constant pieces)
    (grounds : Grounds x root bottom) (shaped : c.Shaped x.program.functions root)
    (some_ : instr ≠ .nop) (shows_ : Shows x (c.view x bottom (k.address offset) result) m) :
    Turns x root bottom c.callers (c.view x bottom (k.address offset) result) m := by
  have ready := grounds.ready
  cases calls : instr.callee? with
  | none =>
    by_cases returns : instr = .ret
    · subst returns
      exact here.after_ret ready shaped shows_
    · obtain ⟨op, opAt, quiet, stays⟩ := here.first ready some_
      have current := shaped.current_of_found here.code.found
      refine ⟨op, opAt, (here.leads_plain grounds current calls some_ returns
        shows_).after.mono fun _ u shown => ?_⟩
      exact turn_of_shown ready shaped here.step_eq (keeps_perform calls returns) quiet stays shown
  | some callee =>
    obtain ⟨g, found⟩ := here.known calls
    cases native : g.native? with
    | some routine =>
      have same : g = .ofNative routine := ready.tidy.natives _ _ _ found native
      subst same
      obtain rfl := here.eq_call calls found
      exact here.after_routine ready shaped found shows_
    | none => exact here.after_managed grounds shaped calls found native shows_

theorem Stage.turn {v : View} (stage : Stage x root bottom callers v)
    (grounds : Grounds x root bottom) (shows_ : Shows x v m) :
    Turns x root bottom callers v m := by
  have ready := grounds.ready
  cases stage with
  | @at_ c ip result shaped address =>
    -- Instructions without code of their own come to nothing in the machine: skip them.
    obtain ⟨c', settled⟩ := settles bottom ready shaped address
    have shaped' := settled.reaches.shaped ready shaped
    obtain ⟨f, k, instr, after, offset, constant, pieces, here, some_, rfl⟩ := settled.here
    rw [← settled.view] at shows_ ⊢
    rw [← settled.callers]
    exact here.turns grounds shaped' some_ shows_
  | noting here calling => exact after_noting grounds here calling shows_
  | calling calling => exact after_calling calling ready shows_
  | entering code words count shaped => exact after_entering ready code words count shaped shows_
  | leaving here returning => exact after_leaving ready here returning shows_
  | returning returning => exact after_returning returning grounds shows_
  | back resuming => exact after_back ready resuming shows_
  | taking resuming some_ => exact after_taking ready resuming some_ rfl shows_

end Turns

end ManagedCode
