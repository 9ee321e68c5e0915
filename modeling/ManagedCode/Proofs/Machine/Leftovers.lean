import ManagedCode.Proofs.Machine.Agreement
import ManagedCode.Proofs.Machine.Balance
import ManagedCode.Proofs.Machine.Roots

/-!
# What earlier runs leave on the stack

The stack is not cleared between runs, and neither are the entries of the table of calls. Compiled
code reads nothing of either that its own run has not written: whatever two machines hold there,
they run alike.

* `Stage.leave_inside`, `Here.loadSlot_inside`: where compiled code reaches below the top of the
  stack, it stays inside the words in use.
* `Machine.Agrees.shows`, `Machine.Agrees.walks`: machines that agree on the words in use have the
  same view, and a walk over their frames sees the same slots.
* `Vm.Visits.step_agrees`: machines that agree take each step of a call alike.
* `Vm.leftovers_never_leak`: two machines that differ in leftovers answer every call alike.
-/

namespace ManagedCode

open Bytecode TypeSystem
open Compile (CompiledFunction Piece Source)
open Memory (Region)
open Stack (Active CallTable FrameSlot Site Spells)
open Target (Op)

/-! ## Where compiled code reaches -/

variable {k : CompiledFunction} {callers : List (Activation UInt64)} {c : Configuration UInt64}

section Lowering

variable {s : Source} {index : Nat} {constant : UInt64} {instr : Instr} {pieces : List Piece}
  {piece : Piece} {distance : Int32}

/-- Calls read no slot of the frame. -/
theorem no_loadSlot_of_lowerCall {callee : FunctionId} {onObject : Bool}
    (lowered : s.lowerCall index callee onObject = .ok pieces) (mem : piece ∈ pieces) :
    piece.op ≠ .loadSlot distance := by
  intro loads
  obtain ⟨g, _, made⟩ := Source.calls_of_lowerCall lowered mem
  cases made with
  | call =>
    unfold Source.callPiece at loads
    split at loads <;> cases loads
  | _ => cases loads

/-- The instructions that load a slot, and the number of slots above it. -/
theorem loadSlot_of_lower (lowered : s.lower index constant instr = .ok pieces)
    (mem : piece ∈ pieces) (loads : piece.op = .loadSlot distance) :
    (∃ n, instr = .loadLocal n ∧ distance = Stack.below (s.function.argumentCount + n.toNat)) ∨
      ∃ n, instr = .loadArgument n ∧ distance = Stack.below n.toNat := by
  cases instr with
  | nop =>
    cases lowered
    cases mem
  | call callee | callInstance callee => exact absurd loads (no_loadSlot_of_lowerCall lowered mem)
  | ret => rcases Source.mem_lower_ret lowered mem with rfl | rfl | rfl <;> cases loads
  | loadElement type | storeElement type | loadField r | storeField r =>
    obtain ⟨_, _, rfl⟩ := Source.eq_of_width lowered mem
    cases loads
  | loadLocal n =>
    cases lowered
    cases List.mem_singleton.mp mem
    cases loads
    exact .inl ⟨n, rfl, rfl⟩
  | loadArgument n =>
    cases lowered
    cases List.mem_singleton.mp mem
    cases loads
    exact .inr ⟨n, rfl, rfl⟩
  | _ =>
    cases lowered
    cases List.mem_singleton.mp mem
    cases loads

/-- What loads a slot is not patched. -/
theorem loadSlot_of_resolves {p : Program} {placed : Compile.Placed} {op : Op}
    (resolves : p.Resolves k placed op) (loads : op = .loadSlot distance) :
    placed.piece.op = .loadSlot distance := by
  cases resolves with
  | done => exact loads
  | branch =>
    unfold Compile.withDistance at loads
    split at loads
    · cases loads
    · cases loads
    · cases loads
    · exact loads
  | self | call => cases loads

end Lowering

variable {v : View} {f : Function} {ip result : UInt64}

section Inside

variable {x : Fixed} {root : FunctionId} {bottom : List UInt64} {m : Machine Vm}

theorem length_words (c : Configuration UInt64) :
    (c.words x bottom).length = c.current.slots.length + (height bottom c.callers + 1) := by
  rw [Configuration.words, Activation.length_frame, length_spine]

/-- The base of the innermost frame lies in use where a machine is about to drop the frame. -/
theorem Stage.leave_inside (stage : Stage x root bottom callers v) (ready : x.program.Runnable)
    (shows_ : Shows x v m) (here : x.program.OpAt v.ip .leave) :
    m.registers.sp.toNat ≤ m.registers.bp.toNat := by
  have fits := shows_.fits
  have lower {n : Nat} (base : v.bp = x.place n) (used : n ≤ v.words.length) :
      m.registers.sp.toNat ≤ m.registers.bp.toNat := by
    rw [shows_.sp, shows_.bp, base, shows_.toNat_place, shows_.toNat_place]
    omega
  -- A frame is dropped where a return starts or once its result is popped, and nowhere else.
  cases stage with
  | at_ =>
    refine lower rfl ?_
    rw [Configuration.view, length_words]
    exact Nat.le_add_left _ _
  | noting there => cases opAt_unique ready here there
  | calling calling =>
    have calls := calling.calls
    cases opAt_unique ready here calling.here
    cases calls
  | entering code => cases opAt_unique ready here code.enter
  | leaving =>
    refine lower rfl ?_
    simp only [Configuration.showing, Configuration.low, List.length_append, List.length_cons,
      length_spine]
    omega
  | returning returning => cases opAt_unique ready here returning.goes
  | back resuming => cases opAt_unique ready here resuming.awaits.dropped
  | taking resuming some_ =>
    have next := resuming.awaits.next
    rw [if_neg some_] at next
    cases opAt_unique ready here next.1

/-- A slot that an instruction loads lies in use. -/
theorem Here.loadSlot_inside {instr : Instr} {after : OperandTypes} {offset : Nat}
    {constant : UInt64} {pieces : List Piece} {distance : Int32}
    (here : Here x c f k instr after offset constant pieces) (ready : x.program.Runnable)
    (shaped : c.Shaped x.program.functions root) (some_ : instr ≠ .nop)
    (there : x.program.OpAt (k.address offset) (.loadSlot distance))
    (shows_ : Shows x (c.view x bottom ip result) m) :
    m.registers.sp.toNat ≤ (Stack.slotAddress m.registers.bp distance).toNat := by
  have lies := here.at_.lies
  have lowered := here.at_.lowered
  have effect := here.flow.effect
  have fewArguments := here.code.arguments
  have fewLocals := here.code.locals
  obtain ⟨f', fits⟩ := shaped.current
  cases fits.found.symm.trans here.code.found
  have arguments : f.argumentCount = c.current.arguments.length := fits.arguments.length_eq
  have locals : f.locals.length = c.current.locals.length := fits.locals.length_eq
  have length : (c.view x bottom ip result).words.length
      = c.current.arguments.length + (c.current.locals.length + c.current.operands.length)
        + (height bottom c.callers + 1) := by
    rw [Configuration.view, length_words, Activation.slots]
    simp only [List.length_append, List.length_reverse]
  have room := shows_.fits
  -- Slots count down from the base of the frame: arguments, then locals, then operands.
  have inside {slot : Nat} (own : slot < f.argumentCount + f.locals.length)
      (same : distance = Stack.below slot) :
      m.registers.sp.toNat ≤ (Stack.slotAddress m.registers.bp distance).toNat := by
    rw [same, shows_.sp, shows_.bp, show (c.view x bottom ip result).bp
      = x.place (height bottom c.callers + 1) from rfl,
      slotAddress_below (by omega) (by omega) shows_.below, shows_.toNat_place, shows_.toNat_place]
    omega
  cases pieces with
  | nil => exact absurd rfl (lower_ne_nil lowered some_)
  | cons piece rest =>
    obtain ⟨⟨op', resolves, there'⟩, _⟩ := lies
    have loads := loadSlot_of_resolves resolves (opAt_unique ready there' there)
    rcases loadSlot_of_lower lowered List.mem_cons_self loads with ⟨n, rfl, same⟩ | ⟨n, rfl, same⟩
    · cases effect with
      | loadLocal found =>
        have bound := (List.getElem?_eq_some_iff.mp found).1
        exact inside (Nat.add_lt_add_left bound _) same
    · cases effect with
      | loadArgument found =>
        have bound : n.toNat < f.argumentCount := (List.getElem?_eq_some_iff.mp found).1
        exact inside (Nat.lt_add_right _ bound) same

end Inside

/-! ## Walks -/

section Walks

variable {x : Fixed} {bottom : List UInt64} {m n : Machine Vm}

/-- What agrees with a machine shows the same. -/
theorem Machine.Agrees.shows (agrees : m.Agrees n) (shows_ : Shows x v m) : Shows x v n := by
  obtain ⟨stack, calls, slots, below, entries, host⟩ := agrees.host
  have spells := shows_.spells
  refine ⟨?_, ?_, agrees.registers.trans shows_.registers, ?_, ?_⟩
  · rw [host, ← shows_.fixed]
    unfold Vm.holding Vm.fixed Vm.program
    dsimp only
    rw [slots.base, slots.size, entries.region.base, entries.region.size, entries.capacity]
  · rw [host]
    exact shows_.world
  · rw [host]
    refine ⟨slots.base ▸ spells.low, slots.base ▸ slots.size ▸ spells.reach,
      slots.base ▸ slots.size ▸ spells.below, fun k w here => ?_⟩
    have bound := (List.getElem?_eq_some_iff.mp here).1
    have place := spells.toNat_place (Nat.le_of_lt bound)
    refine (slots.readWord? fun a low _ => ?_).trans (spells.word k w here)
    rw [shows_.sp]
    omega
  · rw [host]
    exact ⟨entries.depth.trans shows_.lists.depth, fun back call here =>
      (entries.get? back).trans (shows_.lists.entry back call here)⟩

theorem mapM_congr {ε α β : Type} {f g : α → Except ε β} {l : List α}
    (same : ∀ a ∈ l, f a = g a) : l.mapM f = l.mapM g := by
  induction l with
  | nil => rfl
  | cons a rest ih =>
    rw [List.mapM_cons, List.mapM_cons, same a List.mem_cons_self,
      ih fun b mem => same b (List.mem_cons_of_mem _ mem)]

section Words

variable {stack stack' : Region} {R : TypeId → UInt64 → Prop}

/-- Stacks with the same words have the same slots in a frame. -/
theorem slots_congr {a : Activation UInt64} (on : OnStack x bottom stack a callers)
    (on' : OnStack x bottom stack' a callers) (small : x.stackSize ≤ 2 ^ 31)
    {functions : FunctionTable} (fits : a.Fits functions R f) :
    Active.slots ⟨baseOf x bottom (a :: callers), f, a.index⟩ stack'
      = Active.slots ⟨baseOf x bottom (a :: callers), f, a.index⟩ stack := by
  refine mapM_congr ?_
  rintro ⟨kind, index, type, distance⟩ mem
  have placed : distance ∈ (Active.slotPlan ⟨baseOf x bottom (a :: callers), f, a.index⟩).map
      (·.2.2.2) := List.mem_map.mpr ⟨_, mem, rfl⟩
  rw [slotPlan_distances, length_slotPlan fits] at placed
  obtain ⟨k, range, rfl⟩ := List.mem_map.mp placed
  have bound : k < a.slots.length := by
    obtain ⟨_, bound, rfl⟩ := List.mem_range'.mp range
    omega
  have here := List.getElem?_eq_getElem bound
  dsimp only
  rw [on.read_slot small here, on'.read_slot small here]

theorem visitFrames_congr (active : List (Activation UInt64))
    (stacked : Stacked x bottom stack active) (stacked' : Stacked x bottom stack' active)
    (small : x.stackSize ≤ 2 ^ 31) (fits : ∀ a ∈ active, ∃ f, a.Fits x.program.functions R f) {frames : List Active}
    (framed : Framed x bottom active frames) (visited : Array (Active × FrameSlot)) :
    Stack.visitFrames stack' frames visited = Stack.visitFrames stack frames visited := by
  induction framed generalizing visited with
  | nil => rfl
  | @cons a callers f frames found rest ih =>
    obtain ⟨g, fit⟩ := fits a List.mem_cons_self
    cases found.symm.trans fit.found
    have on : OnStack x bottom stack a callers := stacked
    have on' : OnStack x bottom stack' a callers := stacked'
    rw [Stack.visitFrames, Stack.visitFrames, slots_congr on on' small fit]
    have later := ih on.stacked on'.stacked (fun b mem => fits b (List.mem_cons_of_mem _ mem))
    simp only [later]

end Words

/-- Machines that agree walk over the same frames and see the same slots. -/
theorem Machine.Agrees.walks {root : FunctionId} (agrees : m.Agrees n) (ready : x.program.Ready)
    (small : x.stackSize ≤ 2 ^ 31) (shaped : c.Shaped x.program.functions root)
    (shows_ : Shows x (c.view x bottom ip result) m) {site : Site}
    (place : site = Vm.siteAt m.registers.bp c.current.function.toBits (UInt32.ofNat c.current.index)) :
    Stack.frames n.host.stack n.host.calls n.host.functions site
        = Stack.frames m.host.stack m.host.calls m.host.functions site ∧
      Stack.visit n.host.stack n.host.calls n.host.functions site
        = Stack.visit m.host.stack m.host.calls m.host.functions site := by
  have shows' := agrees.shows shows_
  have active := shaped.active
  have known := known_of_fits ready active
  have functions : n.host.functions = m.host.functions :=
    congrArg Program.functions (shows'.program.trans shows_.program.symm)
  have bp : m.registers.bp = baseOf x bottom c.active := shows_.bp
  rw [bp, siteAt_eq _ _ (known _ List.mem_cons_self).2] at place
  subst place
  -- Both chains of frames are determined by the configuration that the machines show.
  have walked : Stack.frames n.host.stack n.host.calls n.host.functions
        ⟨baseOf x bottom c.active, c.current.function, c.current.index⟩
      = Stack.frames m.host.stack m.host.calls m.host.functions
        ⟨baseOf x bottom c.active, c.current.function, c.current.index⟩ := by
    unfold Stack.frames
    rw [chain_of_shows shows_, chain_of_shows shows', functions]
  refine ⟨walked, ?_⟩
  obtain ⟨frames, found, framed⟩ := frames_of_shows shows_ known
  have same := visitFrames_congr c.active shows_.onStack shows'.onStack small active
    framed #[]
  unfold Stack.visit
  rw [walked, found]
  dsimp only
  rw [same]

end Walks

/-! ## Calls from outside -/

namespace Vm

section Visits

variable {vm : Vm} {id : FunctionId} {arguments : List UInt64} {m n : Machine Vm}

/-- A machine instruction that a call comes to reads only what is in use. -/
theorem Visits.step_agrees (visits : vm.Visits id arguments m) (sound : vm.fixed.Sound)
    (running : m.registers.ip ≠ Machine.haltAddress) (agrees : m.Agrees n) :
    Both Machine.Agrees (Machine.step m) (Machine.step n) := by
  obtain ⟨_, _, _, _, setting, shaped, track⟩ := visits.track sound
  obtain ⟨grounds, callers, v, shows_, stage⟩ := visits.staged sound.grounded running
  have ready := sound.ready
  obtain ⟨op, here, _⟩ := stage.turn grounds shows_
  have there : vm.program.OpAt m.registers.ip op := shows_.ip.symm ▸ here
  have low : m.registers.sp.toNat < 2 ^ 63 := by
    obtain ⟨stack, calls, _, below, _⟩ := agrees.host
    rw [shows_.stackBase, shows_.stackSize] at below
    rw [shows_.sp, shows_.toNat_place]
    omega
  have stepped : Machine.step m
      = Machine.execute (m.registers.ip + UInt64.ofNat op.length) op (m.past op) :=
    step_of_op? (by rw [shows_.program, shows_.ip]; exact ready.op?_eq_some here)
  have shows' := agrees.shows shows_
  have stepped' : Machine.step n
      = Machine.execute (m.registers.ip + UInt64.ofNat op.length) op (n.past op) := by
    rw [← agrees.registers]
    exact step_of_op? (by rw [shows'.program, shows'.ip]; exact ready.op?_eq_some here)
  have past : (m.past op).Agrees (n.past op) := by
    unfold Machine.past
    rw [agrees.registers]
    exact ⟨rfl, rfl, agrees.host⟩
  rw [stepped, stepped']
  -- Most machine instructions touch only the top of the stack. Where the others reach is known from
  -- the configuration that the machine shows.
  cases deep : op.reachesDown with
  | false => exact Machine.congruent_agrees.execute deep _ past
  | true =>
    cases op with
    | enter arguments locals => exact past.enter low
    | leave =>
      have inside := stage.leave_inside grounds.ready shows_ here
      exact past.leave inside
    | ret slots => exact past.ret low
    | nullCheck depth => exact past.nullCheck low
    | loadSlot distance =>
      obtain ⟨c, result, f, k, instr, after, offset, constant, pieces, reaches, at_, some_, ip,
        view⟩ := track.settled ready shaped there rfl
      have inside := at_.loadSlot_inside ready.toRunnable (reaches.shaped ready shaped) some_
        (ip ▸ there) view
      exact past.loadSlot inside
    | collect function instruction =>
      obtain ⟨c, result, reaches, place, view⟩ := track.walks setting shaped there rfl
      cases place
      obtain ⟨_, walked⟩ :=
        agrees.walks ready sound.small (reaches.shaped ready shaped) view rfl
      exact past.askFrom (Vm.collect · _ _) (agrees.host.collect walked)
    | printCallStack function instruction =>
      obtain ⟨c, result, reaches, place, view⟩ := track.walks setting shaped there rfl
      cases place
      obtain ⟨walked, _⟩ :=
        agrees.walks ready sound.small (reaches.shaped ready shaped) view rfl
      exact past.askFrom (Vm.printCallStack · _ _) (agrees.host.printCallStack walked)
    | _ => cases deep

end Visits

/-- A machine with other bytes on its stack and in its table of calls, which has another number of
entries. -/
def leftWith (vm : Vm) (slots entries : ByteArray) (depth : Nat) : Vm :=
  { vm with
    stack := { vm.stack with bytes := slots }
    calls := { vm.calls with region := { vm.calls.region with bytes := entries }, depth } }

/-- Machines that agree on what is in use differ in leftovers once their calls are cleared. -/
theorem AgreesFrom.leftWith {sp : UInt64} {vm vm' : Vm} (agrees : AgreesFrom sp vm vm') :
    ∃ slots entries depth, vm'.clearCalls = vm.clearCalls.leftWith slots entries depth := by
  obtain ⟨⟨base, size, bytes⟩, ⟨⟨base', size', bytes'⟩, capacity, depth⟩, slots, _, entries, rfl⟩ :=
    agrees
  obtain rfl : base = vm.stack.base := slots.base
  obtain rfl : size = vm.stack.size := slots.size
  obtain rfl : base' = vm.calls.region.base := entries.region.base
  obtain rfl : size' = vm.calls.region.size := entries.region.size
  obtain rfl : capacity = vm.calls.capacity := entries.capacity
  exact ⟨bytes, bytes', 0, rfl⟩

/-- The stack and the table of calls end well below the end of memory. -/
theorem Loaded.below {initial vm : Vm} (loaded : initial.Loaded)
    (same : vm.fixed = initial.fixed) :
    vm.stack.base.toNat + vm.stack.size < 2 ^ 63 ∧
      vm.calls.region.base.toNat + vm.calls.region.size < 2 ^ 64 := by
  constructor
  · obtain ⟨size, stack, small⟩ := loaded.fresh.stack
    rw [show vm.stack.base = initial.stack.base from congrArg Fixed.stackBase same,
      show vm.stack.size = initial.stack.size from congrArg Fixed.stackSize same, stack]
    exact Nat.lt_trans (Nat.add_lt_add_left small _)
      (show Stack.stackBase.toNat + Memory.addressSpace < 2 ^ 63 by decide)
  · obtain ⟨capacity, calls, small⟩ := loaded.fresh.calls
    rw [show vm.calls.region.base = initial.calls.region.base from congrArg Fixed.callsBase same,
      show vm.calls.region.size = initial.calls.region.size from congrArg Fixed.callsSize same,
      calls]
    exact Nat.lt_trans (Nat.add_lt_add_left small _)
      (show CallTable.tableBase.toNat + Memory.addressSpace < 2 ^ 64 by decide)

/-- A run starts with nothing in use. -/
theorem agrees_start {vm : Vm} (below : vm.stack.base.toNat + vm.stack.size < 2 ^ 63)
    (table : vm.calls.region.base.toNat + vm.calls.region.size < 2 ^ 64) (slots entries : ByteArray)
    (depth : Nat) (entry : UInt64) :
    (Machine.start vm.clearCalls entry).Agrees
      (Machine.start (vm.leftWith slots entries depth).clearCalls entry) := by
  refine ⟨rfl, rfl, (vm.leftWith slots entries depth).stack,
    (vm.leftWith slots entries depth).calls.clear, ⟨rfl, rfl, fun i bound used => ?_⟩, below,
    CallTable.agrees_clear rfl rfl rfl table, rfl⟩
  have stop : vm.stack.stop.toNat = vm.stack.base.toNat + vm.stack.size := by
    unfold Region.stop
    rw [UInt64.toNat_add, UInt64.toNat_ofNat']
    omega
  have bound : i < vm.stack.size := bound
  have used : vm.stack.stop.toNat ≤ vm.stack.base.toNat + i := used
  omega

/-- **Leftovers never leak into a run.** On a machine with a loaded program, whatever else its state
is, other bytes on the stack, other bytes in the table of calls and another number of calls in it
make no difference to a call: the answer or the error is the same, and so is the machine after it up
to such leftovers, with all of its heap, its statistics, its journal and its output. -/
theorem leftovers_never_leak {initial vm : Vm} (loaded : initial.Loaded)
    (same : vm.fixed = initial.fixed) (slots entries : ByteArray) (depth fuel : Nat)
    (id : FunctionId) (arguments : List UInt64) :
    Both (fun after after' => ∃ slots entries depth, after' = after.leftWith slots entries depth)
      (invoke fuel id arguments vm)
      (invoke fuel id arguments (vm.leftWith slots entries depth)) := by
  have sound : vm.fixed.Sound := same ▸ loaded.sound
  obtain ⟨below, table⟩ := loaded.below same
  have found : (vm.leftWith slots entries depth).entryFor id arguments.length
      = vm.entryFor id arguments.length := rfl
  refine both_invoke (I := vm.Visits id arguments) Machine.congruent_agrees
    (fun m n agrees => agrees.host.leftWith) ?_ id arguments found
    (agrees_start below table slots entries depth) ?_ ?_ ?_ fuel
  · exact ⟨slots, entries, depth, rfl⟩
  · rintro m m' ⟨first, starts, steps⟩ runs
    exact ⟨first, starts, steps.tail runs⟩
  · exact fun m starts => ⟨m, starts, .refl⟩
  · exact fun m n visits agrees running => visits.step_agrees sound running agrees

/-- The sample after a call that was given up in its first steps, with a frame on its stack. -/
def Sample.reused : Vm := leaves (invoke 2 Sample.seven [] Sample.machine)

/-- A call on a used machine gives what it gives with a cleared stack and a call left in the
table. -/
theorem leftovers_never_leak_reused :
    Sample.machine.Loaded ∧ Sample.reused.fixed = Sample.machine.fixed ∧
      Both (fun after after' => ∃ slots entries depth, after' = after.leftWith slots entries depth)
        (invoke 20 Sample.seven [] Sample.reused)
        (invoke 20 Sample.seven [] (Sample.reused.leftWith .empty .empty 1)) := by
  have invoked : Invoked (fun _ _ _ => True) Sample.machine Sample.reused :=
    .more .none 2 Sample.seven [] trivial
  have same := invoked.fixed
  exact ⟨Sample.loaded, same, leftovers_never_leak Sample.loaded same .empty .empty 1 20 _ _⟩

end Vm

end ManagedCode
