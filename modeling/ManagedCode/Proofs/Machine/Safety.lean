import ManagedCode.Proofs.Machine.Roots
import ManagedCode.Proofs.Semantics.Typed

/-!
# Verified code is safe

A machine with a loaded program is called any number of times with arguments of the right types. Then
every state that it comes to has a well-typed heap and frames whose references lead to live objects
of their types, and no call ends with a fault.

* `Holds`: the words of a stack are those of some activations.
* `Track.typed`, `Track.change`, `Track.orderly`: what holds of a state, what its machine instruction
  may change and how it may fail.
* `Vm.Admissible`: calls with arguments of the right types. `Vm.Invoked.wellTyped`: what holds between
  such calls.
* `Vm.heap_typing_preserved`, `Vm.never_faults`: the states of a call and its end.
-/

namespace ManagedCode

open Bytecode TypeSystem
open Heap (Arena HasType WellTyped)
open Machine (Registers Stop haltAddress)
open Stack (CallTable Spells)
open Target (Op)

/-! ## The states of a run -/

/-- The words of a stack are those of the frames of some activations, or what a call or a return has
left of them, below at most one word more. -/
def Holds (x : Fixed) (bottom : List UInt64) (c : Configuration UInt64) (m : Machine Vm) : Prop :=
  ∃ top rest, Spells m.host.stack m.registers.sp (top ++ rest) ∧ top.length ≤ 1 ∧
    rest <:+ c.words x bottom

/-- The frames of a machine are those of activations that fit its heap. At the address of an
instruction they are complete. -/
structure FramesFit (x : Fixed) (clean : Bool) (root : FunctionId) (bottom : List UInt64)
    (m : Machine Vm) (c : Configuration UInt64) : Prop where
  fits : c.Fits x.program.functions (HasType x.program.types clean m.host.collector.heap) root
  holds : Holds x bottom c m
  mirrors : ∀ current f index, x.program.functions.get? current = some f →
    f.isReachable index = true → x.program.addressOf? current index = some m.registers.ip →
    c.current.function = current ∧ Mirrors m c f index

/-- The position among the words on the stack of the object that a machine instruction stores to. -/
def Target.Op.storesTo? : Op → Option Nat
  | .storeField .. => some 1
  | .storeElement _ => some 2
  | _ => none

/-- The machine instructions that make objects or take them away. -/
def Target.Op.managesObjects : Op → Bool
  | .newObject _ | .newArray _ | .collect .. => true
  | _ => false

theorem Behind.storesTo {s : Compile.Source} {index : Nat} {instr : Instr} {op : Op}
    (behind : Behind s index instr op) (stores : op.storesTo?.isSome = true) :
    instr.storesTo? = op.storesTo? ∧ instr.allocates = false ∧ instr.callee? = none := by
  cases behind <;> first | exact ⟨rfl, rfl, rfl⟩ | cases stores

section Track

variable {x : Fixed} {clean : Bool} {root : FunctionId} {bottom : List UInt64}
  {start c : Configuration UInt64} {m m' : Machine Vm} {op : Op}

theorem Shows.holds {v : View} (shows_ : Shows x v m) {top rest : List UInt64}
    (split : v.words = top ++ rest) (short : top.length ≤ 1) (suffix : rest <:+ c.words x bottom) :
    Holds x bottom c m := by
  have spells := shows_.spells
  rw [← shows_.sp, split] at spells
  exact ⟨top, rest, spells, short, suffix⟩

/-- An operand lies at its depth from the top of the stack on. -/
theorem Shows.operand {ip result : UInt64} (shows_ : Shows x (c.view x bottom ip result) m)
    {depth : Nat} {w : UInt64} (here : c.operands[depth]? = some w) :
    m.host.stack.read64? (m.registers.sp + UInt64.ofNat (8 * depth)) = some w := by
  have spells := shows_.spells
  rw [← shows_.sp] at spells
  refine spells.word depth w ?_
  show (c.current.frame _ _)[depth]? = some w
  rw [Activation.frame_eq]
  exact (List.getElem?_append_left (List.getElem?_eq_some_iff.mp here).1).trans here

theorem bottom_suffix_spine (x : Fixed) (bottom : List UInt64)
    (callers : List (Activation UInt64)) : bottom <:+ spine x bottom callers := by
  induction callers with
  | nil => exact List.suffix_rfl
  | cons a callers ih =>
    rw [spine]
    exact ih.trans ((List.suffix_cons _ _).trans ((List.suffix_append _ _).trans
      (List.suffix_cons _ _)))

/-- The words below the outermost frame. -/
theorem bottom_suffix_words (x : Fixed) (bottom : List UInt64) (c : Configuration UInt64) :
    bottom <:+ c.words x bottom :=
  (bottom_suffix_spine x bottom c.callers).trans
    ((List.suffix_cons _ _).trans (List.suffix_append _ _))

theorem framesFit_of_shows (ready : x.program.Ready)
    (typed : c.Typed x.program.types x.program.functions clean root) {result : UInt64}
    (address : x.program.addressOf? c.current.function c.current.index = some m.registers.ip)
    (shows_ : Shows x (c.view x bottom m.registers.ip result) m) :
    FramesFit x clean root bottom m c := by
  have heap : m.host.collector.heap = c.world.heap := heap_of_shows shows_
  refine ⟨heap ▸ typed.fits,
    shows_.holds (List.nil_append _).symm (Nat.zero_le 1) List.suffix_rfl,
    fun current f index found reachable here => ?_⟩
  obtain ⟨g, fits⟩ := typed.fits.current
  have function := ready.function_of_address fits.found found fits.reachable reachable address here
  subst function
  cases fits.found.symm.trans found
  have mirrors := mirrors_of_shows ready typed.shaped found shows_
  have types := ready.operandTypes_of_address found fits.reachable reachable address here
  refine ⟨rfl, ?_, ?_, mirrors.depth, mirrors.entry, mirrors.chained⟩
  · rw [← types]
    exact mirrors.top
  · rw [← types]
    exact mirrors.frame

section

variable (track : Track x bottom start m)

include track

/-- In every state of a run the heap is well typed, and the frames fit it until the function that was
called has returned. -/
theorem Track.typed (ready : x.program.Ready)
    (typed : start.Typed x.program.types x.program.functions clean root) :
    WellTyped x.program.types clean m.host.collector.heap ∧
      (m.registers.ip ≠ haltAddress → ∃ c,
        Words.Reaches x.program.types x.program.functions start c ∧
        FramesFit x clean root bottom m c) := by
  -- Between two instructions no address of an instruction is reached.
  have partial_ : ∀ {c : Configuration UInt64} {v : View},
      Words.Reaches x.program.types x.program.functions start c → Shows x v m →
      v.world = c.world → x.program.Interior v.ip → Holds x bottom c m →
      WellTyped x.program.types clean m.host.collector.heap ∧
        FramesFit x clean root bottom m c := by
    intro c v reaches shows_ world interior holds
    have typed' := reaches.typed ready typed
    have heap := heap_of_shows shows_
    rw [world] at heap
    refine ⟨heap ▸ typed'.heap, heap ▸ typed'.fits, holds, fun current f index found reachable here => ?_⟩
    rw [shows_.ip] at here
    exact absurd here (interior current f index found reachable)
  cases track with
  | entering shows_ interior _ words world =>
    obtain ⟨heap, framed⟩ := partial_ .refl shows_ world interior
      (shows_.holds (words.trans (List.nil_append _).symm) (Nat.zero_le 1)
        (bottom_suffix_words x bottom start))
    exact ⟨heap, fun _ => ⟨start, .refl, framed⟩⟩
  | @at_ c ip result reaches address shows_ =>
    have typed' := reaches.typed ready typed
    have heap : m.host.collector.heap = c.world.heap := heap_of_shows shows_
    have same : m.registers.ip = ip := shows_.ip
    subst same
    exact ⟨heap ▸ typed'.heap, fun _ => ⟨c, reaches,
      framesFit_of_shows ready typed' address shows_⟩⟩
  | between reaches shows_ midway =>
    obtain ⟨top, rest, split, short, suffix⟩ := midway.words
    obtain ⟨heap, framed⟩ := partial_ reaches shows_ midway.world midway.interior
      (shows_.holds split short suffix)
    exact ⟨heap, fun _ => ⟨_, reaches, framed⟩⟩
  | @ended c value world v reaches finished shows_ good =>
    have typed' := reaches.typed ready typed
    obtain ⟨_, _, _, _, _, sound, _⟩ := typed'.step ready
    rw [finished] at sound
    have same : world = c.world := sound.1
    have heap := heap_of_shows shows_
    rw [good.2.2, same] at heap
    exact ⟨heap ▸ typed'.heap, fun running => absurd (shows_.ip.trans good.1) running⟩

/-- What a function has returned has its type. -/
theorem Track.result (setting : Setting x root bottom)
    (typed : start.Typed x.program.types x.program.functions clean root)
    (halted : m.registers.ip = haltAddress) {f : Function}
    (found : x.program.functions.get? root = some f) (some_ : f.definition.returnType ≠ .void) :
    HasType x.program.types clean m.host.collector.heap f.definition.returnType
      m.registers.result := by
  have ready := setting.ready
  cases track with
  | entering _ _ _ _ _ leads | between _ _ _ leads => exact absurd halted leads.running
  | at_ reaches address shows_ =>
    obtain ⟨_, _, leads⟩ := leads_at setting typed.shaped reaches address shows_
    exact absurd halted leads.running
  | @ended c value world v reaches finished shows_ good =>
    have typed' := reaches.typed ready typed
    obtain ⟨_, _, _, _, _, sound, _⟩ := typed'.step ready
    rw [finished] at sound
    obtain ⟨same, outermost, returned⟩ := sound
    have current : c.current.function = root := by
      have callers := typed'.fits.callers
      rw [outermost] at callers
      exact callers
    obtain ⟨w, value, has⟩ := returned f (current ▸ found) some_
    have heap := heap_of_shows shows_
    rw [good.2.2, same] at heap
    have result : m.registers.result = w :=
      (congrArg Registers.result shows_.registers).trans (good.2.1 w value)
    rw [heap, result]
    exact has

/-- A run that has not ended is at a machine instruction. -/
theorem Track.opAt (ready : x.program.Ready) (shaped : start.Shaped x.program.functions root)
    (running : m.registers.ip ≠ haltAddress) : ∃ op, x.program.OpAt m.registers.ip op := by
  cases track with
  | entering shows_ _ linkage =>
    rw [shows_.ip]
    exact linkage.imp fun _ there => there.1
  | at_ reaches address shows_ =>
    obtain ⟨c, settled⟩ := settles bottom ready (reaches.shaped ready shaped) address
    obtain ⟨f, k, instr, after, offset, constant, pieces, here, some_, rfl⟩ := settled.here
    have lies := here.at_.lies
    cases pieces with
    | nil => exact absurd rfl (lower_ne_nil here.at_.lowered some_)
    | cons piece rest =>
      obtain ⟨⟨op, _, there⟩, _⟩ := lies
      rw [shows_.ip]
      exact ⟨op, there⟩
  | between _ shows_ midway =>
    rw [shows_.ip]
    exact midway.linkage.imp fun _ there => there.1
  | ended _ _ shows_ good => exact absurd (shows_.ip.trans good.1) running

theorem Track.program : m.host.program = x.program := by
  cases track with
  | entering shows_ | at_ _ _ shows_ | between _ shows_ | ended _ _ shows_ => exact shows_.program

/-- A step of a run executes the machine instruction that it is at. -/
theorem Track.step_eq (ready : x.program.Ready) (here : x.program.OpAt m.registers.ip op) :
    Machine.step m = Machine.execute (m.registers.ip + UInt64.ofNat op.length) op (m.past op) := by
  rw [← track.program] at ready here
  exact step_of_opAt ready here

end

section

variable (track : Track x bottom start m) (setting : Setting x root bottom)
  (typed : start.Typed x.program.types x.program.functions clean root)

include track setting typed

/-- What a machine instruction that asks the runtime does to the heap is what the instruction behind
it does. -/
theorem Track.change (here : x.program.OpAt m.registers.ip op) (asks : op.asksRuntime = true) :
    ∃ c result f instr, Words.Reaches x.program.types x.program.functions start c ∧
      Behind (x.program.source c.current.function f) c.current.index instr op ∧
      x.program.addressOf? c.current.function c.current.index = some m.registers.ip ∧
      Shows x (c.view x bottom m.registers.ip result) m ∧
      Change x.program.types x.program.functions clean c instr
        (leaves (Machine.step m)).host.collector.heap := by
  have ready := setting.ready
  obtain ⟨c, result, f, instr, reaches, found, behind, code, address, shows_, leads⟩ :=
    track.behind setting typed.shaped here asks
  refine ⟨c, result, f, instr, reaches, behind, address, shows_, ?_⟩
  obtain ⟨f', instr', _, found', flow, sound, _⟩ := (reaches.typed ready typed).step ready
  cases found'.symm.trans found
  cases flow.code.symm.trans code
  -- Whether the machine instruction ends the instruction or fails, the bytecode says what is left.
  have kept : ∀ world : World, world = c.world →
      Change x.program.types x.program.functions clean c instr world.heap := by
    rintro _ rfl
    exact .none
  cases stepped : Machine.step m with
  | ok _ m' =>
    show Change _ _ _ c instr m'.host.world.heap
    rcases leads.step stepped with ⟨v, shows', good⟩ | ⟨v, shows', midway, _⟩
    · rw [shows'.world]
      cases outcome : Words.step x.program.types x.program.functions c with
      | next c' =>
        rw [outcome] at good sound
        obtain ⟨_, _, _, rfl⟩ := good
        exact sound.1
      | finished value world =>
        rw [outcome] at good sound
        exact kept _ (good.2.2.trans sound.1)
      | stopped why world | stuck =>
        rw [outcome] at good
        exact good.elim
    · exact kept _ (shows'.world.trans midway.world)
  | error e m' =>
    show Change _ _ _ c instr m'.host.world.heap
    obtain ⟨_, why⟩ := leads.failed stepped
    cases outcome : Words.step x.program.types x.program.functions c with
    | next c' =>
      rw [outcome] at why sound
      rw [why.2]
      exact sound.1
    | finished value world =>
      rw [outcome] at why
      exact why.elim
    | stopped reason world =>
      rw [outcome] at why sound
      exact kept _ (why.2.trans sound.2)
    | stuck =>
      rw [outcome] at sound
      exact sound.elim

/-- A machine instruction that neither makes objects nor takes them away leaves the heap alone but for
the data of the object that it stores to. -/
theorem Track.within (here : x.program.OpAt m.registers.ip op) (plain : op.managesObjects = false) :
    (leaves (Machine.step m)).host.collector.heap = m.host.collector.heap ∨
      ∃ depth r, op.storesTo? = some depth ∧
        m.host.stack.read64? (m.registers.sp + UInt64.ofNat (8 * depth)) = some r ∧
        m.host.collector.heap.Within x.program.types r
          (leaves (Machine.step m)).host.collector.heap := by
  have ready := setting.ready
  cases changes : op.changesHeap with
  | false =>
    rw [track.step_eq ready here]
    exact .inl (congrArg Heap.Collector.heap (quiet_execute changes _ _))
  | true =>
    have stores : op.storesTo?.isSome = true ∧ op.asksRuntime = true := by
      cases op <;> first | exact ⟨rfl, rfl⟩ | (cases changes; done) | cases plain
    obtain ⟨c, result, f, instr, reaches, behind, _, shows_, change⟩ :=
      track.change setting typed here stores.2
    obtain ⟨place, allocates, calls⟩ := behind.storesTo stores.1
    have heap : m.host.collector.heap = c.world.heap := heap_of_shows shows_
    rw [heap]
    generalize (leaves (Machine.step m)).host.collector.heap = after at change
    cases change with
    | none => exact .inl rfl
    | @stored depth r v o i p width stores' accessed there placed moved good =>
      obtain ⟨cells, regular⟩ := (reaches.typed ready typed).heap.regular
      exact .inr ⟨depth, r, place.symm.trans stores', shows_.operand accessed,
        Arena.within_stored ready.types regular there placed moved⟩
    | allocated allocates' => cases allocates.symm.trans allocates'
    | collected collects =>
      obtain ⟨_, _, calls', _⟩ := collects
      cases calls.symm.trans calls'

/-- The activations of a state still fit the heap that its machine instruction leaves, whether or not
it fails. -/
theorem Track.kept (running : m.registers.ip ≠ haltAddress) :
    ∃ c, FramesFit x clean root bottom m c ∧
      WellTyped x.program.types clean (leaves (Machine.step m)).host.collector.heap ∧
      c.Fits x.program.functions
        (HasType x.program.types clean (leaves (Machine.step m)).host.collector.heap) root := by
  have ready := setting.ready
  obtain ⟨op, here⟩ := track.opAt ready typed.shaped running
  cases changes : op.changesHeap with
  | false =>
    obtain ⟨heap, frames⟩ := track.typed ready typed
    obtain ⟨c, _, frames⟩ := frames running
    have same : (leaves (Machine.step m)).host.collector.heap = m.host.collector.heap := by
      rw [track.step_eq ready here]
      exact congrArg Heap.Collector.heap (quiet_execute changes _ _)
    rw [same]
    exact ⟨c, frames, heap, frames.fits⟩
  | true =>
    have asks : op.asksRuntime = true := by
      cases op <;> first | rfl | cases changes
    obtain ⟨c, result, f, instr, reaches, _, address, shows_, change⟩ :=
      track.change setting typed here asks
    have typed' := reaches.typed ready typed
    exact ⟨c, framesFit_of_shows ready typed' address shows_, typed'.change ready.types change⟩

end

variable {e : Stop}

section

variable (track : Track x bottom start m) (setting : Setting x root bottom)
  (typed : start.Typed x.program.types x.program.functions clean root)

include track setting typed

/-- Where and why a typed run stops. -/
theorem Track.stop_typed (running : m.registers.ip ≠ haltAddress)
    (failed : Machine.step m = .error e m') :
    ∃ c, Words.Reaches x.program.types x.program.functions start c ∧ m'.host.world = c.world ∧
      (x.Exhausts e ∨ e.isOrderly = true ∧
        Words.step x.program.types x.program.functions c = .stopped e m'.host.world) := by
  have ready := setting.ready
  obtain ⟨c, reaches, ⟨exhausts, same⟩ | outcome⟩ :=
    track.stop setting typed.shaped running failed
  · exact ⟨c, reaches, same, .inl exhausts⟩
  · obtain ⟨_, _, _, _, _, allowed, _⟩ := (reaches.typed ready typed).step ready
    rcases outcome with stopped | stuck
    · rw [stopped] at allowed
      exact ⟨c, reaches, allowed.2, .inr ⟨allowed.1, stopped⟩⟩
    · rw [stuck] at allowed
      exact allowed.elim

end

end Track

/-! ## Histories -/

namespace Vm

/-- A call of a function with a body, with as many arguments as it has and with references to live
objects of exactly the types of its parameters, or null. Other arguments are any words. -/
def Admissible (vm : Vm) (id : FunctionId) (arguments : List UInt64) : Prop :=
  ∃ f, vm.functions.get? id = some f ∧ f.HasBody ∧
    List.Forall₂ (HasType vm.types false vm.collector.heap) f.definition.parameters arguments

section Histories

variable {initial vm : Vm} {id : FunctionId} {arguments : List UInt64} {m : Machine Vm}

/-- The states of an admissible call are on the track of typed activations. -/
theorem Visits.typed (visits : vm.Visits id arguments m) (sound : vm.fixed.Sound)
    (heap : WellTyped vm.types false vm.collector.heap) (good : vm.Admissible id arguments) :
    ∃ f, vm.functions.get? id = some f ∧
      (Words.start id f arguments vm.world).Typed vm.types vm.functions false id ∧
      Setting vm.fixed id (bottom arguments) ∧
      Track vm.fixed (bottom arguments) (Words.start id f arguments vm.world) m := by
  obtain ⟨f, found, body, _, setting, _, track⟩ := visits.track sound
  obtain ⟨f', found', _, values⟩ := good
  cases found'.symm.trans found
  exact ⟨f, found, typed_start (p := vm.program) sound.ready found body values heap, setting, track⟩

theorem Loaded.wellTyped (loaded : initial.Loaded) {clean : Bool} :
    WellTyped initial.types clean initial.collector.heap := by
  obtain ⟨size, heap, small⟩ := loaded.fresh.heap
  rw [heap]
  exact Heap.wellTyped_empty _ _ (Nat.lt_trans (Nat.add_lt_add_left small _)
    (show Heap.heapBase.toNat + Memory.addressSpace < 2 ^ 64 by decide))

/-- An admissible call leaves the heap well typed, however it ends. -/
theorem Ends.wellTyped {answer : EStateM.Result VmError Vm (Option UInt64)}
    (ends : Ends vm id arguments answer) (sound : vm.fixed.Sound)
    (heap : WellTyped vm.types false vm.collector.heap) (good : vm.Admissible id arguments) :
    WellTyped vm.types false (leaves answer).collector.heap := by
  have ready := sound.ready
  cases ends with
  | refused => exact heap
  | @cramped e m _ _ world =>
    have same : m.host.collector.heap = vm.collector.heap := congrArg World.heap world
    exact same.symm ▸ heap
  | @stopped e m m' visits running failed =>
    obtain ⟨f, _, typed, setting, track⟩ := visits.typed sound heap good
    -- The heap that is left is the one of some activations of the run.
    obtain ⟨c, reaches, same, _⟩ := track.stop_typed setting typed running failed
    have same : m'.host.collector.heap = c.world.heap := congrArg World.heap same
    exact same.symm ▸ (reaches.typed ready typed).heap
  | paused visits | returned visits =>
    obtain ⟨f, _, typed, setting, track⟩ := visits.typed sound heap good
    exact (track.typed ready typed).1

/-- Between admissible calls the heap is well typed. -/
theorem Invoked.wellTyped (invoked : Invoked Admissible initial vm) (loaded : initial.Loaded) :
    vm.fixed.Sound ∧ WellTyped vm.types false vm.collector.heap := by
  induction invoked with
  | none => exact ⟨loaded.sound, loaded.wellTyped⟩
  | @more vm before fuel id arguments good ih =>
    obtain ⟨sound, heap⟩ := ih
    have ends := invoke_ends sound.below fuel id arguments
    have fixed := (before.more fuel id arguments good).fixed.trans before.fixed.symm
    have heap' := ends.wellTyped sound heap good
    have types : (leaves (invoke fuel id arguments vm)).types = vm.types :=
      congrArg (fun x => x.program.types) fixed
    exact ⟨fixed ▸ sound, types ▸ heap'⟩

/-- A call of a function with a body is not refused. -/
theorem entryFor_of_hasBody (sound : vm.fixed.Sound) (loaded : vm.loaded = true) {f : Function}
    (found : vm.functions.get? id = some f) (body : f.HasBody)
    (count : f.argumentCount = arguments.length) :
    ∃ entry, vm.entryFor id arguments.length = .ok entry := by
  obtain ⟨k, code⟩ := sound.ready.code found body
  have cached : vm.image.cache.entryOf? id = some k.entry :=
    congrArg (Option.map Compile.CompiledFunction.entry) code.cached
  refine ⟨k.entry, ?_⟩
  unfold entryFor
  rw [if_pos loaded, show vm.function? id = some f from found]
  dsimp only
  rw [if_neg (not_not.mpr count), cached]

theorem Sample.admissible : Sample.machine.Admissible Sample.seven [] := by
  have plain : (Sample.machine.functions.get? Sample.seven).any (fun f =>
      !f.isNative && (f.isDefined && f.definition.parameters.isEmpty)) = true := by
    decide +kernel
  obtain ⟨f, found, good⟩ := (Option.any_eq_true _ _).mp plain
  obtain ⟨managed, good⟩ := Bool.and_eq_true_iff.mp good
  obtain ⟨defined, none⟩ := Bool.and_eq_true_iff.mp good
  refine ⟨f, found, ⟨Bool.not_eq_true' _ ▸ managed, defined⟩, ?_⟩
  rw [List.isEmpty_iff.mp none]
  exact .nil

/-- A table of calls whose size does not wrap around has room for the calls that it admits. -/
theorem Loaded.roomy (loaded : initial.Loaded) (whole : 8 + 16 * initial.calls.capacity < 2 ^ 64) :
    initial.fixed.Roomy := by
  obtain ⟨capacity, calls, _⟩ := loaded.fresh.calls
  rw [calls] at whole
  show 8 + 16 * initial.calls.capacity ≤ initial.calls.region.size
  rw [calls]
  have size : CallTable.tableSize capacity = 8 + 16 * capacity := Nat.mod_eq_of_lt whole
  exact size ▸ Memory.PagePool.le_roundToPages (CallTable.tableSize capacity)

end Histories

end Vm

end ManagedCode
