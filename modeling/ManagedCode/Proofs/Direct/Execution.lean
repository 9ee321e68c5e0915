import ManagedCode.Proofs.Direct.Simulation
import ManagedCode.Proofs.Machine.Safety

/-!
# Compiled code does what the bytecode means

A machine that calls a function of a loaded program and the bytecode read directly end in the same
way, unless the machine runs out of stack or of room for calls, and a machine goes on for as long as
the bytecode does.

* `Words.Halts`, `Track.terminates`: where the bytecode comes to an end, so does the machine.
* `Vm.Reflects`: the heap and the output of a machine are those of a state.
* `Vm.Agrees`: what a call gives is what the bytecode means.
* `Vm.meaning_preserved`: calls of loaded programs.
-/

namespace ManagedCode

open Bytecode TypeSystem
open Heap (HasType WellTyped)
open Machine (Stop Registers haltAddress resume step)

/-! ## Runs that end -/

def Words.Halts (types : TypeTable) (functions : FunctionTable) : Configuration UInt64 → Prop :=
  Acc fun c' c => Words.step types functions c = .next c'

section Halts

variable {types : TypeTable} {functions : FunctionTable} {c c' : Configuration UInt64}

theorem Words.Halts.reaches (halts : Words.Halts types functions c)
    (reaches : Words.Reaches types functions c c') : Words.Halts types functions c' := by
  induction reaches with
  | refl => exact halts
  | tail _ ran ih => exact ih.inv ran

/-- A run that comes to its last instruction. -/
theorem Words.Reaches.halts (reaches : Words.Reaches types functions c c')
    (last : ∀ c'', Words.step types functions c' ≠ .next c'') : Words.Halts types functions c := by
  induction reaches using Relation.ReflTransGen.head_induction_on with
  | refl => exact ⟨_, fun c'' ran => absurd ran (last c'')⟩
  | head ran _ ih =>
    refine ⟨_, fun c'' ran' => ?_⟩
    cases ran.symm.trans ran'
    exact ih

end Halts

/-- After some machine instructions a machine has halted or stops. -/
def Terminates (m : Machine Vm) : Prop :=
  ∃ last, Steps m last ∧
    (last.registers.ip = haltAddress ∨ ∃ e m', step last = .error e m')

section Terminates

variable {x : Fixed} {root : FunctionId} {bottom : List UInt64} {start c : Configuration UInt64}
  {m m' : Machine Vm} {inner Q : View → Prop} {E : Stop → World → Prop}

theorem Terminates.of_steps (steps : Steps m m') (terminates : Terminates m') : Terminates m := by
  obtain ⟨last, later, ended⟩ := terminates
  exact ⟨last, steps.trans later, ended⟩

/-- The machine instructions of an instruction come to an end. -/
theorem Leads.arrives (leads : Leads x inner Q E m) :
    Terminates m ∨ ∃ m' v, Steps m m' ∧ Shows x v m' ∧ Q v := by
  induction leads with
  | stop _ failed => exact .inl ⟨_, .refl, .inr ⟨_, _, failed⟩⟩
  | last running stepped shows_ good =>
    exact .inr ⟨_, _, .single ⟨running, stepped⟩, shows_, good⟩
  | more running stepped _ _ _ ih =>
    have first : Steps _ _ := .single ⟨running, stepped⟩
    rcases ih with terminates | ⟨m', v, steps, shows_, good⟩
    · exact .inl (terminates.of_steps first)
    · exact .inr ⟨m', v, first.trans steps, shows_, good⟩

theorem Leads.terminates
    (leads : Leads x inner ((Words.step x.program.types x.program.functions c).Shown x bottom) E m)
    (later : ∀ c' m ip result, Words.step x.program.types x.program.functions c = .next c' →
      x.program.addressOf? c'.current.function c'.current.index = some ip →
      Shows x (c'.view x bottom ip result) m → Terminates m) : Terminates m := by
  rcases leads.arrives with terminates | ⟨m', v, steps, shows_, good⟩
  · exact terminates
  · cases outcome : Words.step x.program.types x.program.functions c with
    | next c' =>
      rw [outcome] at good
      obtain ⟨ip, result, address, rfl⟩ := good
      exact .of_steps steps (later c' m' ip result outcome address shows_)
    | finished value world =>
      rw [outcome] at good
      exact ⟨m', steps, .inl (shows_.ip.trans good.1)⟩
    | stopped why world | stuck =>
      rw [outcome] at good
      exact good.elim

/-- A machine where some activations are comes to an end if their run does. -/
theorem terminates_at (setting : Setting x root bottom) (shaped : c.Shaped x.program.functions root)
    (halts : Words.Halts x.program.types x.program.functions c) {ip result : UInt64}
    (address : x.program.addressOf? c.current.function c.current.index = some ip)
    (shows_ : Shows x (c.view x bottom ip result) m) : Terminates m := by
  -- Instructions without code are passed at once, so that the induction is over several steps.
  induction halts.transGen generalizing m ip result with
  | intro c _ ih =>
    have ready := setting.ready
    obtain ⟨c', reaches, leads⟩ := leads_at setting shaped .refl address shows_
    refine leads.terminates fun c'' m ip result ran address shows_ => ?_
    have before : Relation.TransGen
        (fun c' c => Words.step x.program.types x.program.functions c = .next c') c'' c :=
      .head' ran (Relation.reflTransGen_swap.mpr reaches)
    exact ih c'' before (Words.Reaches.shaped (reaches.tail ran) ready shaped)
      (halts.reaches (reaches.tail ran)) address shows_

/-- Every machine of a run comes to an end if the run does. -/
theorem Track.terminates (track : Track x bottom start m) (setting : Setting x root bottom)
    (shaped : start.Shaped x.program.functions root)
    (halts : Words.Halts x.program.types x.program.functions start) : Terminates m := by
  have ready := setting.ready
  cases track with
  | entering _ _ _ _ _ leads =>
    rcases leads.arrives with terminates | ⟨m', v, steps, shows_, ip, result, address, rfl⟩
    · exact terminates
    · exact .of_steps steps (terminates_at setting shaped halts address shows_)
  | at_ reaches address shows_ =>
    exact terminates_at setting (reaches.shaped ready shaped) (halts.reaches reaches) address
      shows_
  | @between c v reaches _ _ leads =>
    refine leads.terminates fun c' m ip result ran address shows_ => ?_
    have reaches' : Words.Reaches _ _ start c' := reaches.tail ran
    exact terminates_at setting (reaches'.shaped ready shaped) (halts.reaches reaches') address
      shows_
  | ended _ _ shows_ good => exact ⟨m, .refl, .inl (shows_.ip.trans good.1)⟩

/-- Enough fuel for a machine that comes to an end. -/
theorem Terminates.fuel (terminates : Terminates m) :
    ∃ fuel, ∀ m', resume fuel m ≠ .ok none m' := by
  obtain ⟨last, steps, ended⟩ := terminates
  induction steps using Relation.ReflTransGen.head_induction_on with
  | refl =>
    by_cases halted : last.registers.ip = haltAddress
    · refine ⟨0, fun m' => ?_⟩
      rw [Vm.resume_zero, if_pos halted]
      exact nofun
    · obtain ⟨e, m'', failed⟩ := ended.resolve_left halted
      refine ⟨1, fun m' => ?_⟩
      rw [Vm.resume_running halted, bind_of_error failed]
      exact nofun
  | head runs _ ih =>
    obtain ⟨running, stepped⟩ := runs
    obtain ⟨fuel, done⟩ := ih
    refine ⟨fuel + 1, fun m' => ?_⟩
    rw [Vm.resume_running running, bind_of_ok stepped]
    exact done m'

end Terminates

/-! ## The worlds of a run -/

section Worlds

variable {x : Fixed} {root : FunctionId} {bottom : List UInt64} {start : Configuration UInt64}
  {m : Machine Vm}

/-- The heap and the output of a machine under way are those of some activations of the run. -/
theorem Track.world (track : Track x bottom start m)
    (running : m.registers.ip ≠ haltAddress) :
    ∃ c, Words.Reaches x.program.types x.program.functions start c ∧ m.host.world = c.world := by
  cases track with
  | entering shows_ _ _ _ world => exact ⟨start, .refl, shows_.world.trans world⟩
  | at_ reaches _ shows_ => exact ⟨_, reaches, shows_.world⟩
  | between reaches shows_ midway => exact ⟨_, reaches, shows_.world.trans midway.world⟩
  | ended _ _ shows_ good => exact absurd (shows_.ip.trans good.1) running

/-- A machine that has halted has the value that the outermost function returned. -/
theorem Track.finished (track : Track x bottom start m) (setting : Setting x root bottom)
    (shaped : start.Shaped x.program.functions root)
    (halted : m.registers.ip = haltAddress) :
    ∃ c value, Words.Reaches x.program.types x.program.functions start c ∧
      Words.step x.program.types x.program.functions c = .finished value m.host.world ∧
      ∀ w, value = some w → m.registers.result = w := by
  cases track with
  | entering _ _ _ _ _ leads | between _ _ _ leads => exact absurd halted leads.running
  | at_ reaches address shows_ =>
    obtain ⟨_, _, leads⟩ := leads_at setting shaped reaches address shows_
    exact absurd halted leads.running
  | @ended c value world v reaches finished shows_ good =>
    refine ⟨c, value, reaches, ?_, fun w returned => ?_⟩
    · rw [finished, shows_.world, good.2.2]
    · exact (congrArg Registers.result shows_.registers).trans (good.2.1 w returned)

end Worlds

/-! ## Calls -/

/-- The value that a function returns, given the word that it returns. -/
def Bytecode.Function.returned (types : TypeTable) (f : Function) (w : UInt64) :
    Option Direct.Value :=
  if f.definition.returnType = .void then none
  else some (Direct.decode types f.definition.returnType w)

namespace Vm

/-- The heap of a machine is well typed and has the objects of a state, as far as they are live, and
the state has said the same. -/
structure Reflects (types : TypeTable) (vm : Vm) (s : Direct.State) : Prop where
  typed : WellTyped types true vm.collector.heap
  store : Direct.Holds types vm.collector.heap s.store
  output : s.output = vm.output

/-- What a call gives is what the bytecode means from a state on.

* The function has returned a word: the bytecode returns the value that it stands for.
* It is still under way: so is the bytecode, with the same objects and the same output.
* It has stopped: so has the bytecode, for the same reason, or the stack or the table of calls of
  the machine is used up and the bytecode is under way.

A call is not refused. -/
def Agrees (vm : Vm) (f : Function) (s : Direct.State) :
    EStateM.Result VmError Vm (Option UInt64) → Prop
  | .ok (some w) vm' => ∃ left,
      Direct.Ends vm.types vm.functions s (.finished (f.returned vm.types w)) left ∧
        Reflects vm.types vm' left ∧ (f.definition.returnType ≠ .void →
          HasType vm.types true vm'.collector.heap f.definition.returnType w)
  | .ok none vm' => ∃ s', Direct.Reaches vm.types vm.functions s s' ∧ Reflects vm.types vm' s'
  | .error (.stopped why) vm' =>
    (∃ left, Direct.Ends vm.types vm.functions s (.stopped why) left ∧
      Reflects vm.types vm' left) ∨
    vm.fixed.Exhausts why ∧
      ∃ s', Direct.Reaches vm.types vm.functions s s' ∧ Reflects vm.types vm' s'
  | .error .. => False

/-- A call of a function on a machine, and the state that the bytecode starts with. -/
structure Call (vm : Vm) (id : FunctionId) (f : Function) (arguments : List UInt64)
    (s : Direct.State) : Prop where
  sound : vm.fixed.Sound
  methods : Direct.MethodsOfObjects vm.types vm.functions
  found : vm.functions.get? id = some f
  body : f.HasBody
  typed : (Words.start id f arguments vm.world).Typed vm.types vm.functions true id
  rep : Direct.Represents vm.types vm.functions (Words.start id f arguments vm.world) s

section Calls

variable {initial vm vm' : Vm} {id : FunctionId} {arguments : List UInt64} {m m' : Machine Vm}
  {f : Function} {c : Configuration UInt64} {s : Direct.State}

theorem Call.track (call : Call vm id f arguments s) (visits : vm.Visits id arguments m) :
    Setting vm.fixed id (bottom arguments) ∧
      Track vm.fixed (bottom arguments) (Words.start id f arguments vm.world) m := by
  obtain ⟨f', found, _, _, setting, _, track⟩ := visits.track call.sound
  cases found.symm.trans call.found
  exact ⟨setting, track⟩

theorem reflects_of_represents (rep : Direct.Represents vm.types vm.functions c s)
    (typed : c.Typed vm.types vm.functions true id) (world : vm'.world = c.world) :
    Reflects vm.types vm' s := by
  have heap : vm'.collector.heap = c.world.heap := congrArg World.heap world
  have output : vm'.output = c.world.output := congrArg World.output world
  exact ⟨heap ▸ typed.heap, heap ▸ rep.store, rep.output.trans output.symm⟩

section Started

variable (call : Call vm id f arguments s)

include call

/-- What the words come to stands for what the values come to, and they go on together. -/
theorem Call.reaches
    (reaches : Words.Reaches vm.types vm.functions (Words.start id f arguments vm.world) c) :
    c.Typed vm.types vm.functions true id ∧ ∃ s', Direct.Reaches vm.types vm.functions s s' ∧
      Direct.Represents vm.types vm.functions c s' ∧
      Direct.Matches vm.types vm.functions f.definition.returnType
        (Words.step vm.types vm.functions c) (Direct.step vm.types vm.functions s') := by
  have ready : vm.program.Ready := call.sound.ready
  have typed : c.Typed vm.types vm.functions true id :=
    Words.Reaches.typed (p := vm.program) reaches ready call.typed
  obtain ⟨s', reached, rep⟩ := Direct.simulates (p := vm.program) ready call.methods call.found
    call.typed call.rep reaches
  exact ⟨typed, s', reached, rep,
    Direct.matches_step (p := vm.program) ready call.methods call.found typed rep⟩

section

variable (visits : vm.Visits id arguments m)

include visits

theorem Call.returned (halted : m.registers.ip = haltAddress) :
    Agrees vm f s (.ok (some m.registers.result) m.host.clearCalls) := by
  obtain ⟨setting, track⟩ := call.track visits
  obtain ⟨c, value, reaches, finished, result⟩ := track.finished setting call.typed.shaped halted
  obtain ⟨_, s', reached, _, both⟩ := call.reaches reaches
  rw [show Words.step vm.types vm.functions c = _ from finished] at both
  have has := track.result setting call.typed halted call.found
  have heap := (track.typed call.sound.ready call.typed).1
  cases stepped : Direct.step vm.types vm.functions s' with
  | ok _ left =>
    rw [stepped] at both
    exact both.elim
  | error e left =>
    rw [stepped] at both
    cases e with
    | finished value' =>
      obtain ⟨same, none, store, output⟩ := both
      have returned : value' = f.returned vm.types m.registers.result := by
        unfold Function.returned
        split
        · rename_i void
          rw [same, none.mpr void]
          rfl
        · rename_i some_
          obtain ⟨w, rfl⟩ := Option.ne_none_iff_exists'.mp (mt none.mp some_)
          rw [same, result w rfl]
          rfl
      exact ⟨left, ⟨s', reached, returned ▸ stepped⟩, ⟨heap, store, output⟩, has⟩
    | stopped | stuck => exact both.elim

theorem Call.paused (running : m.registers.ip ≠ haltAddress) :
    Agrees vm f s (.ok none m.host.clearCalls) := by
  obtain ⟨_, track⟩ := call.track visits
  obtain ⟨c, reaches, world⟩ := track.world running
  obtain ⟨typed, s', reached, rep, _⟩ := call.reaches reaches
  exact ⟨s', reached, reflects_of_represents rep typed world⟩

theorem Call.stopped (running : m.registers.ip ≠ haltAddress) {why : Stop}
    (failed : step m = .error why m') :
    Agrees vm f s (.error (.stopped why) m'.host.clearCalls) := by
  obtain ⟨setting, track⟩ := call.track visits
  obtain ⟨c, reaches, world, why⟩ := track.stop_typed setting call.typed running failed
  obtain ⟨typed, s', reached, rep, both⟩ := call.reaches reaches
  rcases why with exhausts | ⟨_, stopped⟩
  · exact .inr ⟨exhausts, s', reached, reflects_of_represents rep typed world⟩
  · have heap : m'.host.collector.heap = c.world.heap := congrArg World.heap world
    rw [show Words.step vm.types vm.functions c = _ from stopped] at both
    cases stepped : Direct.step vm.types vm.functions s' with
    | ok _ left =>
      rw [stepped] at both
      exact both.elim
    | error e left =>
      rw [stepped] at both
      cases e with
      | stopped why' =>
        obtain ⟨rfl, store, output⟩ := both
        exact .inl ⟨left, ⟨s', reached, stepped⟩, heap ▸ typed.heap, store, output⟩
      | finished | stuck => exact both.elim

end

/-- However a call ends, it agrees with the bytecode. -/
theorem Call.agrees (loaded : vm.loaded = true) (count : f.argumentCount = arguments.length)
    (fuel : Nat) : Agrees vm f s (invoke fuel id arguments vm) := by
  have ends := invoke_ends call.sound.below fuel id arguments
  generalize invoke fuel id arguments vm = answer at ends
  cases ends with
  | refused refusal =>
    obtain ⟨entry, accepted⟩ :=
      entryFor_of_hasBody call.sound loaded call.found call.body count
    cases accepted.symm.trans refusal
  | cramped exhausted _ world =>
    exact .inr ⟨.inl exhausted, s, .refl, reflects_of_represents call.rep call.typed world⟩
  | stopped visits running failed => exact call.stopped visits running failed
  | paused visits running => exact call.paused visits running
  | returned visits halted => exact call.returned visits halted

/-- A call is over at some time if the bytecode is. -/
theorem Call.ends {e : Direct.End} {left : Direct.State}
    (ends : Direct.Ends vm.types vm.functions s e left) :
    ∃ fuel, ∀ vm', invoke fuel id arguments vm ≠ .ok none vm' := by
  have ready : vm.program.Ready := call.sound.ready
  obtain ⟨last, reached, ended⟩ := ends
  obtain ⟨c, reaches, rep⟩ := Direct.simulated (p := vm.program) ready call.methods call.found
    call.typed call.rep reached
  have halts : Words.Halts vm.types vm.functions (Words.start id f arguments vm.world) := by
    refine reaches.halts fun c' ran => ?_
    have both := Direct.matches_step (p := vm.program) ready call.methods call.found
      (reaches.typed ready call.typed) rep
    rw [ran, show Direct.step vm.program.types vm.program.functions last = _ from ended] at both
    exact both.elim
  rcases starts_cases call.sound.below id arguments with
    ⟨e, refusal⟩ | ⟨e, m, _, _, _, failed⟩ | ⟨m, starts⟩
  · refine ⟨0, fun vm' => ?_⟩
    rw [invoke_of_refusal refusal]
    exact nofun
  · refine ⟨0, fun vm' => ?_⟩
    rw [failed]
    exact nofun
  · obtain ⟨setting, track⟩ := call.track ⟨m, starts, .refl⟩
    obtain ⟨fuel, done⟩ := (track.terminates setting call.typed.shaped halts).fuel
    refine ⟨fuel, fun vm' => ?_⟩
    rw [invoke_of_starts starts]
    cases resumed : resume fuel m with
    | error => exact nofun
    | ok answer m' =>
      intro paused
      cases paused
      exact done m' resumed

end Started

namespace Sample

theorem methods : Direct.MethodsOfObjects machine.types machine.functions := by
  have none : machine.functions.toList.all
      (fun entry => !Typing.Scope.isInstanceMethod entry.2.definition) = true := by
    decide +kernel
  intro id g owner found method _
  have plain := List.all_eq_true.mp none _ (SlotTable.mem_toList_of_get? found)
  rw [method] at plain
  cases plain

theorem collect_eq : ∃ g, machine.functions.get? (native .collect) = some g ∧
    g.native? = some .collect := by
  have evaluated : (machine.functions.get? (native .collect)).any
      (fun g => g.native? == some .collect) = true := by
    decide +kernel
  obtain ⟨g, found, routine⟩ := (Option.any_eq_true _ _).mp evaluated
  exact ⟨g, found, beq_iff_eq.mp routine⟩

end Sample

end Calls

end Vm

end ManagedCode
