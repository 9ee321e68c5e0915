import ManagedCode.Proofs.Heap.Thinning
import ManagedCode.Proofs.Machine.Safety

/-!
# A collection is invisible

A run that executes a collection and a run that skips it go on in lockstep: the machines stay the
same but for their collected heaps, one of which is the other with unreachable objects taken away.

* `Machine.Under`, `Paired`: two such machines and what an action gives on them, with a rule for each
  of the requests that machine instructions make.
* `Twin`, `InStep`, `Lockstep`: the states and the results of two runs in lockstep.
* `Track.paired`: one machine instruction. `Track.resume`: whole runs.
* `Vm.collection_invisible`: a run that executes a collection and one that skips it.
-/

namespace ManagedCode

open Bytecode TypeSystem
open Heap (Arena Collector HasType Object WellTyped lengthSize)
open Heap.Arena (Hidden)
open Heap.Collector (Beside)
open Machine (Action Stop Registers NullUse toInt ofInt ask elementAddress load loadFrom? look pop
  popObject store storeTo resume)
open Target (Op Width)

/-! ## Actions -/

/-- Machines that are the same but for the collected heap. The second heap has more objects. -/
abbrev Machine.Under (types : TypeTable) : Machine Vm → Machine Vm → Prop :=
  Machine.Related fun _ => Vm.Swapped Eq (Collector.Under types)

/-- An action gives the same on two such machines. -/
abbrev Paired (types : TypeTable) {α : Type} (act : Action Vm α) (m n : Machine Vm) : Prop :=
  Both (Machine.Under types) (act m) (act n)

section Actions

variable {types : TypeTable} {α β : Type} {act : Action Vm α} {next : α → Action Vm β}
  {m n : Machine Vm} (under : Machine.Under types m n)

include under

theorem Machine.Under.cases :
    ∃ k, n = m.withCollector k ∧ Beside types k m.host.collector := by
  obtain ⟨registers, current, s, c, rfl, beside, host⟩ := under
  obtain ⟨registers', current', host'⟩ := n
  cases registers
  cases current
  cases host
  exact ⟨c, rfl, beside⟩

theorem Machine.Under.beside : Beside types n.host.collector m.host.collector := by
  obtain ⟨k, rfl, beside⟩ := under.cases
  exact beside

section Words

variable {x : Fixed} {v u : View} (shows_ : Shows x v m)

include shows_

/-- An action that does not see the heap and gives what a view says. -/
theorem Gives.paired {a : α} (gives : Gives x v act a u fun _ _ => True)
    (blind : Parallel (Machine.Under types) act)
    (rest : ∀ m' n', Shows x u m' → Machine.Under types m' n' → Paired types (next a) m' n') :
    Paired types (act >>= next) m n := by
  refine (blind under).bind fun b m' n' ran _ under' => ?_
  have after := gives m shows_
  rw [ran] at after
  obtain ⟨w, shows', rfl, rfl⟩ := after
  exact rest m' n' shows' under'

variable {w : UInt64} {words : List UInt64} {next : UInt64 → Action Vm β}
  (top : v.words = w :: words)

include top

theorem paired_pop (rest : ∀ m' n', Shows x { v with words } m' → Machine.Under types m' n' →
      Paired types (next w) m' n') :
    Paired types (pop >>= next) m n :=
  Gives.paired under shows_ (gives_pop top) Vm.tame_swapped.pop rest

/-- An object is popped that is not null, or both runs stop. -/
theorem paired_popObject {use : NullUse}
    (rest : w ≠ 0 → ∀ m' n', Shows x { v with words } m' → Machine.Under types m' n' →
      Paired types (next w) m' n') :
    Paired types (popObject use >>= next) m n := by
  refine (Vm.tame_swapped.shallow.popObject use under).bind fun b m' n' ran _ under' => ?_
  have pops : Does x v (popObject use)
      (fun b u => b = w ∧ w ≠ 0 ∧ u = { v with words }) fun _ _ => True :=
    does_popObject top (fun _ => trivial) fun nonnull => ⟨rfl, nonnull, rfl⟩
  have after := pops m shows_
  rw [ran] at after
  obtain ⟨u, shows', rfl, nonnull, rfl⟩ := after
  exact rest nonnull m' n' shows' under'

end Words

/-! ## Requests -/

theorem paired_load {address : UInt64} {width : Width}
    (agree : loadFrom? n.host.collector.heap.region address width
      = loadFrom? m.host.collector.heap.region address width) :
    Paired types (load address width) m n := by
  refine under.look ?_
  show Vm.readHeap n.host address width = Vm.readHeap m.host address width
  unfold Vm.readHeap
  rw [agree]

theorem paired_onCollector {ε : Type} (failed : ε → Stop) (act : TypeTable → EStateM ε Collector α)
    (same : m.host.types = types)
    (both : Both (Collector.Under types) (act types m.host.collector)
      (act types n.host.collector)) :
    Paired types (ask (Vm.onCollector failed act)) m n := by
  subst same
  refine under.ask ?_
  obtain ⟨s, c, settings, _, host⟩ := under.host
  rw [host] at both ⊢
  exact Vm.swapped_onCollector settings both

section Objects

variable (wf : types.WellFormed) {w : UInt64} {o : Object}
  (here : m.host.collector.heap.object? types w = some o)

include wf here

section Places

variable {i : Nat} {p : Nat × TypeId} (place : (o.places types)[i]? = some p) {width : Width}
  (moved : Width.ofSize? (types.size p.2) = some width)

include place moved

theorem paired_store {v : UInt64} (good : HasType types false m.host.collector.heap p.2 v) :
    Paired types (store (w + UInt64.ofNat p.1) width v) m n := by
  have write : ∀ (vm : Vm) (cells : List Heap.Cell), vm.collector.heap.Regular types cells →
      vm.collector.heap.object? types w = some o →
      Vm.writeHeap (w + UInt64.ofNat p.1) width v vm = .ok () (vm.withCollector
        (Vm.onHeap (storeTo · (w + UInt64.ofNat p.1) width v) vm.collector)) := by
    intro vm cells regular there
    exact if_pos (Arena.contains_place wf regular place moved there)
  obtain ⟨k, rfl, beside⟩ := under.cases
  obtain ⟨cells, cells', regular, regular', _⟩ := beside.thin.row
  have there := beside.thin.object? wf here
  refine under.ask ?_
  show Both _ (Vm.writeHeap _ width v m.host) (Vm.writeHeap _ width v (m.host.withCollector k))
  rw [write m.host cells' regular' here, write (m.host.withCollector k) cells regular there]
  refine .ok ⟨_, _, rfl, ⟨beside.thin.stored wf here place moved v,
    beside.typed.stored wf there place moved (good.mono fun o' found => ?_)⟩, rfl⟩
  exact ⟨o', beside.thin.object? wf found, rfl⟩

/-- What both heaps have at a place of an object. -/
theorem agree_place :
    loadFrom? n.host.collector.heap.region (w + UInt64.ofNat p.1) width
      = loadFrom? m.host.collector.heap.region (w + UInt64.ofNat p.1) width := by
  have beside := under.beside
  obtain ⟨cells, cells', regular, regular', _⟩ := beside.thin.row
  obtain ⟨u, value, read⟩ := Arena.loadFrom?_place wf regular' place moved here
  obtain ⟨u', value', read'⟩ :=
    Arena.loadFrom?_place wf regular place moved (beside.thin.object? wf here)
  cases value.symm.trans value'
  rw [read, read']

/-- A word of an object is pushed. -/
theorem paired_loadPlace :
    Paired types (do
      let value ← load (w + UInt64.ofNat p.1) width
      Machine.push value) m n :=
  (paired_load under (agree_place under wf here place moved)).bind
    fun _ _ _ _ _ under' => Vm.tame_swapped.push _ under'

end Places

variable {element : TypeId} (array : types.element? o.type = some element)

include array

/-- The length of an array in both heaps. -/
theorem length_place :
    o.words.length < 2 ^ 31 ∧
      loadFrom? m.host.collector.heap.region w .dword
        = some (ofInt (Int32.ofNat o.words.length)) ∧
      loadFrom? n.host.collector.heap.region w .dword
        = loadFrom? m.host.collector.heap.region w .dword := by
  have beside := under.beside
  obtain ⟨cells, cells', regular, regular', _⟩ := beside.thin.row
  obtain ⟨small, read⟩ := Arena.loadFrom?_length regular' here array
  obtain ⟨_, read'⟩ := Arena.loadFrom?_length regular (beside.thin.object? wf here) array
  exact ⟨small, read, read'.trans read.symm⟩

/-- An element inside an array is looked up, or both runs stop. -/
theorem paired_element {width : Width} (bytes : width.bytes = types.size element) (index : Int32)
    {next : UInt64 → Action Vm β}
    (rest : ∀ i n', (o.places types)[i]? = some (lengthSize + i * types.size element, element) →
      Machine.Under types m n' →
      Paired types (next (w + UInt64.ofNat (lengthSize + i * types.size element))) m n') :
    Paired types (elementAddress w index width >>= next) m n := by
  obtain ⟨small, read, agree⟩ := length_place under wf here array
  have looked : Paired types (elementAddress w index width) m n :=
    (paired_load under agree).bind fun _ _ _ _ _ under' =>
      Parallel.ite (Machine.parallel_trap _) (parallel_pure _) under'
  refine looked.bind fun address m' n' ran _ under' => ?_
  have loaded : load w .dword m = .ok (ofInt (Int32.ofNat o.words.length)) m := by
    refine look_eq ?_
    show Vm.readHeap m.host w .dword = _
    unfold Vm.readHeap
    rw [read]
  unfold elementAddress at ran
  rw [bind_of_ok loaded, Machine.toInt_ofInt] at ran
  split at ran
  · cases ran
  · rename_i inside
    cases ran
    rw [not_or, Int32.not_lt, Int32.not_le] at inside
    obtain ⟨i, bound, _, value⟩ := position_of_index small inside.1 inside.2
    rw [value, bytes, UInt64.add_assoc, ← UInt64.ofNat_mul, ← UInt64.ofNat_add]
    exact rest i n' (place_of_element rfl array bound) under'

end Objects

end Actions

/-! ## Machine instructions -/

section Instructions

variable {x : Fixed} {v : View} {m n : Machine Vm} {next u i w : UInt64} {words : List UInt64}
  {width : Width} (wf : x.program.types.WellFormed) (shows_ : Shows x v m)
  (under : Machine.Under x.program.types m n)

include wf shows_ under

section Fields

variable {r : FieldRef} {layout : Layout} {field : Field}
  (object : x.program.types.layout? r.owner = some layout)
  (here : layout.fields[r.index]? = some field) (offset : field.offset = r.offset.toNat)
  (type : field.type = r.type) (moved : Width.ofSize? (x.program.types.size r.type) = some width)
  (has : HasType x.program.types false v.world.heap r.owner w)

include object here offset type moved has

theorem paired_loadField (top : v.words = w :: words) :
    Paired x.program.types (Machine.execute next (.loadField width r.offset)) m n := by
  unfold Machine.execute
  refine paired_popObject under shows_ top fun nonnull m' n' shows' under' => ?_
  rw [← heap_of_shows shows'] at has
  obtain ⟨o, there, same⟩ := has.object (isReference_of_layout? object) nonnull
  rw [toUInt64_eq_ofNat]
  exact paired_loadPlace under' wf there (place_of_field same object here offset type) moved

theorem paired_storeField (top : v.words = u :: w :: words)
    (good : HasType x.program.types false v.world.heap r.type u) :
    Paired x.program.types (Machine.execute next (.storeField width r.offset)) m n := by
  unfold Machine.execute
  refine paired_pop under shows_ top fun m₁ n₁ shows₁ under₁ => ?_
  refine paired_popObject under₁ shows₁ rfl fun nonnull m' n' shows' under' => ?_
  rw [← heap_of_shows shows'] at has good
  obtain ⟨o, there, same⟩ := has.object (isReference_of_layout? object) nonnull
  rw [toUInt64_eq_ofNat]
  exact paired_store under' wf there (place_of_field same object here offset type) moved good

end Fields

section Elements

variable {type element : TypeId} (array : x.program.types.element? type = some element)
  (has : HasType x.program.types false v.world.heap type w)

include array has

theorem paired_arrayLength (top : v.words = w :: words) :
    Paired x.program.types (Machine.execute next .arrayLength) m n := by
  unfold Machine.execute
  refine paired_popObject under shows_ top fun nonnull m' n' shows' under' => ?_
  rw [← heap_of_shows shows'] at has
  obtain ⟨o, there, rfl⟩ := has.object (isReference_of_element? array) nonnull
  exact (paired_load under' (length_place under' wf there array).2.2).bind
    fun _ _ _ _ _ last => Vm.tame_swapped.push _ last

variable (moved : (x.program.types.element? type).bind
  (Width.ofSize? <| x.program.types.size ·) = some width)

include moved

omit shows_ under has in
theorem width_of_element :
    Width.ofSize? (x.program.types.size element) = some width ∧
      width.bytes = x.program.types.size element := by
  rw [array, Option.bind_some] at moved
  obtain ⟨_, moved', bytes⟩ := Heap.width_of_size_ne (wf.element type element array)
  cases moved.symm.trans moved'
  exact ⟨moved, bytes⟩

theorem paired_loadElement (top : v.words = i :: w :: words) :
    Paired x.program.types (Machine.execute next (.loadElement width)) m n := by
  unfold Machine.execute
  refine paired_pop under shows_ top fun m₁ n₁ shows₁ under₁ => ?_
  refine paired_popObject under₁ shows₁ rfl fun nonnull m' n' shows' under' => ?_
  rw [← heap_of_shows shows'] at has
  obtain ⟨o, there, rfl⟩ := has.object (isReference_of_element? array) nonnull
  obtain ⟨moved, bytes⟩ := width_of_element wf array moved
  refine paired_element under' wf there array bytes _ fun j n'' place last => ?_
  exact paired_loadPlace last wf there place moved

theorem paired_storeElement (top : v.words = u :: i :: w :: words)
    (good : HasType x.program.types false v.world.heap element u) :
    Paired x.program.types (Machine.execute next (.storeElement width)) m n := by
  unfold Machine.execute
  refine paired_pop under shows_ top fun m₁ n₁ shows₁ under₁ => ?_
  refine paired_pop under₁ shows₁ rfl fun m₂ n₂ shows₂ under₂ => ?_
  refine paired_popObject under₂ shows₂ rfl fun nonnull m' n' shows' under' => ?_
  rw [← heap_of_shows shows'] at has good
  obtain ⟨o, there, rfl⟩ := has.object (isReference_of_element? array) nonnull
  obtain ⟨moved, bytes⟩ := width_of_element wf array moved
  refine paired_element under' wf there array bytes _ fun j n'' place last => ?_
  exact paired_store last wf there place moved good

end Elements

theorem paired_newObject (type : TypeId) :
    Paired x.program.types (Machine.execute next (.newObject type.raw)) m n := by
  have types : m.host.types = x.program.types := congrArg Program.types shows_.program
  have asked := paired_onCollector under Vm.allocationFailed (Collector.newObject · type) types
    (under.beside.newObject wf type)
  rw [← newObject_eq] at asked
  exact asked.bind fun _ _ _ _ _ last => Vm.tame_swapped.push _ last

theorem paired_newArray (type : TypeId) (top : v.words = w :: words) :
    Paired x.program.types (Machine.execute next (.newArray type.raw)) m n := by
  unfold Machine.execute
  refine paired_pop under shows_ top fun m' n' shows' under' => ?_
  have types : m'.host.types = x.program.types := congrArg Program.types shows'.program
  refine Both.bind ?_ fun _ _ _ _ _ last => Vm.tame_swapped.push _ last
  show Paired x.program.types (ask (Vm.newArray type.raw (toInt w))) m' n'
  by_cases negative : toInt w < 0
  · refine under'.ask ?_
    rw [newArray_negative type negative, newArray_negative type negative]
    obtain ⟨k, rfl, _⟩ := under'.cases
    exact .error under'.host
  · rw [newArray_eq type negative]
    exact paired_onCollector under' Vm.allocationFailed (Collector.newArray · type (toInt w).toInt)
      types (under'.beside.newArray wf type _)

end Instructions

section Collections

variable {x : Fixed} {root : FunctionId} {bottom : List UInt64} {c : Configuration UInt64}
  {ip result : UInt64} {n : Machine Vm} {k : Collector}

theorem Shows.withCollector {v : View} (shows_ : Shows x v n) (k : Collector) :
    Shows x { v with world := v.world.withHeap k.heap } (n.withCollector k) := by
  refine ⟨shows_.fixed, ?_, shows_.registers, shows_.spells, shows_.lists⟩
  show (⟨k.heap, n.host.world.output⟩ : World) = v.world.withHeap k.heap
  rw [shows_.world]
  rfl

theorem Shows.past (shows_ : Shows x (c.view x bottom ip result) n) (op : Op) :
    Shows x (c.view x bottom (n.registers.ip + UInt64.ofNat op.length) result) (n.past op) := by
  refine ⟨shows_.fixed, shows_.world, ?_, shows_.spells, shows_.lists⟩
  show ({ n.registers with ip := _ } : Registers) = _
  rw [shows_.registers]
  rfl

/-- A collection at a call of the routine, from the references of the activations. -/
theorem collect_of_shows (ready : x.program.Ready) (small : x.stackSize ≤ 2 ^ 31)
    (shaped : c.Shaped x.program.functions root)
    (shows_ : Shows x (c.view x bottom ip result) n) :
    ∃ collector, collector.heap = n.host.collector.heap ∧
      ask (Vm.collect n.registers.bp c.current.function.toBits
          (UInt32.ofNat c.current.index)) n
        = ask (Vm.onCollector .gc fun types => discard (Collector.collect types
          (Words.references x.program.types x.program.functions c.active)))
            (n.withCollector collector) := by
  obtain ⟨collector, heap, same⟩ := (finds_of_shows ready small shaped shows_).collects
  have types : n.host.types = x.program.types := congrArg Program.types shows_.program
  have functions : n.host.functions = x.program.functions :=
    congrArg Program.functions shows_.program
  rw [types, functions] at same
  exact ⟨collector, heap, ask_congr same⟩

theorem rooted_references {a : Arena}
    (fits : c.Fits x.program.functions (HasType x.program.types false a) root) :
    ∀ r ∈ Words.references x.program.types x.program.functions c.active, r ≠ 0 →
      ∃ o, a.object? x.program.types r = some o := fun r mem nonnull =>
  fits.rooted r (List.mem_filter.mp mem).1 nonnull

section

variable (ready : x.program.Ready) (small : x.stackSize ≤ 2 ^ 31)
  (typed : c.Typed x.program.types x.program.functions false root)
  (shows_ : Shows x (c.view x bottom ip result) n)

include ready small typed shows_

theorem paired_collect {n' : Machine Vm} (under : Machine.Under x.program.types n n')
    (next : UInt64) :
    Paired x.program.types
      (Machine.execute next (.collect c.current.function.toBits (UInt32.ofNat c.current.index)))
      n n' := by
  obtain ⟨k, rfl, beside⟩ := under.cases
  have heap : n.host.collector.heap = c.world.heap := heap_of_shows shows_
  have types : n.host.types = x.program.types := congrArg Program.types shows_.program
  have shaped : (c.inWorld (c.world.withHeap k.heap)).Shaped x.program.functions root :=
    ⟨typed.shaped.current, typed.shaped.callers⟩
  obtain ⟨k₁, heap₁, same₁⟩ := collect_of_shows ready small typed.shaped shows_
  obtain ⟨k₂, heap₂, same₂⟩ := collect_of_shows ready small shaped (shows_.withCollector k)
  have heap₂ : k₂.heap = k.heap := heap₂
  have beside' : Beside x.program.types k₂ k₁ :=
    ⟨by rw [heap₁, heap₂]; exact beside.thin, by rw [heap₂]; exact beside.typed⟩
  have under' : Machine.Under x.program.types (n.withCollector k₁)
      ((n.withCollector k).withCollector k₂) := ⟨rfl, rfl, _, k₂, rfl, beside', rfl⟩
  have full : WellTyped x.program.types false k₁.heap := by
    rw [heap₁, heap]
    exact typed.heap
  have run₁ : Machine.execute next (.collect c.current.function.toBits
    (UInt32.ofNat c.current.index)) n = _ := same₁
  have run₂ : Machine.execute next (.collect c.current.function.toBits
    (UInt32.ofNat c.current.index)) (n.withCollector k) = _ := same₂
  rw [Paired, run₁, run₂]
  refine paired_onCollector under' .gc _ types (beside'.collect ready.types full ?_)
  show ∀ r ∈ _, r ≠ 0 → ∃ o, k₁.heap.object? _ r = some o
  rw [heap₁, heap]
  exact rooted_references typed.fits

end

end Collections

/-! ## Runs -/

/-- Two machines that are the same but for what their collectors hold: the heap of the first is that
of the second with objects taken away. -/
structure Twin (types : TypeTable) (m₁ m₂ : Machine Vm) : Prop where
  registers : m₂.registers = m₁.registers
  host : m₂.host = m₁.host.withCollector m₂.host.collector
  heaps : Beside types m₂.host.collector m₁.host.collector

/-- What a function that has returned gives out, if that is a reference. -/
def Program.returned (p : Program) (root : FunctionId) (result : UInt64) : List UInt64 :=
  match p.functions.get? root with
  | some f => if p.types.isReference f.definition.returnType then [result] else []
  | none => []

/-- The states of two runs in lockstep. What the frames of the activations lead to, or in the end the
result, is the same in both heaps but for bytes for the collector. -/
structure InStep (x : Fixed) (root : FunctionId) (bottom : List UInt64) (m₁ m₂ : Machine Vm) : Prop
    where
  twin : Twin x.program.types m₁ m₂
  frames : m₁.registers.ip ≠ Machine.haltAddress → ∃ c, FramesFit x false root bottom m₁ c ∧
    Hidden x.program.types (Words.roots x.program.types x.program.functions c.active)
      m₂.host.collector.heap m₁.host.collector.heap
  returned : m₁.registers.ip = Machine.haltAddress →
    Hidden x.program.types (x.program.returned root m₁.registers.result)
      m₂.host.collector.heap m₁.host.collector.heap

/-- The results of two runs in lockstep: they have come to the same, or the same machine instruction
has stopped both for the same reason. -/
inductive Lockstep (x : Fixed) (root : FunctionId) (bottom : List UInt64) :
    EStateM.Result Stop (Machine Vm) (Option UInt64) →
    EStateM.Result Stop (Machine Vm) (Option UInt64) → Prop where
  | ok {answer : Option UInt64} {m₁ m₂ : Machine Vm} (states : InStep x root bottom m₁ m₂) :
      Lockstep x root bottom (.ok answer m₁) (.ok answer m₂)
  | error {e : Stop} {last₁ last₂ m₁ m₂ : Machine Vm} {c : Configuration UInt64}
      (states : InStep x root bottom last₁ last₂) (failed₁ : Machine.step last₁ = .error e m₁)
      (failed₂ : Machine.step last₂ = .error e m₂) (twin : Twin x.program.types m₁ m₂)
      (frames : FramesFit x false root bottom last₁ c)
      (hidden : Hidden x.program.types
        (Words.roots x.program.types x.program.functions c.active)
        m₂.host.collector.heap m₁.host.collector.heap) :
      Lockstep x root bottom (.error e m₁) (.error e m₂)

section Runs

variable {x : Fixed} {root : FunctionId} {bottom : List UInt64} {start : Configuration UInt64}
  {m₁ m₂ : Machine Vm}

variable {types : TypeTable}

theorem Machine.Under.twin (under : Machine.Under types m₁ m₂) : Twin types m₁ m₂ := by
  obtain ⟨k, rfl, beside⟩ := under.cases
  exact ⟨rfl, rfl, beside⟩

theorem Twin.past (twin : Twin types m₁ m₂) (op : Op) :
    Machine.Under types (m₁.past op) (m₂.past op) := by
  unfold Machine.past
  rw [twin.registers]
  exact ⟨rfl, rfl, _, _, rfl, twin.heaps, twin.host⟩

/-- The operands lie on top of the stack. -/
theorem Configuration.words_eq_operands (c : Configuration UInt64) (x : Fixed)
    (bottom : List UInt64) : ∃ below, c.words x bottom = c.current.operands ++ below :=
  ⟨_, c.current.frame_eq _ _⟩

/-- A machine instruction on two machines that are the same but for the heap. -/
theorem Track.paired {m : Machine Vm} (track : Track x bottom start m)
    (setting : Setting x root bottom)
    (typed : start.Typed x.program.types x.program.functions false root) {op : Op}
    (here : x.program.OpAt m.registers.ip op) {n : Machine Vm}
    (under : Machine.Under x.program.types (m.past op) n) (next : UInt64) :
    Paired x.program.types (Machine.execute next op) (m.past op) n := by
  cases touches : op.touchesHeap with
  | false => exact Vm.tame_swapped.execute touches next under
  | true =>
    have ready := setting.ready
    have wf := ready.types
    obtain ⟨c, result, f, instr, reaches, found, behind, code, _, shows_, _⟩ :=
      track.behind setting typed.shaped here (Target.Op.asksRuntime_of_touchesHeap touches)
    have typed' := reaches.typed ready typed
    obtain ⟨f', instr', _, found', flow, _, _⟩ := typed'.step ready
    cases found'.symm.trans found
    cases flow.code.symm.trans code
    have shows' := shows_.past op
    obtain ⟨stack, effect, operands⟩ := (typed'.fits.current_of_found found).effect flow
    obtain ⟨below, words⟩ := c.words_eq_operands x bottom
    -- The operands lie on top of the stack.
    have words : ∀ {top}, c.current.operands = top → c.words x bottom = top ++ below := by
      rintro _ rfl
      exact words
    cases behind with
    | newObject => exact paired_newObject wf shows' under _
    | newArray =>
      cases effect
      obtain ⟨w, rest, top, _⟩ := operands_one operands
      exact paired_newArray wf shows' under _ (words top)
    | loadField moved =>
      cases effect with
      | loadField object here offset type =>
        obtain ⟨w, rest, top, has, _⟩ := operands_one operands
        exact paired_loadField wf shows' under object here offset type (width_eq_ok moved)
          has (words top)
    | storeField moved =>
      cases effect with
      | storeField object here offset type =>
        obtain ⟨u, w, rest, top, good, has, _⟩ := operands_two operands
        exact paired_storeField wf shows' under object here offset type (width_eq_ok moved)
          has (words top) good
    | loadElement moved =>
      cases effect with
      | loadElement array =>
        obtain ⟨i, w, rest, top, _, has, _⟩ := operands_two operands
        exact paired_loadElement wf shows' under array has (elementWidth_eq_ok moved) (words top)
    | storeElement moved =>
      cases effect with
      | storeElement array =>
        obtain ⟨u, i, w, rest, top, good, _, has, _⟩ := operands_three operands
        exact paired_storeElement wf shows' under array has (elementWidth_eq_ok moved) (words top)
          good
    | arrayLength =>
      cases effect with
      | arrayLength array =>
        obtain ⟨w, rest, top, has, _⟩ := operands_one operands
        exact paired_arrayLength wf shows' under array has (words top)
    | collect => exact paired_collect ready setting.small typed' shows' under next
    | printCallStack => cases touches

section Tracked

variable (track : Track x bottom start m₁) (setting : Setting x root bottom)
  (typed : start.Typed x.program.types x.program.functions false root)

include track setting typed

/-- A step of two machines that are the same but for the heap. -/
theorem Track.both (running : m₁.registers.ip ≠ Machine.haltAddress)
    (twin : Twin x.program.types m₁ m₂) : Paired x.program.types Machine.step m₁ m₂ := by
  have ready := setting.ready
  obtain ⟨op, here⟩ := track.opAt ready typed.shaped running
  have program : m₂.host.program = x.program := by
    rw [twin.host]
    exact track.program
  have other : Machine.step m₂
      = Machine.execute (m₂.registers.ip + UInt64.ofNat op.length) op (m₂.past op) := by
    refine step_of_opAt (program ▸ ready) ?_
    rw [program, twin.registers]
    exact here
  rw [Paired, track.step_eq ready here, other, twin.registers]
  exact track.paired setting typed here (twin.past op) _

/-- Machines that are the same but for the heap are in lockstep. -/
theorem Track.inStep (twin : Twin x.program.types m₁ m₂) : InStep x root bottom m₁ m₂ := by
  have ready := setting.ready
  obtain ⟨heap, frames⟩ := track.typed ready typed
  refine ⟨twin, fun running => ?_, fun halted => ?_⟩
  · obtain ⟨c, _, framed⟩ := frames running
    exact ⟨c, framed, twin.heaps.thin.hidden ready.types heap framed.fits.rooted⟩
  · refine twin.heaps.thin.hidden ready.types heap fun r mem nonnull => ?_
    unfold Program.returned at mem
    split at mem
    · rename_i f found
      split at mem
      · rename_i reference
        cases List.mem_singleton.mp mem
        have some_ : f.definition.returnType ≠ .void := by
          intro void
          rw [void] at reference
          cases reference.symm.trans (TypeTable.isReference_of_shape? (ready.types.primitive .void))
        obtain ⟨o, here, _⟩ :=
          (track.result setting typed halted found some_).object reference nonnull
        exact ⟨o, here⟩
      · cases mem
    · cases mem

/-- Machines that are the same but for the heap stay so, step by step. -/
theorem Track.resume (twin : Twin x.program.types m₁ m₂) (fuel : Nat) :
    Lockstep x root bottom (resume fuel m₁) (resume fuel m₂) := by
  have ready := setting.ready
  induction fuel generalizing m₁ m₂ with
  | zero =>
    rw [Vm.resume_zero, Vm.resume_zero, twin.registers]
    exact .ok (track.inStep setting typed twin)
  | succ fuel ih =>
    by_cases halted : m₁.registers.ip = Machine.haltAddress
    · rw [Vm.resume_halted halted, Vm.resume_halted (twin.registers ▸ halted), twin.registers]
      exact .ok (track.inStep setting typed twin)
    · rw [Vm.resume_running halted, Vm.resume_running (twin.registers ▸ halted)]
      have paired : Both _ (Machine.step m₁) (Machine.step m₂) :=
        track.both setting typed halted twin
      generalize stepped₂ : Machine.step m₂ = answer at paired
      cases stepped₁ : Machine.step m₁ with
      | ok _ n =>
        rw [stepped₁] at paired
        cases paired with
        | ok under =>
          rw [bind_of_ok stepped₁, bind_of_ok stepped₂]
          exact ih (track.step setting typed.shaped ⟨halted, stepped₁⟩) under.twin
      | error e n =>
        rw [stepped₁] at paired
        cases paired with
        | error under =>
          rw [bind_of_error stepped₁, bind_of_error stepped₂]
          obtain ⟨c, frames, heap, fits⟩ := track.kept setting typed halted
          rw [stepped₁] at heap fits
          exact .error (track.inStep setting typed twin) stepped₁ stepped₂ under.twin
            frames (under.beside.thin.hidden ready.types heap fits.rooted)

end Tracked

end Runs

/-! ## Histories -/

namespace Vm

section Histories

variable {initial vm : Vm} {id : FunctionId} {arguments : List UInt64} {m : Machine Vm}

/-- The machine that goes on behind an instruction without executing it. -/
def skip (m : Machine Vm) (op : Op) : Machine Vm :=
  { m with registers := { m.registers with ip := m.registers.ip + UInt64.ofNat op.length } }

end Histories

end Vm

end ManagedCode
