import ManagedCode.Proofs.Machine.Frames
import ManagedCode.Proofs.Semantics.Fitting

/-!
# Walking the frames of activations

The runtime finds the active functions and their slots by following saved bases and reading the
table of calls. On a machine that is where some activations are it finds these activations, each
with its own words.

* `Framed`: activations with the bases of their frames.
* `frames_of_shows`: the walk finds the frames.
* `visit_of_shows`: it reads the words of the activations with their types.
-/

namespace ManagedCode

open Bytecode TypeSystem
open Memory (Region)
open Stack (ActiveCall Active CallTable FrameSlot Site SlotKind Spells)

variable {x : Fixed} {bottom : List UInt64}

/-- Activations with the frames that the walk finds for them. -/
inductive Framed (x : Fixed) (bottom : List UInt64) :
    List (Activation UInt64) → List Active → Prop where
  | nil : Framed x bottom [] []
  | cons {a : Activation UInt64} {callers : List (Activation UInt64)} {f : Function}
      {frames : List Active} (found : x.program.functions.get? a.function = some f)
      (rest : Framed x bottom callers frames) :
      Framed x bottom (a :: callers) (⟨baseOf x bottom (a :: callers), f, a.index⟩ :: frames)

def callSites (x : Fixed) (bottom : List UInt64) :
    List (Activation UInt64) → List (UInt64 × ActiveCall)
  | [] => []
  | a :: callers => (baseOf x bottom (a :: callers), a.site) :: callSites x bottom callers

/-- The frame of an activation lies on a stack, below those of its callers. -/
structure OnStack (x : Fixed) (bottom : List UInt64) (stack : Region) (a : Activation UInt64)
    (callers : List (Activation UInt64)) : Prop where
  fixed : stack.base = x.stackBase ∧ stack.size = x.stackSize
  spells : ∃ front words, words = front ++ a.frame (baseOf x bottom callers) (spine x bottom callers) ∧
    Spells stack (x.place words.length) words

/-- The frames of all activations lie on a stack. -/
def Stacked (x : Fixed) (bottom : List UInt64) (stack : Region) : List (Activation UInt64) → Prop
  | [] => True
  | a :: callers => OnStack x bottom stack a callers

section Reading

variable {stack : Region} {words above : List UInt64}
variable {front : List UInt64} {a b : Activation UInt64} {callers : List (Activation UInt64)}

variable {w : UInt64}

/-- A word of a part of the stack. -/
theorem Spells.at (spells : Spells stack (x.place words.length) words)
    (fixed : stack.base = x.stackBase ∧ stack.size = x.stackSize) (split : words = front ++ above)
    {k : Nat} (here : above[k]? = some w) :
    stack.read64? (x.place (above.length - k)) = some w := by
  have bound := (List.getElem?_eq_some_iff.mp here).1
  have read := spells.word (front.length + k) w (by
    rw [split, List.getElem?_append_right (by omega), Nat.add_sub_cancel_left]
    exact here)
  have length : words.length = front.length + above.length := by
    rw [split, List.length_append]
  have reach := spells.reach
  have low := spells.low
  have below := spells.below
  rw [fixed.1, fixed.2] at reach below
  rw [fixed.1] at low
  have same : x.place words.length + UInt64.ofNat (8 * (front.length + k))
      = x.place (above.length - k) := by
    apply UInt64.toNat_inj.mp
    unfold Fixed.place at reach low ⊢
    rw [UInt64.toNat_ofNat'] at reach low
    rw [UInt64.toNat_add, UInt64.toNat_ofNat', UInt64.toNat_ofNat', UInt64.toNat_ofNat']
    omega
  rwa [same] at read

namespace OnStack

variable (on : OnStack x bottom stack a callers)

include on

theorem room : x.stackBase.toNat + x.stackSize < 2 ^ 64 ∧
    8 * (height bottom callers + 1 + a.slots.length) ≤ x.stackSize := by
  obtain ⟨fixed, front, words, split, spells⟩ := on
  have length := congrArg List.length split
  rw [List.length_append, Activation.length_frame, length_spine] at length
  have reach := spells.reach
  have low := spells.low
  have below := spells.below
  rw [fixed.1, fixed.2] at reach below
  rw [fixed.1] at low
  exact ⟨below, by omega⟩

/-- The slot at the base of a frame holds the base of the frame before. -/
theorem base : stack.read64? (baseOf x bottom (a :: callers)) = some (baseOf x bottom callers) := by
  obtain ⟨fixed, front, words, split, spells⟩ := on
  have split : words = (front ++ a.slots.reverse)
      ++ baseOf x bottom callers :: spine x bottom callers := by
    rw [split, Activation.frame, List.append_assoc]
  have read := Spells.at spells fixed split (k := 0) rfl
  rwa [List.length_cons, length_spine] at read

variable {n : Nat}

/-- The slots of a frame hold the words of the activation. -/
theorem slot (here : a.slots[n]? = some w) :
    stack.read64? (x.place (height bottom callers + 1 + 1 + n)) = some w := by
  obtain ⟨fixed, front, words, split, spells⟩ := on
  have bound := (List.getElem?_eq_some_iff.mp here).1
  have read := Spells.at spells fixed split (getElem?_slots here)
  rw [Activation.length_frame, length_spine] at read
  rwa [show a.slots.length + (height bottom callers + 1) - (a.slots.length - 1 - n)
    = height bottom callers + 1 + 1 + n by omega] at read

theorem read_slot (small : x.stackSize ≤ 2 ^ 31) (here : a.slots[n]? = some w) :
    stack.read64? (Stack.slotAddress (baseOf x bottom (a :: callers)) (Stack.below n)) = some w := by
  have bound := (List.getElem?_eq_some_iff.mp here).1
  obtain ⟨below, room⟩ := on.room
  rw [baseOf, slotAddress_below (by omega) (by omega) below]
  exact on.slot here

omit on in
/-- The frame of the caller lies above. -/
theorem caller (on : OnStack x bottom stack a (b :: callers)) : OnStack x bottom stack b callers := by
  obtain ⟨fixed, front, words, split, spells⟩ := on
  refine ⟨fixed, front ++ (a.slots.reverse ++ [baseOf x bottom (b :: callers),
    x.program.returnAddress b]), words, ?_, spells⟩
  rw [split, Activation.frame, spine]
  simp

theorem stacked : Stacked x bottom stack callers := by
  cases callers with
  | nil => trivial
  | cons b callers => exact on.caller

/-- Following the saved bases leads from frame to frame. -/
theorem pairBases :
    CallTable.pairBases stack (baseOf x bottom (a :: callers)) (callers.map Activation.site)
      = .ok (callSites x bottom callers) := by
  induction callers generalizing a with
  | nil => rfl
  | cons b callers ih =>
    rw [List.map_cons, CallTable.pairBases, on.base]
    dsimp only
    rw [ih on.caller]
    rfl

end OnStack

end Reading

/-! ## Frames -/

/-- The sites of calls are those of frames. -/
theorem framed_callSites (bottom : List UInt64) (active : List (Activation UInt64))
    (toSite : UInt64 × ActiveCall → Site)
    (sites : ∀ base call, toSite (base, call) = ⟨base, call.function, call.instruction.toNat⟩)
    (known : ∀ a ∈ active, (∃ f, x.program.functions.get? a.function = some f) ∧ a.index < 2 ^ 32) :
    ∃ frames, ((callSites x bottom active).map toSite).mapM (Site.active x.program.functions)
        = .ok frames ∧ Framed x bottom active frames := by
  induction active with
  | nil => exact ⟨[], rfl, .nil⟩
  | cons a callers ih =>
    obtain ⟨frames, found, framed⟩ := ih fun a mem => known a (List.mem_cons_of_mem _ mem)
    obtain ⟨⟨f, function⟩, short⟩ := known a List.mem_cons_self
    refine ⟨⟨baseOf x bottom (a :: callers), f, a.index⟩ :: frames, ?_, .cons function framed⟩
    have index : (UInt32.ofNat a.index).toNat = a.index := by
      rw [UInt32.toNat_ofNat', Nat.mod_eq_of_lt short]
    rw [callSites, List.map_cons, mapM_cons_eq_ok_iff]
    refine ⟨_, _, ?_, found, rfl⟩
    rw [sites]
    show Site.active x.program.functions ⟨_, a.function, (UInt32.ofNat a.index).toNat⟩ = _
    unfold Site.active
    dsimp only
    rw [function, index]

section Walk

variable {c : Configuration UInt64} {ip result : UInt64} {m : Machine Vm}
variable {R : TypeId → UInt64 → Prop} {stack : Region}

theorem Shows.fixed_stack {v : View} (shows_ : Shows x v m) :
    m.host.stack.base = x.stackBase ∧ m.host.stack.size = x.stackSize :=
  ⟨shows_.stackBase, shows_.stackSize⟩

section

variable (shows_ : Shows x (c.view x bottom ip result) m)

include shows_

theorem Shows.onStack : OnStack x bottom m.host.stack c.current c.callers :=
  ⟨shows_.fixed_stack, [], _, rfl, shows_.spells⟩

theorem chain_of_shows :
    m.host.calls.chain m.host.stack (baseOf x bottom c.active)
      = .ok (callSites x bottom c.callers) := by
  unfold CallTable.chain
  rw [shows_.lists.toList]
  exact shows_.onStack.pairBases

/-- The walk finds the frames of the activations. -/
theorem frames_of_shows
    (known : ∀ a ∈ c.active, (∃ f, x.program.functions.get? a.function = some f)
      ∧ a.index < 2 ^ 32) :
    ∃ frames, Stack.frames m.host.stack m.host.calls m.host.functions
        ⟨baseOf x bottom c.active, c.current.function, c.current.index⟩ = .ok frames ∧
      Framed x bottom c.active frames := by
  have functions : m.host.functions = x.program.functions :=
    congrArg Program.functions shows_.program
  obtain ⟨⟨f, function⟩, short⟩ := known c.current List.mem_cons_self
  unfold Stack.frames
  rw [chain_of_shows shows_, functions]
  obtain ⟨frames, found, framed⟩ := framed_callSites (x := x) bottom c.callers
    (fun pair => ⟨pair.1, pair.2.function, pair.2.instruction.toNat⟩) (fun _ _ => rfl) fun a mem => known a (List.mem_cons_of_mem _ mem)
  refine ⟨⟨baseOf x bottom c.active, f, c.current.index⟩ :: frames, ?_, .cons function framed⟩
  refine mapM_cons_eq_ok_iff.mpr ⟨_, frames, ?_, found, rfl⟩
  unfold Site.active
  dsimp only
  rw [function]

end

/-! ## Slots -/

variable {values : List UInt64} {functions : FunctionTable} {a : Activation UInt64}
  {frames : List Active}

/-- Slots that lie one below the other are read in order. -/
theorem mapM_slots {base : UInt64}
    {read : SlotKind × Nat × TypeId × Int32 → Except Stack.WalkError FrameSlot}
    (reads : ∀ kind index type distance w, stack.read64? (Stack.slotAddress base distance) = some w → read (kind, index, type, distance) = .ok ⟨kind, index, type, Stack.slotAddress base distance, w⟩)
    {plan : List (SlotKind × Nat × TypeId × Int32)} {start : Nat}
    (distances : plan.map (·.2.2.2) = (List.range' start plan.length).map Stack.below)
    (there : ∀ (n : Nat) (w : UInt64), values[n]? = some w → stack.read64? (Stack.slotAddress base (Stack.below (start + n))) = some w)
    (length : plan.length = values.length) :
    ∃ slots, plan.mapM read = .ok slots ∧
      slots.map (fun slot => (slot.type, slot.value)) = (plan.map (·.2.2.1)).zip values := by
  induction plan generalizing values start with
  | nil => exact ⟨[], rfl, rfl⟩
  | cons item plan ih =>
    cases values with
    | nil => cases length
    | cons w values =>
      obtain ⟨kind, index, type, distance⟩ := item
      rw [List.length_cons, List.range'_succ, List.map_cons, List.map_cons,
        List.cons.injEq] at distances
      obtain ⟨first, later⟩ := distances
      have here := there 0 w rfl
      rw [Nat.add_zero, ← show distance = Stack.below start from first] at here
      obtain ⟨slots, rest, same⟩ := ih later
        (fun n w at_ => by
          have := there (n + 1) w at_
          rwa [Nat.add_comm n 1, ← Nat.add_assoc] at this)
        (Nat.succ.inj length)
      refine ⟨_ :: slots, mapM_cons_eq_ok_iff.mpr
        ⟨_, slots, reads kind index type distance w here, rest, rfl⟩, ?_⟩
      rw [List.map_cons, same]
      rfl

theorem map_zipIdx {α : Type} (l : List α) (start : Nat) :
    l.zipIdx.map (fun item => Stack.below (start + item.2))
      = (List.range' start l.length).map Stack.below := by
  rw [show (fun item : α × Nat => Stack.below (start + item.2))
    = (Stack.below ∘ (start + ·)) ∘ Prod.snd from rfl, ← List.map_map, List.zipIdx_map_snd,
    ← List.map_map, List.map_add_range', Nat.add_zero]

/-- The slots of a frame lie one below the other. -/
theorem slotPlan_distances (f : Active) :
    f.slotPlan.map (·.2.2.2) = (List.range' 0 f.slotPlan.length).map Stack.below := by
  have arguments := map_zipIdx f.function.definition.parameters 0
  have locals := map_zipIdx f.function.locals f.function.definition.parameters.length
  have operands := map_zipIdx (f.function.operandTypes f.instruction).reverse
    (f.function.definition.parameters.length + f.function.locals.length)
  unfold Active.slotPlan
  dsimp only
  simp only [List.map_append, List.map_map, List.length_append, List.length_map, List.length_zipIdx]
  rw [← List.range'_append_1, ← List.range'_append_1, List.map_append, List.map_append, Nat.zero_add,
    Nat.zero_add, ← arguments, ← locals, ← operands]
  simp only [Nat.zero_add]
  rfl

theorem slotPlan_types (f : Active) :
    f.slotPlan.map (·.2.2.1) = f.function.definition.parameters ++ f.function.locals
      ++ (f.function.operandTypes f.instruction).reverse := by
  unfold Active.slotPlan
  simp only [List.map_append, List.map_map]
  show List.map Prod.fst _ ++ List.map Prod.fst _ ++ List.map Prod.fst _ = _
  rw [List.zipIdx_map_fst, List.zipIdx_map_fst, List.zipIdx_map_fst]

theorem zip_reverse {types : List TypeId} (same : types.length = values.length) :
    types.reverse.zip values.reverse = (types.zip values).reverse := by
  induction types generalizing values with
  | nil => rfl
  | cons type types ih =>
    cases values with
    | nil => cases same
    | cons value values =>
      have same : types.length = values.length := Nat.succ.inj same
      rw [List.reverse_cons, List.reverse_cons, List.zip_append (by simpa using same), ih same]
      show _ = ((type, value) :: types.zip values).reverse
      rw [List.reverse_cons]
      rfl

variable {f : Function}

/-- The walk reads as many slots as an activation has. -/
theorem length_slotPlan (fits : a.Fits functions R f) (base : UInt64) :
    (Active.slotPlan ⟨base, f, a.index⟩).length = a.slots.length := by
  have count := congrArg List.length (slotPlan_types ⟨base, f, a.index⟩)
  have arguments := fits.arguments.length_eq
  have locals := fits.locals.length_eq
  have operands := fits.operands.length_eq
  rw [List.length_map] at count
  rw [count, Activation.slots]
  simp
  omega

/-- The walk reads the words of an activation with their types. -/
theorem slots_of_frame {callers : List (Activation UInt64)} (on : OnStack x bottom stack a callers)
    (small : x.stackSize ≤ 2 ^ 31) (fits : a.Fits functions R f) :
    ∃ slots, Active.slots ⟨baseOf x bottom (a :: callers), f, a.index⟩ stack = .ok slots ∧
      slots.map (fun slot => (slot.type, slot.value)) = Words.slots f a := by
  have types := slotPlan_types ⟨baseOf x bottom (a :: callers), f, a.index⟩
  dsimp only at types
  have arguments := fits.arguments.length_eq
  have locals := fits.locals.length_eq
  have operands := fits.operands.length_eq
  have length := length_slotPlan fits (baseOf x bottom (a :: callers))
  have same : Words.slots f a
      = ((Active.slotPlan ⟨baseOf x bottom (a :: callers), f, a.index⟩).map (·.2.2.1)).zip a.slots := by
    rw [types, Words.slots, Activation.slots, ← List.append_assoc,
      List.zip_append (by simp; omega), List.zip_append (by omega), zip_reverse operands]
  rw [same]
  unfold Active.slots
  refine mapM_slots ?_ (slotPlan_distances _)
    (fun n w here => by rw [Nat.zero_add]; exact on.read_slot small here) length
  intro kind index type distance w here
  dsimp only
  rw [here]

/-- The walk over all frames reads the words of all activations. -/
theorem visitFrames_of_framed (active : List (Activation UInt64))
    (stacked : Stacked x bottom stack active) (small : x.stackSize ≤ 2 ^ 31)
    (fits : ∀ a ∈ active, ∃ f, a.Fits x.program.functions R f)
    (framed : Framed x bottom active frames) (visited : Array (Active × FrameSlot))
    (types : TypeTable) :
    ∃ slots, Stack.visitFrames stack frames visited = (visited ++ slots, none) ∧
      (slots.toList.filter fun slot => types.isReference slot.2.type).map (·.2.value)
        = Words.roots types x.program.functions active := by
  induction framed generalizing visited with
  | nil => exact ⟨#[], by simp [Stack.visitFrames], rfl⟩
  | @cons a callers f frames found rest ih =>
    obtain ⟨g, fit⟩ := fits a List.mem_cons_self
    cases found.symm.trans fit.found
    have on : OnStack x bottom stack a callers := stacked
    obtain ⟨slots, read, same⟩ := slots_of_frame on small fit
    obtain ⟨later, walked, same'⟩ := ih on.stacked (fun b mem => fits b (List.mem_cons_of_mem _ mem))
      (visited ++ slots.map (Active.mk (baseOf x bottom (a :: callers)) f a.index, ·))
    refine ⟨(slots.map (Active.mk (baseOf x bottom (a :: callers)) f a.index, ·)).toArray ++ later,
      ?_, ?_⟩
    · rw [Stack.visitFrames, read]
      dsimp only
      rw [walked]
      congr 1
      exact Array.ext' (by simp)
    · have own := congrArg (fun slots => (slots.filter fun slot : TypeId × UInt64 =>
        types.isReference slot.1).map (·.2)) same
      simp only [List.filter_map, List.map_map] at own
      rw [Words.roots, List.flatMap_cons, found]
      dsimp only
      rw [← own, ← Words.roots, ← same', Array.toList_append, List.filter_append, List.map_append,
        List.filter_map, List.map_map]
      rfl

/-- The walk of a machine that is where activations are finds their references. -/
theorem visit_of_shows (types : TypeTable) (shows_ : Shows x (c.view x bottom ip result) m)
    (small : x.stackSize ≤ 2 ^ 31) (fits : ∀ a ∈ c.active, ∃ f, a.Fits x.program.functions R f)
    (short : ∀ a ∈ c.active, a.index < 2 ^ 32) :
    ∃ slots count, Stack.visit m.host.stack m.host.calls m.host.functions
        ⟨baseOf x bottom c.active, c.current.function, c.current.index⟩ = ⟨slots, .ok count⟩ ∧
      Vm.rootsOf types ⟨slots, .ok count⟩ = Words.roots types x.program.functions c.active := by
  obtain ⟨frames, found, framed⟩ := frames_of_shows shows_ fun a mem =>
    ⟨(fits a mem).imp fun f fit => fit.found, short a mem⟩
  obtain ⟨slots, walked, same⟩ := visitFrames_of_framed c.active shows_.onStack small
    fits framed #[] types
  refine ⟨#[] ++ slots, frames.length, ?_, ?_⟩
  · unfold Stack.visit
    rw [found]
    dsimp only
    rw [walked]
  · rw [← same]
    unfold Vm.rootsOf
    simp

/-! ## What the runtime does with the frames -/

open Heap (Collector)
open Machine (Stop Host ask)

/-- The site that compiled code names, where the activations are. -/
theorem siteAt_eq (id : FunctionId) {index : Nat} (base : UInt64) (short : index < 2 ^ 32) :
    Vm.siteAt base id.toBits (UInt32.ofNat index) = ⟨base, id, index⟩ := by
  unfold Vm.siteAt
  rw [Handle.ofBits_toBits, UInt32.toNat_ofNat', Nat.mod_eq_of_lt short]

/-- A request for a collection collects what the walk found, after the journal has its notes. -/
theorem collect_eq (base function : UInt64) (instruction : UInt32) (vm : Vm) :
    ∃ collector, collector.heap = vm.collector.heap ∧ collector.stats = vm.collector.stats ∧
      Vm.collect base function instruction vm = (do
        let v := Stack.visit vm.stack vm.calls vm.functions (Vm.siteAt base function instruction)
        discard (MonadExcept.ofExcept (v.outcome.mapError Stop.walk))
        Vm.onCollector .gc fun types => discard (Collector.collect types (Vm.rootsOf types v)))
        { vm with collector } := by
  unfold Vm.collect
  rw [get_bind]
  dsimp only
  split
  · exact ⟨Vm.noteSlots vm.types (Stack.visit vm.stack vm.calls vm.functions
      (Vm.siteAt base function instruction)) vm.collector, rfl, rfl, rfl⟩
  · exact ⟨vm.collector, rfl, rfl, rfl⟩

/-- A collection changes the collector alone. -/
theorem leaves_collect (base function : UInt64) (instruction : UInt32) (vm : Vm) :
    ∃ collector, leaves (Vm.collect base function instruction vm) = { vm with collector } := by
  obtain ⟨collector, _, _, same⟩ := collect_eq base function instruction vm
  rw [same]
  dsimp only
  generalize Stack.visit vm.stack vm.calls vm.functions _ = v
  cases v.outcome.mapError Stop.walk with
  | error e => exact ⟨collector, rfl⟩
  | ok count =>
    show ∃ k, leaves (Vm.onCollector .gc (fun types =>
      discard (Collector.collect types (Vm.rootsOf types v))) { vm with collector })
        = { vm with collector := k }
    unfold Vm.onCollector
    dsimp only
    split <;> exact ⟨_, rfl⟩

section Collect

variable {E : Stop → World → Prop} {R : TypeId → UInt64 → Prop}

section Asking

variable (small : x.stackSize ≤ 2 ^ 31) (fits : ∀ a ∈ c.active, ∃ f, a.Fits x.program.functions R f)
  (short : ∀ a ∈ c.active, a.index < 2 ^ 32)

include small fits short

/-- A machine that asks for a collection asks for one from the references of the activations. -/
theorem ask_collect (shows_ : Shows x (c.view x bottom ip result) m) :
    ∃ m' act, Shows x (c.view x bottom ip result) m' ∧
      act x.program.types
        = discard (Collector.collect x.program.types
            (Words.roots x.program.types x.program.functions c.active)) ∧
      ask (Host.collect (baseOf x bottom c.active) c.current.function.toBits
        (UInt32.ofNat c.current.index)) m = ask (Vm.onCollector .gc act) m' := by
  obtain ⟨slots, count, walked, roots⟩ := visit_of_shows x.program.types shows_ small fits short
  rw [← siteAt_eq _ _ (short _ List.mem_cons_self)] at walked
  obtain ⟨collector, heap, _, same⟩ := collect_eq _ _ _ m.host
  rw [walked] at same
  refine ⟨⟨m.registers, m.current, { m.host with collector }⟩, fun types =>
    discard (Collector.collect types (Vm.rootsOf types ⟨slots, .ok count⟩)),
    ⟨shows_.fixed, ?_, shows_.registers, shows_.spells, shows_.lists⟩, ?_, ?_⟩
  · rw [← shows_.world]
    show World.mk collector.heap m.host.output = World.mk m.host.collector.heap m.host.output
    rw [heap]
  · dsimp only
    rw [roots]
  · exact ask_congr same

variable {world : World}

theorem gives_collect
    (ran : c.world.effect (discard (Collector.collect x.program.types
      (Words.roots x.program.types x.program.functions c.active))) = .ok () world) :
    Gives x (c.view x bottom ip result) (ask (Host.collect (baseOf x bottom c.active)
      c.current.function.toBits (UInt32.ofNat c.current.index))) ()
      { c.view x bottom ip result with world } E := by
  intro m shows_
  obtain ⟨m', act, shows', same, asked⟩ := ask_collect small fits short shows_
  rw [asked]
  refine gives_onCollector ?_ ?_ m' shows'
  · rw [same]
    exact Heap.heapOnly_collect _
  · rw [same]
    exact ran

theorem does_collect_error {e : Heap.GcError} {Q : Unit → View → Prop}
    (ran : c.world.effect (discard (Collector.collect x.program.types
      (Words.roots x.program.types x.program.functions c.active))) = .error e world)
    (stops : E (.gc e) world) :
    Does x (c.view x bottom ip result) (ask (Host.collect (baseOf x bottom c.active)
      c.current.function.toBits (UInt32.ofNat c.current.index))) Q E := by
  intro m shows_
  obtain ⟨m', act, shows', same, asked⟩ := ask_collect small fits short shows_
  rw [asked]
  refine does_onCollector_error ?_ (by rw [same]; exact ran) stops m' shows'
  rw [same]
  exact Heap.heapOnly_collect _

end Asking

/-- The lines for frames are the lines for their activations. -/
theorem listing_of_framed (types : TypeTable) {active : List (Activation UInt64)}
    (framed : Framed x bottom active frames) :
    frames.map (fun f => s!"  at {f.function.signature types} [{Text.position f.instruction}]\n")
      = Words.listing types x.program.functions active := by
  induction framed with
  | nil => rfl
  | cons found rest ih =>
    rw [List.map_cons, ih, Words.listing, Words.listing, List.map_cons, found]

theorem gives_printCallStack
    (known : ∀ a ∈ c.active, (∃ f, x.program.functions.get? a.function = some f) ∧
      a.index < 2 ^ 32) :
    Gives x (c.view x bottom ip result) (ask (Host.printCallStack
      (baseOf x bottom c.active) c.current.function.toBits (UInt32.ofNat c.current.index))) ()
      { c.view x bottom ip result with
        world := { c.world with
          output := (Words.listing x.program.types x.program.functions c.active).foldl (· ++ ·)
            c.world.output } } E := by
  intro m shows_
  have types : m.host.types = x.program.types := congrArg Program.types shows_.program
  obtain ⟨frames, found, framed⟩ := frames_of_shows shows_ known
  rw [← siteAt_eq _ _ (known _ List.mem_cons_self).2] at found
  have answer : Host.printCallStack (baseOf x bottom c.active) c.current.function.toBits
      (UInt32.ofNat c.current.index) m.host = .ok () { m.host with
        output := (Words.listing x.program.types x.program.functions c.active).foldl (· ++ ·)
          m.host.output } := by
    show Vm.printCallStack _ _ _ m.host = _
    unfold Vm.printCallStack
    rw [found]
    dsimp only
    rw [← listing_of_framed x.program.types framed, types]
  have output : m.host.output = c.world.output := congrArg World.output shows_.world
  rw [ask_eq answer]
  refine ⟨{ c.view x bottom ip result with
    world := { c.world with
      output := (Words.listing x.program.types x.program.functions c.active).foldl (· ++ ·)
        c.world.output } },
    ⟨shows_.fixed, ?_, shows_.registers, shows_.spells, shows_.lists⟩, rfl, rfl⟩
  show World.mk m.host.collector.heap _ = World.mk c.world.heap _
  rw [output, show m.host.collector.heap = c.world.heap from heap_of_shows shows_]

end Collect

end Walk

end ManagedCode
