import ManagedCode.Proofs.Program
import ManagedCode.Proofs.Semantics.Words
import ManagedCode.Proofs.StackWords

/-!
# What a running machine shows

A view of a machine has the words on its stack, the calls in its table, its registers, the heap and
the output; the rest is either fixed while a program runs or does not matter to it.

* `Fixed`: what a run never changes. `View`, `Shows`: what it does.
* `Does`: what an action leads to from every machine with a given view, with one rule for each of
  the actions that machine instructions are made of. `Gives` is the case of one result and one view.
-/

namespace ManagedCode

open Bytecode TypeSystem
open Machine (Action Stop Trap Registers Host pop push readSlot setRegisters writeSlot)
open Stack (ActiveCall Spells)

/-! ## Views -/

/-- What a run never changes. -/
structure Fixed where
  program : Program
  loaded : Bool
  stackBase : UInt64
  stackSize : Nat
  callsBase : UInt64
  callsSize : Nat
  capacity : Nat

/-- The address of a stack slot, by the number of words from it up to the end of the stack. -/
def Fixed.place (x : Fixed) (n : Nat) : UInt64 :=
  UInt64.ofNat (x.stackBase.toNat + x.stackSize - 8 * n)

namespace Vm

def fixed (vm : Vm) : Fixed :=
  ⟨vm.program, vm.loaded, vm.stack.base, vm.stack.size, vm.calls.region.base,
    vm.calls.region.size, vm.calls.capacity⟩

def world (vm : Vm) : World := ⟨vm.collector.heap, vm.output⟩

end Vm

/-- What a run changes. -/
structure View where
  ip : UInt64
  bp : UInt64
  result : UInt64
  /-- The words on the stack, the top one first. -/
  words : List UInt64
  /-- The calls in the table, the most recent one first. -/
  calls : List ActiveCall
  world : World

/-- The registers; the stack pointer follows from the number of words. -/
def View.registers (x : Fixed) (v : View) : Registers :=
  ⟨v.ip, x.place v.words.length, v.bp, v.result⟩

/-- A machine with a view. -/
structure Shows (x : Fixed) (v : View) (m : Machine Vm) : Prop where
  fixed : m.host.fixed = x
  world : m.host.world = v.world
  registers : m.registers = v.registers x
  spells : Spells m.host.stack (x.place v.words.length) v.words
  lists : m.host.calls.Lists v.calls

namespace Shows

variable {x : Fixed} {v : View} {m : Machine Vm}

section

variable (shows_ : Shows x v m)

include shows_

theorem program : m.host.program = x.program :=
  congrArg Fixed.program shows_.fixed

theorem stackBase : m.host.stack.base = x.stackBase :=
  congrArg Fixed.stackBase shows_.fixed

theorem stackSize : m.host.stack.size = x.stackSize :=
  congrArg Fixed.stackSize shows_.fixed

theorem below : x.stackBase.toNat + x.stackSize < 2 ^ 64 := by
  have below := shows_.spells.below
  rwa [shows_.stackBase, shows_.stackSize] at below

/-- The words lie inside the stack. -/
theorem fits : 8 * v.words.length ≤ x.stackSize := by
  have reach := shows_.spells.reach
  have low := shows_.spells.low
  rw [shows_.stackBase] at reach low
  rw [shows_.stackSize] at reach
  omega

theorem toNat_place (n : Nat) : (x.place n).toNat = x.stackBase.toNat + x.stackSize - 8 * n := by
  have below := shows_.below
  unfold Fixed.place
  rw [UInt64.toNat_ofNat']
  omega

/-- The address of a word, counted from the top. -/
theorem place_sub {k : Nat} (bound : k ≤ v.words.length) :
    x.place (v.words.length - k) = x.place v.words.length + UInt64.ofNat (8 * k) := by
  have fits := shows_.fits
  apply UInt64.toNat_inj.mp
  rw [shows_.spells.toNat_place bound, shows_.toNat_place, shows_.toNat_place]
  omega

end

end Shows

/-! ## Actions -/

/-- The result of an action that is as wanted. -/
def After (x : Fixed) {α : Type} (Q : α → View → Prop) (E : Stop → World → Prop) :
    EStateM.Result Stop (Machine Vm) α → Prop
  | .ok a m => ∃ v, Shows x v m ∧ Q a v
  | .error e m => m.host.fixed = x ∧ E e m.host.world

/-- From every machine with a view, an action gives a result and a view that are as wanted, or stops
for a reason that is. -/
def Does (x : Fixed) (v : View) {α : Type} (act : Action Vm α) (Q : α → View → Prop)
    (E : Stop → World → Prop) : Prop :=
  ∀ m, Shows x v m → After x Q E (act m)

/-- An action that gives one result and leaves one view unless it stops. -/
abbrev Gives (x : Fixed) (v : View) {α : Type} (act : Action Vm α) (a : α) (u : View)
    (E : Stop → World → Prop) : Prop :=
  Does x v act (fun b w => b = a ∧ w = u) E

section Rules

variable {x : Fixed} {v u : View} {α β : Type} {E : Stop → World → Prop}

variable {act : Action Vm α} {P Q : α → View → Prop} {k : α → Action Vm β} {w : UInt64}

theorem Does.mono {D : Stop → World → Prop} (does : Does x v act P D) (good : ∀ a u, P a u → Q a u)
    (stops : ∀ e w, D e w → E e w) : Does x v act Q E := by
  intro m shows_
  have after := does m shows_
  cases run : act m with
  | ok a m' =>
    rw [run] at after
    obtain ⟨u, shows', holds⟩ := after
    exact ⟨u, shows', good a u holds⟩
  | error e m' =>
    rw [run] at after
    exact ⟨after.1, stops e _ after.2⟩

theorem Does.bind {Q : β → View → Prop} (first : Does x v act P E)
    (rest : ∀ a u, P a u → Does x u (k a) Q E) : Does x v (act >>= k) Q E := by
  intro m shows_
  have after := first m shows_
  cases run : act m with
  | ok a m' =>
    rw [run] at after
    obtain ⟨u, shows', holds⟩ := after
    rw [bind_of_ok run]
    exact rest a u holds m' shows'
  | error e m' =>
    rw [run] at after
    rw [bind_of_error run]
    exact after

/-- What follows an action that stops does not matter. -/
theorem Does.stop {Q : β → View → Prop} (first : Does x v act (fun _ _ => False) E) :
    Does x v (act >>= k) Q E :=
  Does.bind first fun _ _ no => no.elim

variable {a : α} {address : UInt64}

theorem Gives.bind {Q : β → View → Prop} (first : Gives x v act a u E) (rest : Does x u (k a) Q E) :
    Does x v (act >>= k) Q E := by
  refine Does.bind first ?_
  rintro _ _ ⟨rfl, rfl⟩
  exact rest

theorem Gives.does (gives : Gives x v act a u E) (good : Q a u) : Does x v act Q E := by
  refine gives.mono ?_ fun _ _ => id
  rintro _ _ ⟨rfl, rfl⟩
  exact good

theorem gives_pure (a : α) : Gives x v (pure a) a v E :=
  fun _ shows_ => ⟨v, shows_, rfl, rfl⟩

theorem gives_registersOf : Gives x v Machine.registersOf (v.registers x) v E :=
  fun _ shows_ => ⟨v, shows_, shows_.registers, rfl⟩

/-- Other registers, with the stack pointer at the same word or further up. -/
theorem gives_setRegisters {change : Registers → Registers} (n : Nat)
    (bound : n ≤ v.words.length) (registers : change (v.registers x) = u.registers x)
    (words : u.words = v.words.drop n) (calls : u.calls = v.calls) (world : u.world = v.world) :
    Gives x v (setRegisters change) () u E := by
  intro m shows_
  refine ⟨u, ⟨shows_.fixed, ?_, ?_, ?_, ?_⟩, rfl, rfl⟩
  · rw [world]
    exact shows_.world
  · show change m.registers = _
    rw [shows_.registers, registers]
  · rw [words, List.length_drop, shows_.place_sub bound]
    exact shows_.spells.drop bound
  · rw [calls]
    exact shows_.lists

theorem does_trap {t : Trap} (stops : E (.trap t) v.world) : Does x v (Machine.trap t) Q E := by
  intro m shows_
  refine ⟨shows_.fixed, ?_⟩
  show E (.trap t) m.host.world
  rwa [shows_.world]

theorem gives_readSlot (k : Nat) (here : v.words[k]? = some w)
    (place : address = x.place (v.words.length - k)) : Gives x v (readSlot address) w v E := by
  intro m shows_
  have bound := (List.getElem?_eq_some_iff.mp here).1
  have read := shows_.spells.word k w here
  rw [← shows_.place_sub (Nat.le_of_lt bound), ← place] at read
  have answer : Host.readSlot m.host address = .ok w := by
    show Vm.readSlot m.host address = .ok w
    unfold Vm.readSlot
    rw [read]
  have run : readSlot address m = .ok w m := look_eq answer
  rw [run]
  exact ⟨v, shows_, rfl, rfl⟩

theorem gives_writeSlot (k : Nat) (bound : k < v.words.length)
    (place : address = x.place (v.words.length - k)) :
    Gives x v (writeSlot address w) () { v with words := v.words.set k w } E := by
  intro m shows_
  have inside := shows_.spells.contains bound
  have set := shows_.spells.set bound w
  rw [← shows_.place_sub (Nat.le_of_lt bound), ← place] at inside set
  have answer : Host.writeSlot address w m.host
      = .ok () { m.host with stack := m.host.stack.writeWord address 8 w } := by
    show Vm.writeSlot address w m.host = _
    unfold Vm.writeSlot
    rw [if_pos inside]
  have run : writeSlot address w m = .ok ()
      ⟨m.registers, m.current, { m.host with stack := m.host.stack.writeWord address 8 w }⟩ :=
    ask_eq answer
  rw [run]
  refine ⟨{ v with words := v.words.set k w }, ⟨?_, shows_.world, ?_, ?_, shows_.lists⟩, rfl, rfl⟩
  · rw [← shows_.fixed]
    simp [Vm.fixed, Vm.program]
  · rw [shows_.registers]
    simp [View.registers]
  · simpa using set

theorem gives_pop {rest : List UInt64} (top : v.words = w :: rest) :
    Gives x v pop w { v with words := rest } E := by
  intro m shows_
  have sp : m.registers.sp = x.place v.words.length := congrArg Registers.sp shows_.registers
  have fits := shows_.fits
  have place := shows_.toNat_place v.words.length
  have stop : (Host.stackTop m.host).toNat = x.stackBase.toNat + x.stackSize := by
    show (m.host.stack.base + UInt64.ofNat m.host.stack.size).toNat = _
    have below := shows_.below
    rw [shows_.stackBase, shows_.stackSize, UInt64.toNat_add, UInt64.toNat_ofNat']
    omega
  have used : ¬ Host.stackTop m.host ≤ m.registers.sp := by
    rw [UInt64.le_iff_toNat_le, sp, place, stop]
    rw [top, List.length_cons] at fits ⊢
    omega
  have read : Gives x v (readSlot m.registers.sp) w v E :=
    gives_readSlot 0 (by rw [top]; rfl) sp
  have moved : Gives x v (setRegisters ({ · with sp := m.registers.sp + Stack.slotSize })) ()
      { v with words := rest } E := by
    refine gives_setRegisters 1 (by rw [top]; exact Nat.succ_le_succ (Nat.zero_le _)) ?_
      (by rw [top]; rfl) rfl rfl
    have next := shows_.place_sub (k := 1) (by rw [top]; exact Nat.succ_le_succ (Nat.zero_le _))
    rw [top, List.length_cons, Nat.add_sub_cancel] at next
    rw [sp, top, List.length_cons]
    unfold View.registers
    rw [next]
    rfl
  unfold pop
  dsimp only
  rw [if_neg used]
  exact read.bind (moved.bind (gives_pure w)) m shows_

/-- There is no room for one more word. -/
theorem overflows_iff {m : Machine Vm} (shows_ : Shows x v m) :
    (m.registers.sp - Stack.slotSize < Host.stackLimit m.host ∨
      m.registers.sp < m.registers.sp - Stack.slotSize) ↔
        ¬ 8 * (v.words.length + 1) ≤ x.stackSize := by
  have sp : m.registers.sp = x.place v.words.length := congrArg Registers.sp shows_.registers
  have fits := shows_.fits
  have place := shows_.toNat_place v.words.length
  have small := (x.place v.words.length).toNat_lt
  have limit : Host.stackLimit m.host = x.stackBase := shows_.stackBase
  rw [limit, UInt64.lt_iff_toNat_lt, UInt64.lt_iff_toNat_lt, sp, UInt64.toNat_sub,
    show Stack.slotSize.toNat = 8 from rfl]
  omega

theorem gives_push_of_room (room : 8 * (v.words.length + 1) ≤ x.stackSize) :
    Gives x v (push w) () { v with words := w :: v.words } E := by
  intro m shows_
  have sp : m.registers.sp = x.place v.words.length := congrArg Registers.sp shows_.registers
  have place := shows_.toNat_place v.words.length
  have small := (x.place v.words.length).toNat_lt
  have above : m.host.stack.base.toNat + 8 ≤ (x.place v.words.length).toNat := by
    rw [shows_.stackBase]
    omega
  have pushed := shows_.spells.push above w
  have next : x.place (v.words.length + 1) = x.place v.words.length - 8 := by
    apply UInt64.toNat_inj.mp
    rw [UInt64.toNat_sub_of_le _ _ (UInt64.le_iff_toNat_le.mpr (by
      show 8 ≤ (x.place v.words.length).toNat
      omega)), shows_.toNat_place, shows_.toNat_place, show UInt64.toNat 8 = 8 from rfl]
    omega
  have inside : m.host.stack.contains (x.place v.words.length - 8) 8 = true := by
    have low := pushed.low
    have reach := pushed.reach
    simp only [Memory.Region.base_writeWord, Memory.Region.size_writeWord, List.length_cons]
      at low reach
    rw [Memory.Region.contains_iff]
    omega
  have answer : Host.writeSlot (m.registers.sp - Stack.slotSize) w m.host
      = .ok () { m.host with
          stack := m.host.stack.writeWord (x.place v.words.length - 8) 8 w } := by
    show Vm.writeSlot (m.registers.sp - 8) w m.host = _
    unfold Vm.writeSlot
    rw [sp, if_pos inside]
  have run : writeSlot (m.registers.sp - Stack.slotSize) w m = .ok ()
      ⟨m.registers, m.current, { m.host with
        stack := m.host.stack.writeWord (x.place v.words.length - 8) 8 w }⟩ := ask_eq answer
  unfold push
  dsimp only
  rw [if_neg fun full => (overflows_iff shows_).mp full room, bind_of_ok run]
  refine ⟨{ v with words := w :: v.words }, ⟨?_, shows_.world, ?_, ?_, shows_.lists⟩, rfl, rfl⟩
  · rw [← shows_.fixed]
    simp [Vm.fixed, Vm.program]
  · show { m.registers with sp := m.registers.sp - 8 } = _
    rw [shows_.registers]
    unfold View.registers
    rw [List.length_cons, next]
  · rw [List.length_cons, next]
    exact pushed

theorem gives_push (overflow : ∀ address, E (.trap (.stackExhausted address)) v.world) :
    Gives x v (push w) () { v with words := w :: v.words } E := by
  by_cases room : 8 * (v.words.length + 1) ≤ x.stackSize
  · exact gives_push_of_room room
  · intro m shows_
    unfold push
    dsimp only
    rw [if_pos ((overflows_iff shows_).mpr room)]
    exact does_trap (overflow _) m shows_

end Rules

end ManagedCode
