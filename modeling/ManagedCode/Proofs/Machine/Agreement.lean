import ManagedCode.Proofs.Machine.Congruence

/-!
# Machines that agree on what is in use

Of the stack a machine uses the words from its top up, and of the table of calls the entries of the
calls under way. Two machines may hold other bytes elsewhere. As long as they read only what is in
use they do the same, and what one writes the other writes too.

* `Region.AgreeOn`, `CallTable.Agrees`: two memories with the same bytes in use.
* `Vm.AgreesFrom`: what compiled code asks of a virtual machine keeps this.
* `Machine.Agrees`: two machines of this kind. `Machine.congruent_agrees`: the actions at the top of
  the stack keep them so.
* `Machine.Agrees.enter`, `leave`, `ret`, `nullCheck`, `loadSlot`, `askFrom`: machine instructions
  that reach further down, as long as they stay inside what is in use.
-/

namespace ManagedCode

open Bytecode (Native)
open Heap (Collector)
open Machine (Action Host Registers Stop Trap)
open Memory (Region)
open Stack (ActiveCall CallTable CallError)
open Target (Op Width)
open TypeSystem (TypeTable)

/-! ## Memory that agrees where it is in use -/

namespace Memory.Region

/-- Two regions in the same place with the same bytes at some addresses. -/
structure AgreeOn (P : Nat → Prop) (r r' : Region) : Prop where
  base : r'.base = r.base
  size : r'.size = r.size
  byte : ∀ i < r.size, P (r.base.toNat + i) → r'.byte i = r.byte i

namespace AgreeOn

variable {P Q : Nat → Prop} {r r' : Region} {address : UInt64} {width : Nat}

section

variable (agree : AgreeOn P r r')

include agree

theorem mono (fewer : ∀ a, Q a → P a) : AgreeOn Q r r' :=
  ⟨agree.base, agree.size, fun i bound here => agree.byte i bound (fewer _ here)⟩

theorem contains (address : UInt64) (width : Nat) :
    r'.contains address width = r.contains address width := by
  unfold Region.contains
  rw [offset?_congr agree.base agree.size]

/-- A word of bytes that agree. -/
theorem readWord? (covered : ∀ a, address.toNat ≤ a → a < address.toNat + width → P a) :
    r'.readWord? address width = r.readWord? address width := by
  cases inside : r.contains address width with
  | false =>
    have none {q : Region} (outside : q.contains address width = false) :
        q.readWord? address width = none := by
      rw [← readWord?_isSome_iff] at outside
      exact Option.isNone_iff_eq_none.mp (Option.isSome_eq_false_iff.mp outside)
    rw [none inside, none ((agree.contains address width).trans inside)]
  | true =>
    have inside := contains_iff.mp inside
    refine readWord?_congr agree.base agree.size fun i low high => ?_
    rw [agree.base] at low high
    exact agree.byte i (by omega) (covered _ low high)

/-- What is written to both agrees, too. -/
theorem writeWord (inside : r.contains address width = true) (value : UInt64) :
    AgreeOn (fun a => P a ∨ address.toNat ≤ a ∧ a < address.toNat + width)
      (r.writeWord address width value) (r'.writeWord address width value) := by
  refine ⟨by simp [agree.base], by simp [agree.size], fun i bound here => ?_⟩
  rw [base_writeWord] at here
  rw [size_writeWord] at bound
  rcases here with here | ⟨low, high⟩
  · exact byte_writeWord_congr agree.base agree.size address width value (agree.byte i bound here)
  · obtain ⟨offset, place⟩ := Option.isSome_iff_exists.mp inside
    have start := (offset?_eq_some_iff.mp place).1
    have written : i - offset < (encodeLE width value).length := by
      rw [length_encodeLE]
      omega
    rw [writeWord_of_offset? value place,
      writeWord_of_offset? value ((offset?_congr agree.base agree.size address width).trans place),
      byte_setBytes, byte_setBytes, if_pos (by omega), if_pos (by omega),
      List.getElem?_eq_getElem written]
    rfl

end

end AgreeOn

end Memory.Region

namespace Stack.CallTable

/-- The bytes of the calls in a table. The last four bytes of an entry are never used. -/
def InUse (t : CallTable) (a : Nat) : Prop :=
  ∃ index < t.depth,
    (t.entryAddress index).toNat ≤ a ∧ a < (t.entryAddress index).toNat + 12

/-- Two tables in the same place with the same calls. -/
structure Agrees (t t' : CallTable) : Prop where
  capacity : t'.capacity = t.capacity
  depth : t'.depth = t.depth
  region : t.region.AgreeOn t.InUse t'.region
  below : t.region.base.toNat + t.region.size < 2 ^ 64

namespace Agrees

variable {t t' : CallTable}

section

variable (agrees : Agrees t t')

include agrees

theorem entryAddress (index : Nat) : t'.entryAddress index = t.entryAddress index := by
  unfold CallTable.entryAddress
  rw [agrees.region.base]

/-- An entry whose handle lies in the table does not wrap around the end of memory. -/
theorem toNat_add_eight {index : Nat} (inside : t.region.contains (t.entryAddress index) 8 = true) :
    (t.entryAddress index + 8).toNat = (t.entryAddress index).toNat + 8 := by
  have inside := Region.contains_iff.mp inside
  have below := agrees.below
  rw [UInt64.toNat_add, show UInt64.toNat 8 = 8 from rfl]
  omega

theorem get? (back : Nat) : t'.get? back = t.get? back := by
  unfold CallTable.get?
  rw [agrees.depth, agrees.entryAddress]
  by_cases bound : back < t.depth
  · rw [if_pos bound, if_pos bound]
    dsimp only
    have used : t.depth - 1 - back < t.depth := by omega
    generalize t.depth - 1 - back = index at used
    have function : t'.region.read64? (t.entryAddress index)
        = t.region.read64? (t.entryAddress index) :=
      agrees.region.readWord? fun a low high => ⟨index, used, low, by omega⟩
    rw [function]
    cases read : t.region.read64? (t.entryAddress index) with
    | none => rfl
    | some word =>
      -- Where the handle cannot be read, the instruction after it is not looked at.
      have inside : t.region.contains (t.entryAddress index) 8 = true := by
        rw [← Region.readWord?_isSome_iff]
        exact Option.isSome_iff_exists.mpr ⟨word, read⟩
      have next := agrees.toNat_add_eight inside
      have instruction : t'.region.read32? (t.entryAddress index + 8)
          = t.region.read32? (t.entryAddress index + 8) :=
        congrArg (Option.map UInt64.toUInt32) (agrees.region.readWord? fun a low high =>
          ⟨index, used, by omega, by omega⟩)
      rw [instruction]
  · rw [if_neg bound, if_neg bound]

/-- A call that is recorded in both tables. -/
theorem pushed (call : ActiveCall)
    (inside : t.region.contains (t.entryAddress t.depth) entrySize = true) :
    Agrees (t.pushed call) (t'.pushed call) := by
  have whole := Region.contains_iff.mp inside
  rw [show entrySize = 16 from rfl] at whole
  have handle : t.region.contains (t.entryAddress t.depth) 8 = true :=
    Region.contains_iff.mpr (by omega)
  have next := agrees.toNat_add_eight handle
  have rest : (t.region.writeWord (t.entryAddress t.depth) 8 call.function.toBits).contains
      (t.entryAddress t.depth + 8) 4 = true := by
    rw [Region.contains_iff, Region.base_writeWord, Region.size_writeWord]
    omega
  have written := (agrees.region.writeWord handle call.function.toBits).writeWord rest
    call.instruction.toUInt64
  have region : (t'.pushed call).region
      = (t'.region.writeWord (t.entryAddress t.depth) 8 call.function.toBits).writeWord
        (t.entryAddress t.depth + 8) 4 call.instruction.toUInt64 := by
    unfold CallTable.pushed
    rw [agrees.depth, agrees.entryAddress]
  refine ⟨agrees.capacity, congrArg (· + 1) agrees.depth, ?_, by
    simpa [CallTable.pushed] using agrees.below⟩
  rw [region]
  refine written.mono ?_
  rintro a ⟨index, used, low, high⟩
  have same : (t.pushed call).entryAddress index = t.entryAddress index := by
    simp [CallTable.entryAddress, CallTable.pushed]
  rw [same] at low high
  by_cases last : index = t.depth
  · subst last
    by_cases first : a < (t.entryAddress t.depth).toNat + 8
    · exact .inl (.inr ⟨low, first⟩)
    · exact .inr ⟨by omega, by omega⟩
  · have used : index < t.depth + 1 := used
    exact .inl (.inl ⟨index, by omega, low, high⟩)

end

end Agrees

/-- Tables without calls agree wherever they have them. -/
theorem agrees_clear {t t' : CallTable} (capacity : t'.capacity = t.capacity)
    (base : t'.region.base = t.region.base) (size : t'.region.size = t.region.size)
    (below : t.region.base.toNat + t.region.size < 2 ^ 64) : Agrees t.clear t'.clear := by
  refine ⟨capacity, rfl, ⟨base, size, ?_⟩, below⟩
  rintro i _ ⟨index, used, _⟩
  exact absurd used (Nat.not_lt_zero index)

theorem parallel_push (call : ActiveCall) : Parallel Agrees (push call) := by
  intro t t' agrees
  rw [push_eq, push_eq, agrees.depth, agrees.capacity, agrees.entryAddress, agrees.region.contains]
  split
  · split
    · exact .ok (agrees.pushed call ‹_›)
    · exact .error agrees
  · exact .error agrees

theorem parallel_pop : Parallel Agrees pop := by
  intro t t' agrees
  unfold pop
  rw [agrees.get?]
  cases t.get? 0 with
  | none => exact .error agrees
  | some call =>
    refine .ok ⟨agrees.capacity, congrArg (· - 1) agrees.depth, agrees.region.mono ?_,
      agrees.below⟩
    rintro a ⟨index, used, inside⟩
    exact ⟨index, Nat.lt_of_lt_of_le used (Nat.sub_le _ _), inside⟩

end Stack.CallTable

/-! ## Requests of compiled code -/

variable {base : UInt64}

namespace Vm

/-- A machine with another stack and another table of calls. -/
def holding (vm : Vm) (stack : Region) (calls : CallTable) : Vm := { vm with stack, calls }

/-- Two machines that agree on everything but the stack below an address and the entries of the
table of calls that are not in use. -/
def AgreesFrom (sp : UInt64) (vm vm' : Vm) : Prop :=
  ∃ stack calls, vm.stack.AgreeOn (sp.toNat ≤ ·) stack ∧
    vm.stack.base.toNat + vm.stack.size < 2 ^ 63 ∧ vm.calls.Agrees calls ∧
    vm' = vm.holding stack calls

namespace AgreesFrom

variable {sp : UInt64}
variable {vm vm' : Vm}

/-- The stack need not agree further down than it is in use. -/
theorem raise {sp' : UInt64} (agrees : AgreesFrom sp vm vm') (higher : sp.toNat ≤ sp'.toNat) :
    AgreesFrom sp' vm vm' := by
  obtain ⟨stack, calls, slots, below, entries, rfl⟩ := agrees
  exact ⟨stack, calls, slots.mono fun a => Nat.le_trans higher, below, entries, rfl⟩

theorem readSlot {address : UInt64} (agrees : AgreesFrom sp vm vm')
    (inside : sp.toNat ≤ address.toNat) : vm'.readSlot address = vm.readSlot address := by
  obtain ⟨stack, calls, slots, below, entries, rfl⟩ := agrees
  have same : stack.readWord? address 8 = vm.stack.readWord? address 8 :=
    slots.readWord? fun a low _ => Nat.le_trans inside low
  unfold Vm.readSlot Region.read64?
  rw [← same]
  rfl

theorem writeSlot (address value : UInt64) :
    Parallel (AgreesFrom sp) (Vm.writeSlot address value) := by
  rintro vm _ ⟨stack, calls, slots, below, entries, rfl⟩
  unfold Vm.writeSlot holding
  dsimp only
  rw [slots.contains]
  split
  · refine .ok ⟨_, _, (slots.writeWord ‹_› value).mono fun a => Or.inl, ?_, entries, rfl⟩
    simpa using below
  · exact .error ⟨_, _, slots, below, entries, rfl⟩

variable {α : Type} {function : UInt64}

theorem onCollector {ε : Type} (failed : ε → Stop) (act : TypeTable → EStateM ε Collector α) :
    Parallel (AgreesFrom sp) (Vm.onCollector failed act) := by
  rintro ⟨settings, types, functions, signatures, image, collector, _, _, output, main, loaded⟩ _
    ⟨stack, calls, slots, below, entries, rfl⟩
  unfold Vm.onCollector holding
  dsimp only
  cases act types collector with
  | ok a collector => exact .ok ⟨_, _, slots, below, entries, rfl⟩
  | error e collector => exact .error ⟨_, _, slots, below, entries, rfl⟩

theorem onCalls (failed : CallError → Stop) {act : EStateM CallError CallTable α}
    (parallel : Parallel CallTable.Agrees act) :
    Parallel (AgreesFrom sp) (Vm.onCalls failed act) := by
  rintro ⟨settings, types, functions, signatures, image, collector, stack, calls, output, main,
    loaded⟩ _ ⟨stack', calls', slots, below, entries, rfl⟩
  have both := parallel entries
  unfold Vm.onCalls holding
  dsimp only at both ⊢
  generalize act calls = here, act calls' = there at both
  cases both with
  | ok related => exact .ok ⟨_, _, slots, below, related, rfl⟩
  | error related => exact .error ⟨_, _, slots, below, related, rfl⟩

theorem fetch (address : UInt64) : Parallel (AgreesFrom sp) (Vm.fetch address) := by
  rintro vm _ ⟨stack, calls, slots, below, entries, rfl⟩
  unfold Vm.fetch holding
  dsimp only
  cases vm.image.store.fetch address Op.maxLength with
  | ok bytes => exact .ok ⟨_, _, slots, below, entries, rfl⟩
  | error e => exact .error ⟨_, _, slots, below, entries, rfl⟩

theorem writeHeap (address : UInt64) (width : Width) (value : UInt64) :
    Parallel (AgreesFrom sp) (Vm.writeHeap address width value) := by
  rintro vm _ ⟨stack, calls, slots, below, entries, rfl⟩
  unfold Vm.writeHeap holding
  dsimp only
  split
  · exact .ok ⟨_, _, slots, below, entries, rfl⟩
  · exact .error ⟨_, _, slots, below, entries, rfl⟩

theorem newObject (raw : UInt32) : Parallel (AgreesFrom sp) (Vm.newObject raw) :=
  (parallel_ofExcept _).bind fun _ => onCollector _ _

theorem newArray (raw : UInt32) (length : Int32) :
    Parallel (AgreesFrom sp) (Vm.newArray raw length) := by
  refine (parallel_ofExcept _).bind fun type => ?_
  split
  · refine parallel_get_bind ?_
    rintro vm _ ⟨stack, calls, slots, below, entries, rfl⟩
    exact .error ⟨_, _, slots, below, entries, rfl⟩
  · exact onCollector _ _

theorem callNative (routine : Native) (arguments : List UInt64) :
    Parallel (AgreesFrom sp) (Vm.callNative routine arguments) := by
  rintro vm _ ⟨stack, calls, slots, below, entries, rfl⟩
  unfold Vm.callNative holding
  cases printed? routine arguments with
  | some line => exact .ok ⟨_, _, slots, below, entries, rfl⟩
  | none => exact .error ⟨_, _, slots, below, entries, rfl⟩

variable {instruction : UInt32}

/-- Walks that find the same frames print the same. -/
theorem printCallStack (agrees : AgreesFrom sp vm vm')
    (walked : Stack.frames vm'.stack vm'.calls vm'.functions (siteAt base function instruction) = Stack.frames vm.stack vm.calls vm.functions (siteAt base function instruction)) :
    Both (AgreesFrom sp) (Vm.printCallStack base function instruction vm)
      (Vm.printCallStack base function instruction vm') := by
  unfold Vm.printCallStack
  rw [walked]
  obtain ⟨stack, calls, slots, below, entries, rfl⟩ := agrees
  cases Stack.frames vm.stack vm.calls vm.functions (siteAt base function instruction) with
  | ok frames => exact .ok ⟨_, _, slots, below, entries, rfl⟩
  | error e => exact .error ⟨_, _, slots, below, entries, rfl⟩

/-- Walks that see the same slots lead to the same collection. -/
theorem collect (agrees : AgreesFrom sp vm vm')
    (walked : Stack.visit vm'.stack vm'.calls vm'.functions (siteAt base function instruction) = Stack.visit vm.stack vm.calls vm.functions (siteAt base function instruction)) :
    Both (AgreesFrom sp) (Vm.collect base function instruction vm)
      (Vm.collect base function instruction vm') := by
  unfold Vm.collect
  rw [get_bind, get_bind]
  dsimp only
  rw [walked]
  have settings : vm'.settings = vm.settings := by
    obtain ⟨stack, calls, slots, below, entries, rfl⟩ := agrees
    rfl
  rw [settings]
  have freed (v : Stack.Visit) : Parallel (AgreesFrom sp) (do
      discard (MonadExcept.ofExcept (v.outcome.mapError Stop.walk))
      Vm.onCollector .gc fun types => discard (Collector.collect types (rootsOf types v))) :=
    ((parallel_ofExcept _).map _).bind fun _ => onCollector _ _
  split
  · exact (onCollector _ _).bind (fun _ => freed _) agrees
  · exact freed _ agrees

end AgreesFrom

end Vm

/-! ## Actions at the top of the stack -/

namespace Machine

variable {m m' : Machine Vm} {value : UInt64}

/-- Machines with the same registers whose hosts agree on the words in use. -/
abbrev Agrees : Machine Vm → Machine Vm → Prop := Related Vm.AgreesFrom

theorem readSlot_eq_ok {address : UInt64} (read : readSlot address m = .ok value m') :
    m' = m ∧ m.host.stack.contains address 8 = true := by
  cases word : m.host.stack.read64? address with
  | none =>
    have answer : Vm.readSlot m.host address
        = .error (.fault address "stack read outside the native stack") := by
      unfold Vm.readSlot
      rw [word]
    cases read.symm.trans (look_error answer)
  | some w =>
    have answer : Vm.readSlot m.host address = .ok w := by
      unfold Vm.readSlot
      rw [word]
    cases read.symm.trans (look_eq answer)
    rw [← Region.readWord?_isSome_iff]
    exact ⟨rfl, Option.isSome_iff_exists.mpr ⟨value, word⟩⟩

/-- What a push does to a virtual machine. -/
theorem push_eq (value : UInt64) (m : Machine Vm) :
    push value m =
      if m.registers.sp - 8 < m.host.stack.base ∨ m.registers.sp < m.registers.sp - 8 then
        trap (.stackExhausted (m.registers.sp - 8)) m
      else if m.host.stack.contains (m.registers.sp - 8) 8 then
        .ok () ⟨{ m.registers with sp := m.registers.sp - 8 }, m.current,
          { m.host with stack := m.host.stack.writeWord (m.registers.sp - 8) 8 value }⟩
      else .error (.fault (m.registers.sp - 8) "stack write outside the native stack") m := by
  have written : writeSlot (m.registers.sp - 8) value m
      = ask (Vm.writeSlot (m.registers.sp - 8) value) m := rfl
  unfold push
  dsimp only
  rw [show Stack.slotSize = 8 from rfl]
  refine if_congr Iff.rfl rfl ?_
  by_cases inside : m.host.stack.contains (m.registers.sp - 8) 8 = true
  · have answer : Vm.writeSlot (m.registers.sp - 8) value m.host
        = .ok () { m.host with stack := m.host.stack.writeWord (m.registers.sp - 8) 8 value } := by
      unfold Vm.writeSlot
      rw [if_pos inside]
    rw [if_pos inside, bind_of_ok (written.trans (ask_eq answer))]
    rfl
  · have answer : Vm.writeSlot (m.registers.sp - 8) value m.host
        = .error (.fault (m.registers.sp - 8) "stack write outside the native stack") m.host := by
      unfold Vm.writeSlot
      rw [if_neg inside]
    rw [if_neg inside, bind_of_error (written.trans (ask_error answer))]

/-- A push that gets through keeps the base and lowers the top. -/
theorem push_eq_ok (pushed : push value m = .ok () m') :
    m'.registers.bp = m.registers.bp ∧ m'.registers.sp.toNat ≤ m.registers.sp.toNat := by
  rw [push_eq] at pushed
  split at pushed
  · cases pushed
  · rename_i free
    split at pushed
    · cases pushed
      exact ⟨rfl, UInt64.le_iff_toNat_le.mp (UInt64.not_lt.mp fun low => free (.inr low))⟩
    · cases pushed

theorem pop_eq_ok (popped : pop m = .ok value m') : m'.registers.sp = m.registers.sp + 8 := by
  unfold pop at popped
  dsimp only at popped
  split at popped
  · cases popped
  · obtain ⟨_, m₁, read, moved⟩ := bind_eq_ok_iff.mp popped
    obtain ⟨rfl, _⟩ := readSlot_eq_ok read
    cases moved
    rfl

variable {depth : UInt16}

namespace Agrees

variable {m n : Machine Vm}

/-- Less of the stack may be in use afterwards. -/
theorem raise {change : Registers → Registers} (agrees : Agrees m n)
    (higher : m.registers.sp.toNat ≤ (change m.registers).sp.toNat) :
    Both Agrees (setRegisters change m) (setRegisters change n) :=
  agrees.setRegisters (agrees.host.raise higher)

theorem readSlot {address : UInt64} (agrees : Agrees m n)
    (inside : m.registers.sp.toNat ≤ address.toNat) :
    Both Agrees (Machine.readSlot address m) (Machine.readSlot address n) :=
  agrees.look (agrees.host.readSlot inside)

/-- The word that a push writes is the one that the stack has to agree on from then on. -/
theorem push (value : UInt64) : Parallel Agrees (Machine.push value : Action Vm Unit) := by
  rintro m ⟨registers, current, host⟩ ⟨rfl, rfl, stack, calls, slots, below, entries, rfl⟩
  have agrees : Agrees m ⟨m.registers, m.current, m.host.holding stack calls⟩ :=
    ⟨rfl, rfl, stack, calls, slots, below, entries, rfl⟩
  rw [push_eq, push_eq]
  unfold Vm.holding at agrees ⊢
  dsimp only
  rw [slots.base, slots.contains]
  split
  · exact parallel_trap _ agrees
  · rename_i free
    split
    · rename_i inside
      refine .ok ⟨rfl, rfl, _, _, (slots.writeWord inside value).mono fun a low => ?_, ?_, entries,
        rfl⟩
      · -- The check for room rules out that the stack pointer wraps around.
        have low : (m.registers.sp - 8).toNat ≤ a := low
        have high : (m.registers.sp - 8).toNat ≤ m.registers.sp.toNat :=
          UInt64.le_iff_toNat_le.mp (UInt64.not_lt.mp fun low => free (.inr low))
        have place : (m.registers.sp - 8).toNat
            = (2 ^ 64 - 8 + m.registers.sp.toNat) % 2 ^ 64 := UInt64.toNat_sub ..
        have small := m.registers.sp.toNat_lt
        by_cases above : m.registers.sp.toNat ≤ a
        · exact .inl above
        · exact .inr ⟨low, by omega⟩
      · simpa using below
    · exact .error agrees

theorem pop : Parallel Agrees (Machine.pop : Action Vm UInt64) := by
  intro m n agrees
  obtain ⟨stack, calls, slots, below, entries, host⟩ := agrees.host
  have top : Host.stackTop n.host = Host.stackTop m.host := by
    rw [host]
    show stack.stop = m.host.stack.stop
    unfold Region.stop
    rw [slots.base, slots.size]
  unfold Machine.pop
  rw [agrees.registers, top]
  dsimp only
  by_cases empty : Host.stackTop m.host ≤ m.registers.sp
  · rw [if_pos empty, if_pos empty]
    exact parallel_fault _ agrees
  · rw [if_neg empty, if_neg empty]
    refine (agrees.readSlot (Nat.le_refl _)).bind fun value m' n' read _ agrees' => ?_
    obtain ⟨rfl, inside⟩ := readSlot_eq_ok read
    refine (agrees'.raise ?_).bind fun _ _ _ _ _ later => .ok later
    have inside := Region.contains_iff.mp inside
    show m'.registers.sp.toNat ≤ (m'.registers.sp + 8).toNat
    rw [UInt64.toNat_add, show UInt64.toNat 8 = 8 from rfl]
    omega

/-- What lies in use above the top of the stack. -/
theorem peek (agrees : Agrees m n) (low : m.registers.sp.toNat < 2 ^ 63) :
    Both Agrees (Machine.peek depth m) (Machine.peek depth n) := by
  refine (parallel_registersOf agrees).bind fun r m' n' here _ agrees' => ?_
  cases here
  refine readSlot agrees' ?_
  have few := depth.toNat_lt
  rw [UInt64.toNat_add, UInt64.toNat_mul, UInt16.toNat_toUInt64,
    show Stack.slotSize.toNat = 8 from rfl]
  omega

end Agrees

theorem congruent_agrees : Congruent Agrees where
  registers := Related.registers
  current := Related.current
  begin_ := parallel_begin
  goto _ _ _ agrees := agrees.raise (Nat.le_refl _)
  setResult _ _ _ agrees := agrees.raise (Nat.le_refl _)
  trap := parallel_trap
  fetch address := parallel_ask fun _ => Vm.AgreesFrom.fetch address
  readConstant address m n agrees := by
    obtain ⟨stack, calls, slots, below, entries, host⟩ := agrees.host
    exact agrees.look (by rw [host]; rfl)
  push := Agrees.push
  pop := Agrees.pop
  top m n agrees := by
    refine (parallel_registersOf agrees).bind fun r m' n' here _ agrees' => ?_
    cases here
    refine Agrees.readSlot agrees' (Nat.le_of_eq ?_)
    rw [show UInt16.toUInt64 0 * Stack.slotSize = 0 from rfl, UInt64.add_zero]
  writeSlot address value := parallel_ask fun _ => Vm.AgreesFrom.writeSlot address value
  load address width m n agrees := by
    obtain ⟨stack, calls, slots, below, entries, host⟩ := agrees.host
    exact agrees.look (by rw [host]; rfl)
  store address width value := parallel_ask fun _ => Vm.AgreesFrom.writeHeap address width value
  newObject type := parallel_ask fun _ => Vm.AgreesFrom.newObject type
  newArray type length := parallel_ask fun _ => Vm.AgreesFrom.newArray type length
  callNative routine arguments :=
    parallel_ask fun _ => Vm.AgreesFrom.callNative routine arguments
  pushFrame function instruction :=
    parallel_ask fun _ => Vm.AgreesFrom.onCalls _ (CallTable.parallel_push _)
  popFrame := parallel_ask fun _ => Vm.AgreesFrom.onCalls _ CallTable.parallel_pop

/-! ## Instructions that reach further down -/

theorem le_slotAddress {n : Nat} (low : base.toNat < 2 ^ 63) (near : n < 2 ^ 31) :
    base.toNat ≤ (Stack.slotAddress base (Int32.ofNat n)).toNat := by
  have distance : (Int32.ofNat n).toInt = (n : Int) := Int32.toInt_ofNat_of_lt near
  have words := toNat_toUInt64_toInt64 (Int32.ofNat n)
  rw [distance] at words
  unfold Stack.slotAddress
  rw [UInt64.toNat_add]
  omega

namespace Agrees

variable {m n : Machine Vm}
variable {next : UInt64}

/-- The arguments that the caller pushed lie above the base. -/
theorem copyArguments {arguments : Nat} (few : arguments < 65536) (left : Nat) (agrees : Agrees m n)
    (above : m.registers.sp.toNat ≤ m.registers.bp.toNat)
    (low : m.registers.bp.toNat < 2 ^ 63) :
    Both Agrees (Machine.copyArguments arguments left m)
      (Machine.copyArguments arguments left n) := by
  induction left generalizing m n with
  | zero => exact parallel_pure () agrees
  | succ left ih =>
    refine (parallel_registersOf agrees).bind fun r m₁ n₁ here _ agrees => ?_
    cases here
    have inside : m.registers.sp.toNat ≤ (Stack.slotAddress m.registers.bp
        (Stack.callerArgumentOffset arguments (arguments - (left + 1)))).toNat :=
      Nat.le_trans above (le_slotAddress low (by omega))
    refine (readSlot agrees inside).bind fun value m₂ n₂ read _ agrees' => ?_
    obtain ⟨rfl, _⟩ := readSlot_eq_ok read
    refine (push value agrees').bind fun _ m₃ n₃ pushed _ later => ?_
    obtain ⟨base, lower⟩ := push_eq_ok pushed
    exact ih later (by rw [base]; exact Nat.le_trans lower above) (by rw [base]; exact low)

section

variable (agrees : Agrees m n)

include agrees

theorem enter {arguments locals : UInt16} (low : m.registers.sp.toNat < 2 ^ 63) :
    Both Agrees (execute next (.enter arguments locals) m)
      (execute next (.enter arguments locals) n) := by
  refine (parallel_registersOf agrees).bind fun r m₁ n₁ here _ agrees => ?_
  cases here
  refine (push _ agrees).bind fun _ m₂ n₂ pushed _ agrees => ?_
  have lower := (push_eq_ok pushed).2
  refine (agrees.raise (Nat.le_refl _)).bind fun _ m₃ n₃ moved _ agrees => ?_
  cases moved
  have copied := agrees.copyArguments arguments.toNat_lt arguments.toNat (Nat.le_refl _)
    (Nat.lt_of_le_of_lt lower low)
  exact copied.bind fun _ _ _ _ _ agrees => congruent_agrees.pushZeros _ agrees

theorem leave (above : m.registers.sp.toNat ≤ m.registers.bp.toNat) :
    Both Agrees (execute next .leave m) (execute next .leave n) := by
  refine (agrees.raise above).bind fun _ m₁ n₁ _ _ agrees => ?_
  refine (pop agrees).bind fun saved m₂ n₂ _ _ agrees => ?_
  exact agrees.raise (Nat.le_refl _)

theorem ret {slots : UInt16} (low : m.registers.sp.toNat < 2 ^ 63) :
    Both Agrees (execute next (.ret slots) m) (execute next (.ret slots) n) := by
  refine (pop agrees).bind fun address m₁ n₁ popped _ agrees => ?_
  refine agrees.raise ?_
  have few := slots.toNat_lt
  have next : m₁.registers.sp.toNat = m.registers.sp.toNat + 8 := by
    rw [pop_eq_ok popped, UInt64.toNat_add, show UInt64.toNat 8 = 8 from rfl]
    omega
  show m₁.registers.sp.toNat ≤ (m₁.registers.sp + slots.toUInt64 * 8).toNat
  rw [UInt64.toNat_add, UInt64.toNat_mul, UInt16.toNat_toUInt64, show UInt64.toNat 8 = 8 from rfl]
  omega

theorem nullCheck (low : m.registers.sp.toNat < 2 ^ 63) :
    Both Agrees (execute next (.nullCheck depth) m) (execute next (.nullCheck depth) n) :=
  (agrees.peek low).bind fun _ _ _ _ _ agrees =>
    Parallel.ite (parallel_trap _) (parallel_pure _) agrees

theorem loadSlot {distance : Int32}
    (inside : m.registers.sp.toNat ≤ (Stack.slotAddress m.registers.bp distance).toNat) :
    Both Agrees (execute next (.loadSlot distance) m) (execute next (.loadSlot distance) n) := by
  refine (parallel_registersOf agrees).bind fun r m₁ n₁ here _ agrees => ?_
  cases here
  exact (readSlot agrees inside).bind fun value _ _ _ _ agrees => push value agrees

/-- A request that carries the base of the innermost frame. -/
theorem askFrom (request : UInt64 → EStateM Stop Vm Unit)
    (both : Both (Vm.AgreesFrom m.registers.sp) (request m.registers.bp m.host)
      (request m.registers.bp n.host)) :
    Both Agrees ((do Machine.ask (request (← Machine.registersOf).bp) : Action Vm Unit) m)
      ((do Machine.ask (request (← Machine.registersOf).bp) : Action Vm Unit) n) := by
  refine (parallel_registersOf agrees).bind fun r m₁ n₁ here there later => ?_
  cases here
  obtain ⟨_, rfl⟩ := EStateM.Result.ok.inj there
  exact later.ask both

end

end Agrees

end Machine

end ManagedCode
