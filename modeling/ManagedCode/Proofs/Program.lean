import ManagedCode.Proofs.Loaded
import ManagedCode.Vm.Run

/-!
# What the machine finds at an address

A program that is loaded does not change while it runs. Every reachable instruction of a function
has an address; from there on stand the machine instructions that it was lowered to, with branches
that lead to the addresses of their targets and calls that lead to entries.

* `Program.Runnable`: what a loaded program promises, given where its pages lie. `Program.Ready`: the
  bodies are also short enough for the table of calls.
* `Program.Resolves`: the instruction that stands for a piece.
* `Program.Lies`: pieces that stand one after the other.
* `Program.Runnable.instruction`: what stands at the address of a reachable instruction.
* `step_of_opAt`: the machine executes what stands at its instruction pointer.
-/

namespace ManagedCode

open Bytecode TypeSystem
open Compile
open Machine (displace Stop ask execute haltAddress look step)
open Memory (CodeStore PagePool)
open Target (Op)

/-! ## Distances -/

section Distances

theorem toNat_toUInt64_toInt64 (d : Int32) :
    (d.toInt64.toUInt64.toNat : Int) = d.toInt % 18446744073709551616 := by
  have bits : (d.toInt64.toUInt64.toNat : Int) = (d.toInt64.toBitVec.toNat : Int) := rfl
  have value : d.toInt = (d.toInt64.toBitVec.toNat : Int).bmod 18446744073709551616 := by
    rw [← BitVec.toInt_eq_toNat_bmod]
    exact (Int32.toInt_toInt64 d).symm
  have small := d.toInt64.toBitVec.isLt
  rw [bits, value, show (18446744073709551616 : Int) = ((18446744073709551616 : Nat) : Int) from rfl,
    Int.bmod_emod]
  omega

/-- A distance leads from one offset to the other. -/
theorem displace_eq {entry : UInt64} {d : Int32} {start stop : Nat}
    (far : d.toInt = (stop : Int) - start) :
    displace (entry + UInt64.ofNat start) d = entry + UInt64.ofNat stop := by
  apply UInt64.toNat_inj.mp
  have words := toNat_toUInt64_toInt64 d
  unfold displace
  rw [UInt64.toNat_add, UInt64.toNat_add, UInt64.toNat_add, UInt64.toNat_ofNat',
    UInt64.toNat_ofNat']
  rw [far] at words
  omega

theorem toInt_of_distance? {d : Int} {near : Int32} (found : distance? d = some near) :
    near.toInt = d := by
  unfold distance? at found
  split at found
  · rename_i fits
    cases found
    exact Int32.toInt_ofInt_of_le (by omega) (by omega)
  · cases found

end Distances

/-! ## Programs -/

/-- What stays the same while a program runs. -/
structure Program where
  types : TypeTable
  functions : FunctionTable
  image : Image

def Vm.program (vm : Vm) : Program := ⟨vm.types, vm.functions, vm.image⟩

variable {op : Op}

namespace Program

def OpAt (p : Program) (address : UInt64) (op : Op) : Prop :=
  p.image.store.code.Holds address op.encode

def op? (p : Program) (address : UInt64) : Option Op :=
  match p.image.store.fetch address Op.maxLength with
  | .ok bytes => (Target.decode bytes).toOption.map (·.1)
  | .error _ => none

def source (p : Program) (id : FunctionId) (f : Function) : Source :=
  sourceOf p.types p.functions id f

/-- What a loaded program promises. The pages of its code lie apart, as the memory they come from
has it, and neither at the halt address nor where the runtime's own routines are called. -/
structure Runnable (p : Program) : Prop where
  types : p.types.WellFormed
  tidy : p.functions.Tidy
  linked : Linked p.types p.functions p.image
  checked : ∀ id f, p.functions.get? id = some f → f.HasBody → CheckedIn p.types p.functions f
  apart : p.image.store.Apart
  notHalt : p.image.store.isCode haltAddress = false
  notNative : ∀ routine : Native, p.image.store.isCode routine.address = false

/-- A program whose bodies are short enough for the positions in the table of calls. -/
structure Ready (p : Program) : Prop extends p.Runnable where
  short : ∀ id f, p.functions.get? id = some f → f.code.size < 2 ^ 31

instance (p : Program) : Coe p.Ready p.Runnable := ⟨Ready.toRunnable⟩

/-- The instruction that stands for a piece at an offset in the code of a function. -/
inductive Resolves (p : Program) (c : CompiledFunction) (placed : Placed) : Op → Prop where
  | done (fixup : placed.piece.fixup = .none) : Resolves p c placed placed.piece.op
  | branch {target offset : Nat} {d : Int32} (fixup : placed.piece.fixup = .branch target)
      (there : c.offsets[target]? = some offset)
      (leads : displace (c.address placed.next) d = c.address offset) :
      Resolves p c placed (withDistance placed.piece.op d)
  | self {d : Int32} (fixup : placed.piece.fixup = .call c.function .relative)
      (leads : displace (c.address placed.next) d = c.entry) :
      Resolves p c placed (.callRelative d)
  | call {callee : FunctionId} {address : UInt64}
      (fixup : placed.piece.fixup = .call callee .absolute)
      (there : p.image.cache.target? p.functions callee = some address) :
      Resolves p c placed (.callAbsolute address)

/-- Pieces stand one after the other from an offset on. -/
def Lies (p : Program) (c : CompiledFunction) : Nat → List Piece → Prop
  | _, [] => True
  | offset, piece :: rest =>
    (∃ op, p.Resolves c ⟨offset, piece⟩ op ∧ p.OpAt (c.address offset) op) ∧
      p.Lies c (offset + piece.op.length) rest

variable {groups : List (List Piece)} {offset : Nat}

section Lies

variable {p : Program} {c : CompiledFunction}

theorem resolves_of_filled {s : Source} {store : CodeStore} (laid : Laid s store c groups)
    {placed : Placed} (mem : placed ∈ placedOf s groups)
    (filled : Filled c.offsets s.id (p.image.cache.target? p.functions) placed op) :
    p.Resolves c placed op := by
  have form := laid.wellFormed placed mem
  cases filled with
  | call fixup there => exact .call fixup there
  | settled settled closed =>
    cases settled with
    | branch fixup there near =>
      exact .branch fixup there (displace_eq (toInt_of_distance? near))
    | self fixup near =>
      rw [Piece.WellFormed, fixup] at form
      rw [form.2]
      refine .self (by rw [laid.function]; exact fixup) ?_
      have back : (Int32.ofInt (-placed.next)).toInt = ((0 : Nat) : Int) - placed.next := by
        rw [Int32.toInt_ofInt_of_le (by omega) (by omega)]
        omega
      rw [CompiledFunction.address, displace_eq back]
      exact UInt64.add_zero _
    | kept noBranch notSelf => exact .done (form.fixup_eq_none noBranch notSelf closed)

theorem lies_of_row {pieces : List Piece}
    (each : ∀ placed ∈ Placed.row offset pieces, ∃ op, p.Resolves c placed op ∧ p.OpAt (c.address placed.offset) op) :
    p.Lies c offset pieces := by
  induction pieces generalizing offset with
  | nil => trivial
  | cons piece rest ih =>
    exact ⟨each _ List.mem_cons_self, ih fun placed mem =>
      each placed (List.mem_cons_of_mem _ mem)⟩

theorem Lies.append {front back : List Piece} (lies : p.Lies c offset (front ++ back)) :
    p.Lies c offset front ∧ p.Lies c (offset + codeLength front) back := by
  induction front generalizing offset with
  | nil => exact ⟨trivial, lies⟩
  | cons piece rest ih =>
    obtain ⟨first, later⟩ := lies
    obtain ⟨front, back⟩ := ih later
    rw [codeLength_cons, ← Nat.add_assoc]
    exact ⟨⟨first, front⟩, back⟩

end Lies

/-! ## Compiled functions -/

/-- What stands at the address of an instruction: the pieces that it was lowered to, with the
constant that it loads readable, and behind them the next instruction. -/
structure At (p : Program) (id : FunctionId) (f : Function) (c : CompiledFunction) (i : Nat)
    (instr : Instr) (offset : Nat) (constant : UInt64) (pieces : List Piece) : Prop where
  placed : c.offsets[i]? = some offset
  lowered : (p.source id f).lower i constant instr = .ok pieces
  readable : ∀ value, instr = .loadFloat value → p.image.store.readConstant constant = .ok value
  lies : p.Lies c offset pieces
  next : i + 1 < f.code.size → c.offsets[i + 1]? = some (offset + codeLength pieces)
  behind : 5 ≤ offset
  inside : offset + codeLength pieces ≤ c.size
  earlier : ∀ (j k : Nat), j ≤ i → c.offsets[j]? = some k → k ≤ offset
  later : ∀ (j k : Nat), i < j → c.offsets[j]? = some k → offset + codeLength pieces ≤ k

structure Code (p : Program) (id : FunctionId) (f : Function) (c : CompiledFunction) : Prop where
  found : p.functions.get? id = some f
  body : f.HasBody
  cached : p.image.cache.get? id = some c
  function : c.function = id
  arguments : f.argumentCount < 65536
  locals : f.locals.length < 65536
  enter : p.OpAt c.entry (.enter (UInt16.ofNat f.argumentCount) (UInt16.ofNat f.locals.length))
  first : c.offsets[0]? = some 5
  at_ : ∀ i instr, f.code[i]? = some instr → f.isReachable i = true →
    ∃ offset constant pieces, p.At id f c i instr offset constant pieces
  isCode : ∀ offset, offset < c.size → p.image.store.isCode (c.address offset) = true
  below : c.entry.toNat + c.size < 2 ^ 64
  positive : 5 ≤ c.size

variable {address : UInt64}

theorem isCode_of_taken {pool : PagePool} (apart : pool.Apart) (sound : pool.Sound) {size : Nat}
    (taken : pool.Taken address size) (inside : offset < size) :
    (pool.page? (address + UInt64.ofNat offset)).isSome = true := by
  obtain ⟨_, there⟩ := PagePool.Taken.append (m := offset) (n := size - offset) apart sound
    (by rwa [Nat.add_sub_cancel' (Nat.le_of_lt inside)])
  obtain ⟨k, page, place, at_, here, high⟩ := there
  have bound := sound _ _ at_
  have inside : page.contains (address + UInt64.ofNat offset) = true :=
    PagePool.contains_iff.mpr (by omega)
  have found := apart.page? at_ inside
  rw [found]
  rfl

namespace Runnable

variable {p : Program}

section

variable (ready : p.Runnable)

include ready

variable {id : FunctionId} {f : Function}

theorem at_of_laid {c : CompiledFunction} (laid : Laid (p.source id f) p.image.store c groups)
    (inPlace : InPlace (p.source id f) c groups p.image.store.code (p.image.cache.target? p.functions))
    {i : Nat} {instr : Instr} (code : f.code[i]? = some instr) (reachable : f.isReachable i = true) :
    ∃ offset constant pieces, p.At id f c i instr offset constant pieces := by
  obtain ⟨group, here, lowered⟩ := laid.lowered i instr code
  have reachable : (p.source id f).function.isReachable i = true := reachable
  rw [Source.Lowered, if_pos reachable] at lowered
  obtain ⟨constant, lowered, known⟩ := lowered
  have bound := (List.getElem?_eq_some_iff.mp here).1
  have count : groups.length = f.code.size := laid.count
  have offsets := length_offsetsFrom (p.source id f).prologue.length groups
  have place : ∃ offset, (offsetsFrom (p.source id f).prologue.length groups)[i]? = some offset :=
    ⟨_, List.getElem?_eq_getElem (by omega)⟩
  obtain ⟨offset, place⟩ := place
  have next := offsetsFrom_succ here place
  have toArray : ∀ k : Nat, c.offsets[k]?
      = (offsetsFrom (p.source id f).prologue.length groups)[k]? := by
    intro k
    rw [laid.offsets, List.getElem?_toArray]
  refine ⟨offset, constant, group, ?_, lowered, ?_, ?_, ?_, (offsetsFrom_inside here place).1, ?_,
    fun j k before at_ => ?_, fun j k after at_ => ?_⟩
  · rw [toArray]
    exact place
  · exact fun value same => CodeStore.readConstant_of_constant ready.apart.constants
      (known value same)
  · refine lies_of_row fun placed mem => ?_
    have mem := mem_row_flatten here place mem
    obtain ⟨op, filled, stored⟩ := inPlace.pieces placed mem
    exact ⟨op, resolves_of_filled laid mem filled, stored.holds⟩
  · intro follows
    rw [toArray]
    rwa [List.getElem?_append_left (by omega)] at next
  · rw [laid.size]
    exact (offsetsFrom_inside here place).2
  · rw [toArray] at at_
    rcases Nat.eq_or_lt_of_le before with rfl | before
    · cases place.symm.trans at_
      exact Nat.le_refl _
    · exact Nat.le_trans (Nat.le_add_right _ _) (offsetsFrom_mono before
        (List.getElem?_eq_getElem (by omega)) at_ place)
  · rw [toArray] at at_
    exact offsetsFrom_mono after here place at_

theorem op?_eq_some (here : p.OpAt address op) : p.op? address = some op := by
  obtain ⟨rest, fetched⟩ :=
    CodeStore.fetch_of_holds ready.linked.executable ready.apart.code here
  unfold op?
  rw [fetched]
  dsimp only
  rw [Target.decode_encode_append]
  rfl

/-- Nothing stands at the halt address. -/
theorem op?_halt : p.op? haltAddress = none := by
  have none : p.image.store.code.page? haltAddress = Option.none :=
    Option.isNone_iff_eq_none.mp (Option.isSome_eq_false_iff.mp ready.notHalt)
  have closed : p.image.store.executable = true := ready.linked.executable
  unfold op? CodeStore.fetch CodeStore.codePage
  rw [none, if_pos closed]
  rfl

theorem code (found : p.functions.get? id = some f) (body : f.HasBody) : ∃ c, p.Code id f c := by
  obtain ⟨c, groups, cached, laid, inPlace⟩ := ready.linked.code id f found body.1 body.2
  have sound := ready.linked.sound.code
  have size : c.size = 5 + codeLength groups.flatten := laid.size
  refine ⟨c, found, body, cached, laid.function, laid.arguments, laid.locals, inPlace.prologue.holds,
    ?_, fun i instr code reachable => at_of_laid ready laid inPlace code reachable, ?_,
    inPlace.taken.below ready.apart.code sound, by omega⟩
  · have count : groups.length = f.code.size := laid.count
    have entry := (ready.checked id f found body).body
    have positive := (Array.getElem?_eq_some_iff.mp entry.entry).1
    rw [entry.size] at positive
    have positive : 0 < f.code.size := positive
    rw [laid.offsets, List.getElem?_toArray]
    cases groups with
    | nil =>
      rw [List.length_nil] at count
      omega
    | cons group rest => rfl
  · exact fun offset inside => isCode_of_taken ready.apart.code sound inPlace.taken inside

end

end Runnable

end Program

/-! ## Executing what stands at an address -/

section Step

open Machine (Action)

variable {m : Machine Vm}

variable {α : Type} {request : EStateM Stop Vm α} {host : Vm} {view : Vm → Except Stop α}

variable {a : α} {e : Stop}

theorem ask_eq (answer : request m.host = .ok a host) :
    ask request m = .ok a ⟨m.registers, m.current, host⟩ := by
  unfold ask
  dsimp only
  rw [answer]

theorem ask_error (answer : request m.host = .error e host) :
    ask request m = .error e ⟨m.registers, m.current, host⟩ := by
  unfold ask
  dsimp only
  rw [answer]

theorem ask_congr {request' : EStateM Stop Vm α} (same : request m.host = request' host) :
    ask request m = ask request' ⟨m.registers, m.current, host⟩ := by
  unfold ask
  dsimp only
  rw [same]

theorem look_eq (answer : view m.host = .ok a) : look view m = .ok a m := by
  unfold look
  rw [answer]

theorem look_error (answer : view m.host = .error e) : look view m = .error e m := by
  unfold look
  rw [answer]

/-- The machine executes what is decoded at its instruction pointer, which then is behind it. -/
theorem step_of_op? (here : m.host.program.op? m.registers.ip = some op) :
    step m = execute (m.registers.ip + UInt64.ofNat op.length) op
      ⟨{ m.registers with ip := m.registers.ip + UInt64.ofNat op.length }, m.registers.ip,
        m.host⟩ := by
  unfold Program.op? at here
  cases fetched : m.host.program.image.store.fetch m.registers.ip Op.maxLength with
  | error e =>
    rw [fetched] at here
    cases here
  | ok bytes =>
    rw [fetched] at here
    obtain ⟨⟨op', rest⟩, decoded, same⟩ := Option.map_eq_some_iff.mp here
    cases same
    have decoded : Target.decode bytes = .ok (op', rest) := by
      cases result : Target.decode bytes with
      | error e =>
        rw [result] at decoded
        cases decoded
      | ok found =>
        rw [result] at decoded
        cases decoded
        rfl
    have fetched : Vm.fetch m.registers.ip m.host = .ok bytes m.host := by
      unfold Vm.fetch
      rw [show m.host.image.store.fetch m.registers.ip Op.maxLength = .ok bytes from fetched]
    have begun : Machine.begin m = .ok m.registers.ip ⟨m.registers, m.registers.ip, m.host⟩ := rfl
    have asked : ask (Machine.Host.fetch m.registers.ip)
        ⟨m.registers, m.registers.ip, m.host⟩ = .ok bytes ⟨m.registers, m.registers.ip, m.host⟩ :=
      ask_eq (m := ⟨m.registers, m.registers.ip, m.host⟩) fetched
    unfold step
    rw [bind_of_ok begun, bind_of_ok asked, decoded]
    rfl

/-- The machine executes what stands at its instruction pointer. -/
theorem step_of_opAt (ready : m.host.program.Runnable)
    (here : m.host.program.OpAt m.registers.ip op) :
    step m = execute (m.registers.ip + UInt64.ofNat op.length) op
      ⟨{ m.registers with ip := m.registers.ip + UInt64.ofNat op.length }, m.registers.ip,
        m.host⟩ :=
  step_of_op? (ready.op?_eq_some here)

end Step

end ManagedCode
