import ManagedCode.Proofs.Effects
import ManagedCode.Proofs.Machine.Frames

/-!
# Addresses of instructions

An address belongs to the code of at most one function. Inside a function, reachable instructions
share an address only if nothing but empty ones stand between them, and these leave the operand
types as they are.

* `Program.Interior`: the addresses at which no reachable instruction starts.
* `Runnable.function_of_address`, `Runnable.operandTypes_of_address`: what an address determines.
* `Runnable.interior`, `Runnable.interior_entry`: addresses behind the start of an instruction.
-/

namespace ManagedCode

open Bytecode TypeSystem
open Compile (CompiledFunction Piece Source codeLength codeLength_cons)
open Memory (CodeStore PagePool)

/-! ## Lengths of code -/

section Lengths

variable {s : Source} {index : Nat} {constant : UInt64} {i : Instr} {pieces : List Piece}

theorem codeLength_pos (some : pieces ≠ []) : 0 < codeLength pieces := by
  cases pieces with
  | nil => exact absurd rfl some
  | cons piece rest =>
    rw [codeLength_cons]
    exact Nat.add_pos_left (CodeStore.length_pos piece.op) _

theorem lowerCall_ne_nil {callee : FunctionId} {onObject : Bool}
    (lowered : s.lowerCall index callee onObject = .ok pieces) : pieces ≠ [] := by
  unfold Source.lowerCall at lowered
  split at lowered
  · cases lowered
  · split at lowered
    · cases lowered
      exact List.cons_ne_nil _ _
    · cases lowered
      exact List.cons_ne_nil _ _
    · cases lowered
      exact List.cons_ne_nil _ _
    · obtain ⟨_, rfl⟩ := Source.lowerManaged_eq_ok lowered
      intro empty
      cases (List.append_eq_nil_iff.mp empty).2

/-- Only the empty instruction has no code. -/
theorem lower_ne_nil (lowered : s.lower index constant i = .ok pieces) (some : i ≠ .nop) :
    pieces ≠ [] := by
  cases i with
  | nop => exact absurd rfl some
  | call callee | callInstance callee => exact lowerCall_ne_nil lowered
  | ret =>
    cases lowered
    intro empty
    cases (List.append_eq_nil_iff.mp empty).2
  | loadElement type | storeElement type | loadField r | storeField r =>
    obtain ⟨width, _, same⟩ := except_bind_eq_ok_iff.mp lowered
    cases same
    exact List.cons_ne_nil _ _
  | _ =>
    cases lowered
    exact List.cons_ne_nil _ _

end Lengths

namespace Program

/-- No reachable instruction starts at the address. -/
def Interior (p : Program) (address : UInt64) : Prop :=
  ∀ id f i, p.functions.get? id = some f → f.isReachable i = true →
    p.addressOf? id i ≠ some address

variable {instr : Instr} {constant : UInt64} {pieces : List Piece}

section Code

variable {p : Program} {id : FunctionId} {f : Function} {c : CompiledFunction} {i : Nat}

theorem Code.addressOf? (code : p.Code id f c) (i : Nat) :
    p.addressOf? id i = (c.offsets[i]?).map c.address := by
  unfold Program.addressOf?
  rw [code.cached]
  rfl

variable {offset : Nat}

theorem Code.toNat_address (code : p.Code id f c) (inside : offset ≤ c.size) :
    (c.address offset).toNat = c.entry.toNat + offset := by
  have below := code.below
  unfold CompiledFunction.address
  rw [UInt64.toNat_add, UInt64.toNat_ofNat']
  omega

theorem Code.address_inj (code : p.Code id f c) {offset' : Nat} (inside : offset ≤ c.size)
    (inside' : offset' ≤ c.size) (same : c.address offset = c.address offset') :
    offset = offset' := by
  have same := congrArg UInt64.toNat same
  rw [code.toNat_address inside, code.toNat_address inside'] at same
  omega

section

variable (code : p.Code id f c) (at_ : p.At id f c i instr offset constant pieces)

include code at_

theorem At.address_next (follows : i + 1 < f.code.size) :
    p.addressOf? id (i + 1) = some (c.address (offset + codeLength pieces)) := by
  rw [code.addressOf?, at_.next follows]
  rfl

theorem At.address : p.addressOf? id i = some (c.address offset) := by
  rw [code.addressOf?, at_.placed]
  rfl

end

end Code

namespace Runnable

variable {p : Program} {id id' : FunctionId} {f f' : Function} {c c' : CompiledFunction}
  {i j offset offset' : Nat}

section Ready

variable (ready : p.Runnable)

include ready

section

variable (code : p.Code id f c) (reachable : f.isReachable i = true)

include code reachable

/-- What the snapshots say about a reachable instruction of a function with a body. -/
theorem flows : ∃ instr after, Typing.Flows ⟨p.types, p.functions, f⟩ i instr after :=
  Typing.flows_of_checked (ready.checked id f code.found code.body).body reachable

/-- The code of a reachable instruction lies before the end of the function. -/
theorem offset_lt (placed : c.offsets[i]? = some offset) : offset < c.size := by
  -- Control never leaves the body, so that some instruction with code follows the empty ones.
  induction rest : f.code.size - i using Nat.strongRecOn generalizing i with
  | _ rest ih =>
    obtain ⟨instr, after, flow⟩ := ready.flows code reachable
    obtain ⟨k, constant, pieces, at_⟩ := code.at_ i instr flow.code reachable
    cases at_.placed.symm.trans placed
    have inside := at_.inside
    by_cases empty : instr = .nop
    · subst empty
      obtain ⟨follows, reachable', _⟩ := flow.next rfl
      have follows : i + 1 < f.code.size := follows
      have next := at_.next follows
      have length : pieces = [] := by
        have lowered := at_.lowered
        cases lowered
        rfl
      rw [length] at next
      exact ih _ (by omega) reachable' next rfl
    · have positive := codeLength_pos (lower_ne_nil at_.lowered empty)
      omega

end

variable {address : UInt64}

/-- Two functions do not share an address. -/
theorem id_eq_of_address (code : p.Code id f c) (code' : p.Code id' f' c')
    (inside : offset < c.size) (inside' : offset' < c'.size)
    (same : c.address offset = c'.address offset') : id = id' := by
  by_cases equal : id = id'
  · exact equal
  · have same := congrArg UInt64.toNat same
    rw [code.toNat_address (Nat.le_of_lt inside), code'.toNat_address (Nat.le_of_lt inside')] at same
    rcases ready.linked.apart id id' c c' code.cached code'.cached equal with before | after
    · omega
    · omega

/-- Compiled code is the code of a function with a body. -/
theorem code_of_cached (cached : p.image.cache.get? id = some c) : ∃ f, p.Code id f c := by
  obtain ⟨f, found, native, defined⟩ := ready.linked.cached id c cached
  obtain ⟨c', code⟩ := ready.code found ⟨native, defined⟩
  cases cached.symm.trans code.cached
  exact ⟨f, code⟩

theorem code_of_address (found : p.functions.get? id = some f)
    (here : p.addressOf? id i = some address) :
    ∃ c offset, p.Code id f c ∧ c.offsets[i]? = some offset ∧ address = c.address offset := by
  obtain ⟨c, cached, placed⟩ := Option.bind_eq_some_iff.mp here
  obtain ⟨g, code⟩ := ready.code_of_cached cached
  cases found.symm.trans code.found
  obtain ⟨offset, here, same⟩ := Option.map_eq_some_iff.mp placed
  exact ⟨c, offset, code, here, same.symm⟩

/-- The address of a reachable instruction determines its function. -/
theorem function_of_address (found : p.functions.get? id = some f)
    (found' : p.functions.get? id' = some f') (reachable : f.isReachable i = true)
    (reachable' : f'.isReachable j = true) (here : p.addressOf? id i = some address)
    (here' : p.addressOf? id' j = some address) : id = id' := by
  obtain ⟨c, offset, code, placed, same⟩ := ready.code_of_address found here
  obtain ⟨c', offset', code', placed', same'⟩ := ready.code_of_address found' here'
  exact ready.id_eq_of_address code code' (ready.offset_lt code reachable placed)
    (ready.offset_lt code' reachable' placed') (same.symm.trans same')

/-- Reachable instructions with one offset have the same operand types. -/
theorem operandTypes_of_offset (code : p.Code id f c) (ordered : i ≤ j)
    (reachable : f.isReachable i = true) (placed : c.offsets[i]? = some offset)
    (placed' : c.offsets[j]? = some offset) : f.operandTypes i = f.operandTypes j := by
  induction rest : j - i generalizing i with
  | zero => rw [show i = j by omega]
  | succ rest ih =>
    obtain ⟨instr, after, flow⟩ := ready.flows code reachable
    obtain ⟨k, constant, pieces, at_⟩ := code.at_ i instr flow.code reachable
    cases at_.placed.symm.trans placed
    have later := at_.later j offset (by omega) placed'
    have empty : instr = .nop := by
      by_cases empty : instr = .nop
      · exact empty
      · have positive := codeLength_pos (lower_ne_nil at_.lowered empty)
        omega
    subst empty
    have length : pieces = [] := by
      have lowered := at_.lowered
      cases lowered
      rfl
    obtain ⟨follows, reachable', types⟩ := flow.next rfl
    have next := at_.next follows
    rw [length] at next
    have kept : after = f.operandTypes i := by
      generalize before : f.operandTypes i = stack
      have effect := flow.effect
      dsimp only at effect
      rw [before] at effect
      cases effect
      rfl
    rw [← kept, ← types]
    exact ih (by omega) reachable' next (by omega)

/-- The address of a reachable instruction determines the operand types before it. -/
theorem operandTypes_of_address (found : p.functions.get? id = some f)
    (reachable : f.isReachable i = true) (reachable' : f.isReachable j = true)
    (here : p.addressOf? id i = some address) (here' : p.addressOf? id j = some address) :
    f.operandTypes i = f.operandTypes j := by
  obtain ⟨c, offset, code, placed, same⟩ := ready.code_of_address found here
  rw [code.addressOf?] at here'
  obtain ⟨offset', placed', same'⟩ := Option.map_eq_some_iff.mp here'
  have inside := ready.offset_lt code reachable placed
  have inside' := ready.offset_lt code reachable' placed'
  have equal := code.address_inj (Nat.le_of_lt inside) (Nat.le_of_lt inside')
    (same.symm.trans same'.symm)
  subst equal
  rcases Nat.le_total i j with ordered | ordered
  · exact ready.operandTypes_of_offset code ordered reachable placed placed'
  · exact (ready.operandTypes_of_offset code ordered reachable' placed' placed).symm

/-- Behind the start of an instruction's code no instruction starts until its end. -/
theorem interior (code : p.Code id f c) (at_ : p.At id f c i instr offset constant pieces) {k : Nat}
    (behind : 0 < k) (inside : k < codeLength pieces) : p.Interior (c.address (offset + k)) := by
  intro id' f' j found reachable here
  obtain ⟨c', offset', code', placed, same⟩ := ready.code_of_address found here
  have bound := at_.inside
  have equal := ready.id_eq_of_address code code' (by omega) (ready.offset_lt code' reachable placed)
    same
  subst equal
  cases code.found.symm.trans found
  cases code.cached.symm.trans code'.cached
  have equal := code.address_inj (by omega) (Nat.le_of_lt (ready.offset_lt code reachable placed)) same
  rcases Nat.lt_or_ge i j with after | before
  · have later := at_.later j offset' after placed
    omega
  · have earlier := at_.earlier j offset' before placed
    omega

/-- No instruction starts at an entry. -/
theorem interior_entry (code : p.Code id f c) : p.Interior c.entry := by
  intro id' f' j found reachable here
  obtain ⟨c', offset', code', placed, same⟩ := ready.code_of_address found here
  have start : c.entry = c.address 0 := (UInt64.add_zero _).symm
  have positive := code.positive
  rw [start] at same
  have equal := ready.id_eq_of_address code code' (by omega) (ready.offset_lt code' reachable placed)
    same
  subst equal
  cases code.found.symm.trans found
  cases code.cached.symm.trans code'.cached
  obtain ⟨instr, after, flow⟩ := ready.flows code reachable
  obtain ⟨k, constant, pieces, at_⟩ := code.at_ j instr flow.code reachable
  cases at_.placed.symm.trans placed
  have behind := at_.behind
  have equal := code.address_inj (by omega)
    (Nat.le_of_lt (ready.offset_lt code reachable placed)) same
  omega

end Ready

end Runnable

end Program

end ManagedCode
