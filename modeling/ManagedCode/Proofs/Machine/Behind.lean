import ManagedCode.Proofs.Machine.Blind

/-!
# The bytecode behind a machine instruction

A machine instruction that asks the runtime for something stands for one bytecode instruction alone.
Wherever a run comes to one, the machine is at the instruction that some activations are at.

* `Op.asksRuntime`: the machine instructions that use the heap or walk the stack.
* `Behind`: the bytecode instructions that they stand for.
* `Track.settled`: where a run is at a machine instruction that is not one of a call or a return.
* `Track.behind`: the activations that a run is at.
-/

namespace ManagedCode

open Bytecode TypeSystem
open Compile (CompiledFunction Piece Source)
open Target (Op Width)

/-- The machine instructions that use the heap or walk the stack. -/
def Target.Op.asksRuntime : Op → Bool
  | .printCallStack .. => true
  | op => op.touchesHeap

/-- The bytecode instruction, at a position of a function, behind a machine instruction that asks the
runtime for something. -/
inductive Behind (s : Source) (index : Nat) : Instr → Op → Prop where
  | newObject {type : TypeId} : Behind s index (.newObject type) (.newObject type.raw)
  | newArray {type : TypeId} : Behind s index (.newArray type) (.newArray type.raw)
  | loadField {r : FieldRef} {width : Width} (moved : s.width r.type = .ok width) :
      Behind s index (.loadField r) (.loadField width r.offset)
  | storeField {r : FieldRef} {width : Width} (moved : s.width r.type = .ok width) :
      Behind s index (.storeField r) (.storeField width r.offset)
  | loadElement {type : TypeId} {width : Width} (moved : s.elementWidth type = .ok width) :
      Behind s index (.loadElement type) (.loadElement width)
  | storeElement {type : TypeId} {width : Width} (moved : s.elementWidth type = .ok width) :
      Behind s index (.storeElement type) (.storeElement width)
  | arrayLength : Behind s index .arrayLength .arrayLength
  | collect {instr : Instr} {callee : FunctionId} {g : Function} (calls : instr.callee? = some callee)
      (found : s.functions.get? callee = some g) (native : g.native? = some .collect) :
      Behind s index instr (.collect s.id.toBits (UInt32.ofNat index))
  | printCallStack {instr : Instr} {callee : FunctionId} {g : Function}
      (calls : instr.callee? = some callee) (found : s.functions.get? callee = some g)
      (native : g.native? = some .printCallStack) :
      Behind s index instr (.printCallStack s.id.toBits (UInt32.ofNat index))

/-! ## Lowering -/

variable {k : CompiledFunction}

variable {p : Program}

section Lowering

variable {s : Source} {index : Nat} {constant : UInt64} {instr : Instr} {pieces : List Piece}
  {piece : Piece}

theorem behind_of_lowerCall {callee : FunctionId} {onObject : Bool}
    (calls : instr.callee? = some callee)
    (lowered : s.lowerCall index callee onObject = .ok pieces) (mem : piece ∈ pieces)
    (asks : piece.op.asksRuntime = true) : Behind s index instr piece.op := by
  obtain ⟨g, found, made⟩ := Source.calls_of_lowerCall lowered mem
  cases made with
  | collect native => exact .collect calls found native
  | printCallStack native => exact .printCallStack calls found native
  | call =>
    unfold Source.callPiece at asks
    split at asks <;> cases asks
  | _ => cases asks

theorem behind_of_lower (lowered : s.lower index constant instr = .ok pieces)
    (mem : piece ∈ pieces) (asks : piece.op.asksRuntime = true) :
    Behind s index instr piece.op := by
  cases instr with
  | nop =>
    cases lowered
    cases mem
  | call callee | callInstance callee => exact behind_of_lowerCall rfl lowered mem asks
  | ret => rcases Source.mem_lower_ret lowered mem with rfl | rfl | rfl <;> cases asks
  | loadElement type =>
    obtain ⟨width, moved, rfl⟩ := Source.eq_of_width lowered mem
    exact .loadElement moved
  | storeElement type =>
    obtain ⟨width, moved, rfl⟩ := Source.eq_of_width lowered mem
    exact .storeElement moved
  | loadField r =>
    obtain ⟨width, moved, rfl⟩ := Source.eq_of_width lowered mem
    exact .loadField moved
  | storeField r =>
    obtain ⟨width, moved, rfl⟩ := Source.eq_of_width lowered mem
    exact .storeField moved
  | newObject type =>
    cases lowered
    cases List.mem_singleton.mp mem
    exact .newObject
  | newArray type =>
    cases lowered
    cases List.mem_singleton.mp mem
    exact .newArray
  | arrayLength =>
    cases lowered
    cases List.mem_singleton.mp mem
    exact .arrayLength
  | _ =>
    cases lowered
    cases List.mem_singleton.mp mem
    cases asks

/-- What asks the runtime is not patched. -/
theorem op_eq_of_resolves {placed : Compile.Placed} {op : Op} (resolves : p.Resolves k placed op)
    (asks : op.asksRuntime = true) : placed.piece.op = op := by
  cases resolves with
  | done => rfl
  | branch =>
    unfold Compile.withDistance at asks ⊢
    split at asks
    · cases asks
    · cases asks
    · cases asks
    · rfl
  | self | call => cases asks

end Lowering

theorem Target.Op.asksRuntime_of_isLinkage {op : Op} (linkage : op.isLinkage = true) :
    op.asksRuntime = false := by
  cases op <;> first | rfl | cases linkage

theorem Target.Op.asksRuntime_of_touchesHeap {op : Op} (touches : op.touchesHeap = true) :
    op.asksRuntime = true := by
  cases op <;> first | rfl | cases touches

theorem opAt_unique (ready : p.Runnable) {address : UInt64} {op op' : Op} (here : p.OpAt address op)
    (here' : p.OpAt address op') : op = op' := by
  obtain ⟨rest, fetched⟩ :=
    Memory.CodeStore.fetch_of_holds ready.linked.executable ready.apart.code here
  obtain ⟨rest', fetched'⟩ :=
    Memory.CodeStore.fetch_of_holds ready.linked.executable ready.apart.code here'
  have same : op.encode ++ rest = op'.encode ++ rest' :=
    Except.ok.inj (fetched.symm.trans fetched')
  have decoded := Target.decode_encode_append op rest
  rw [same, Target.decode_encode_append] at decoded
  cases decoded
  rfl

/-! ## Runs -/

section Track

variable {x : Fixed} {root : FunctionId} {bottom : List UInt64} {start : Configuration UInt64}
  {m : Machine Vm} {op : Op}

theorem Here.behind {c : Configuration UInt64} {f : Function} {instr : Instr} {after : OperandTypes}
    {offset : Nat} {constant : UInt64} {pieces : List Piece}
    (here : Here x c f k instr after offset constant pieces) (ready : x.program.Runnable)
    (some_ : instr ≠ .nop) (there : x.program.OpAt (k.address offset) op)
    (asks : op.asksRuntime = true) :
    Behind (x.program.source c.current.function f) c.current.index instr op := by
  have lies := here.at_.lies
  have lowered := here.at_.lowered
  cases pieces with
  | nil => exact absurd rfl (lower_ne_nil lowered some_)
  | cons piece rest =>
    obtain ⟨⟨op', resolves, there'⟩, _⟩ := lies
    cases opAt_unique ready there there'
    have same := op_eq_of_resolves resolves asks
    have behind := behind_of_lower lowered List.mem_cons_self (by rwa [← same] at asks)
    rwa [same] at behind

/-- A machine at a machine instruction that is not one of a call or a return is at the instruction
of some activations, which has code. -/
theorem Track.settled (track : Track x bottom start m) (ready : x.program.Runnable)
    (shaped : start.Shaped x.program.functions root) (here : x.program.OpAt m.registers.ip op)
    (plain : op.isLinkage = false) :
    ∃ c result f k instr after offset constant pieces,
      Words.Reaches x.program.types x.program.functions start c ∧
      Here x c f k instr after offset constant pieces ∧ instr ≠ .nop ∧
      m.registers.ip = k.address offset ∧ Shows x (c.view x bottom m.registers.ip result) m := by
  have not_linkage : ∀ v, Shows x v m →
      (∃ op, x.program.OpAt v.ip op ∧ op.isLinkage = true) → False := by
    rintro v shows_ ⟨op', there, linkage⟩
    rw [← shows_.ip] at there
    cases opAt_unique ready here there
    rw [plain] at linkage
    cases linkage
  cases track with
  | entering shows_ _ linkage => exact (not_linkage _ shows_ linkage).elim
  | between _ shows_ midway => exact (not_linkage _ shows_ midway.linkage).elim
  | ended _ _ shows_ good =>
    exact absurd (shows_.ip.trans good.1) (ready.ne_halt here)
  | @at_ c ip result reaches address shows_ =>
    have same : m.registers.ip = ip := shows_.ip
    subst same
    obtain ⟨c', settled⟩ := settles bottom ready (reaches.shaped ready shaped) address
    obtain ⟨f, k, instr, after, offset, constant, pieces, at_, some_, ip⟩ := settled.here
    rw [← settled.view] at shows_
    exact ⟨c', result, f, k, instr, after, offset, constant, pieces,
      reaches.trans settled.reaches, at_, some_, ip, shows_⟩

/-- A machine that is about to ask the runtime is at an instruction of some activations that does
so, and executes it. -/
theorem Track.behind (track : Track x bottom start m) (setting : Setting x root bottom)
    (shaped : start.Shaped x.program.functions root) (here : x.program.OpAt m.registers.ip op)
    (asks : op.asksRuntime = true) :
    ∃ c result f instr, Words.Reaches x.program.types x.program.functions start c ∧
      x.program.functions.get? c.current.function = some f ∧
      Behind (x.program.source c.current.function f) c.current.index instr op ∧
      f.code[c.current.index]? = some instr ∧
      x.program.addressOf? c.current.function c.current.index = some m.registers.ip ∧
      Shows x (c.view x bottom m.registers.ip result) m ∧
      LeadsTo x bottom (Midway x bottom c)
        (Words.step x.program.types x.program.functions c) m := by
  have ready := setting.ready
  have plain : op.isLinkage = false := by
    cases linkage : op.isLinkage with
    | false => rfl
    | true =>
      rw [Target.Op.asksRuntime_of_isLinkage linkage] at asks
      cases asks
  obtain ⟨c, result, f, k, instr, after, offset, constant, pieces, reaches, at_, some_, ip, shows_⟩ :=
    track.settled ready shaped here plain
  refine ⟨c, result, f, instr, reaches, at_.code.found, ?_, at_.flow.code, ?_, shows_, ?_⟩
  · rw [ip] at here
    exact at_.behind ready some_ here asks
  · rw [ip]
    exact at_.at_.address at_.code
  · rw [ip] at shows_
    exact at_.leads setting (reaches.shaped ready shaped) some_ shows_

end Track

end ManagedCode
