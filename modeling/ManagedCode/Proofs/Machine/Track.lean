import ManagedCode.Proofs.Semantics.Preservation

/-!
# The states of a run

A machine that runs a checked program follows the bytecode: every state that it comes to is at the
instruction that some activations are at, which the bytecode gets to by itself, or between two
machine instructions of a call or a return.

* `Here.leads`: an instruction, whatever it is.
* `Track`: the states of a run, with `Track.step` and `Track.stop` for one machine instruction.
* `Steps`, `Track.steps`: any number of machine instructions.
* `Track.at_address`: a machine at the address of an instruction is at the activations' instruction.
-/

namespace ManagedCode

open Bytecode TypeSystem
open Compile (CompiledFunction Piece)
open Machine (Stop Registers)
open Target (Op)

/-! ## One instruction -/

section Registers

variable {x : Fixed} {v : View} {m : Machine Vm}

theorem Shows.ip (shows_ : Shows x v m) : m.registers.ip = v.ip :=
  congrArg Registers.ip shows_.registers

theorem Shows.sp (shows_ : Shows x v m) : m.registers.sp = x.place v.words.length :=
  congrArg Registers.sp shows_.registers

theorem Shows.bp (shows_ : Shows x v m) : m.registers.bp = v.bp :=
  congrArg Registers.bp shows_.registers

end Registers

variable {e : Stop}

section Leads

variable {x : Fixed} {m m' : Machine Vm} {inner Q : View → Prop} {E : Stop → World → Prop}

section

variable (leads : Leads x inner Q E m)

include leads

theorem Leads.running : m.registers.ip ≠ Machine.haltAddress := by
  cases leads <;> assumption

theorem Leads.step (stepped : Machine.step m = .ok () m') :
    (∃ v, Shows x v m' ∧ Q v) ∨ ∃ v, Shows x v m' ∧ inner v ∧ Leads x inner Q E m' := by
  cases leads with
  | stop _ failed => cases failed.symm.trans stepped
  | last _ stepped' shows_ good =>
    cases stepped'.symm.trans stepped
    exact .inl ⟨_, shows_, good⟩
  | more _ stepped' shows_ inside rest =>
    cases stepped'.symm.trans stepped
    exact .inr ⟨_, shows_, inside, rest⟩

theorem Leads.failed (failed : Machine.step m = .error e m') :
    m'.host.fixed = x ∧ E e m'.host.world := by
  cases leads with
  | stop _ failed' fixed why =>
    cases failed'.symm.trans failed
    exact ⟨fixed, why⟩
  | last _ stepped | more _ stepped => cases stepped.symm.trans failed

end

end Leads

section At

variable {x : Fixed} {root : FunctionId} {bottom : List UInt64} {c : Configuration UInt64}
  {f : Function} {k : CompiledFunction} {instr : Instr} {after : OperandTypes} {offset : Nat}
  {constant ip result : UInt64} {pieces : List Piece} {m m' : Machine Vm}

section

variable (here : Here x c f k instr after offset constant pieces)

include here

theorem Here.step_eq :
    Words.step x.program.types x.program.functions c
      = Words.perform x.program.types x.program.functions f c instr := by
  have code : f.code[c.current.index]? = some instr := here.flow.code
  unfold Words.step
  rw [here.code.found]
  dsimp only
  rw [code]

/-- A function that is called is known. -/
theorem Here.known {callee : FunctionId} (calls : instr.callee? = some callee) :
    ∃ g, x.program.functions.get? callee = some g := by
  have effect := here.flow.effect
  generalize f.operandTypes c.current.index = stack at effect
  cases effect with
  | call found | callInstance found =>
    cases calls
    exact ⟨_, found⟩
  | _ => cases calls

/-- An instruction that has code leads to where it leads in the bytecode. -/
theorem Here.leads (setting : Setting x root bottom) (shaped : c.Shaped x.program.functions root)
    (some_ : instr ≠ .nop) (shows_ : Shows x (c.view x bottom (k.address offset) result) m) :
    LeadsTo x bottom (Midway x bottom c)
      (Words.step x.program.types x.program.functions c) m := by
  have fits := shaped.current_of_found here.code.found
  rw [here.step_eq]
  cases calls : instr.callee? with
  | none =>
    by_cases returns : instr = .ret
    · subst returns
      exact here.leads_return setting shaped shows_
    · exact here.leads_plain setting.grounds fits calls some_ returns shows_
  | some callee =>
    obtain ⟨g, found⟩ := here.known calls
    cases native : g.native? with
    | some routine => exact here.leads_routine setting shaped calls found native shows_
    | none => exact here.leads_managed setting fits calls found native shows_

end

/-- Activations at an instruction that has code, which others get to past instructions without
code. -/
structure Settles (x : Fixed) (bottom : List UInt64) (c c' : Configuration UInt64) (ip : UInt64) :
    Prop where
  reaches : Words.Reaches x.program.types x.program.functions c c'
  function : c'.current.function = c.current.function
  callers : c'.callers = c.callers
  view : ∀ result, c'.view x bottom ip result = c.view x bottom ip result
  here : ∃ f k instr after offset constant pieces,
    Here x c' f k instr after offset constant pieces ∧ instr ≠ .nop ∧ ip = k.address offset

theorem settles (bottom : List UInt64) (ready : x.program.Runnable) (shaped : c.Shaped x.program.functions root)
    (address : x.program.addressOf? c.current.function c.current.index = some ip) :
    ∃ c', Settles x bottom c c' ip := by
  obtain ⟨f, current⟩ := shaped.current
  obtain ⟨k, code⟩ := ready.code current.found current.body
  -- The instructions that are left bound how many have no code.
  induction left : f.code.size - c.current.index using Nat.strongRecOn generalizing c with
  | _ rest ih =>
    obtain ⟨instr, after, flow⟩ := ready.flows code current.reachable
    obtain ⟨offset, constant, pieces, at_⟩ := code.at_ _ instr flow.code current.reachable
    have here : Here x c f k instr after offset constant pieces := ⟨code, flow, at_⟩
    cases (at_.address code).symm.trans address
    by_cases empty : instr = .nop
    · subst empty
      have length : pieces = [] := by
        have lowered := at_.lowered
        cases lowered
        rfl
      obtain ⟨follows, _⟩ := flow.next rfl
      have follows : c.current.index + 1 < f.code.size := follows
      have stepped : Words.step x.program.types x.program.functions c
          = .next (c.goOn c.operands) := here.step_eq
      have shaped' := shaped.next ready stepped
      have address' := at_.address_next code follows
      rw [length] at address'
      obtain ⟨c', settled⟩ := ih _ (by
        show f.code.size - (c.current.index + 1) < rest
        omega) shaped' address' (shaped'.current_of_found current.found) code rfl
      exact ⟨c', .head stepped settled.reaches, settled.function, settled.callers, settled.view,
        settled.here⟩
    · exact ⟨c, .refl, rfl, rfl, fun _ => rfl, f, k, instr, after, offset, constant, pieces, here,
        empty, rfl⟩

end At

/-! ## Runs -/

/-- The states of a run from a call from outside on.

* `entering`: the function that was called has not made its frame yet.
* `at_`: the machine is at the instruction that some activations are at.
* `between`: it is between two machine instructions of the call or return that they are at.
* `ended`: the function that was called has returned. -/
inductive Track (x : Fixed) (bottom : List UInt64) (start : Configuration UInt64) :
    Machine Vm → Prop where
  | entering {m : Machine Vm} {v : View} (shows_ : Shows x v m) (interior : x.program.Interior v.ip)
      (linkage : ∃ op, x.program.OpAt v.ip op ∧ op.isLinkage = true)
      (words : v.words = bottom) (world : v.world = start.world)
      (leads : Leads x (fun _ => False) ((Outcome.next start).Shown x bottom)
        ((Outcome.next start).Stops x) m) : Track x bottom start m
  | at_ {m : Machine Vm} {c : Configuration UInt64} {ip result : UInt64}
      (reaches : Words.Reaches x.program.types x.program.functions start c)
      (address : x.program.addressOf? c.current.function c.current.index = some ip)
      (shows_ : Shows x (c.view x bottom ip result) m) : Track x bottom start m
  | between {m : Machine Vm} {c : Configuration UInt64} {v : View}
      (reaches : Words.Reaches x.program.types x.program.functions start c)
      (shows_ : Shows x v m) (midway : Midway x bottom c v)
      (leads : Leads x (Midway x bottom c)
        ((Words.step x.program.types x.program.functions c).Shown x bottom)
        ((Words.step x.program.types x.program.functions c).Stops x) m) : Track x bottom start m
  | ended {m : Machine Vm} {c : Configuration UInt64} {value : Option UInt64} {world : World} {v : View}
      (reaches : Words.Reaches x.program.types x.program.functions start c)
      (finished : Words.step x.program.types x.program.functions c = .finished value world)
      (shows_ : Shows x v m) (good : (Outcome.finished value world).Shown x bottom v) :
      Track x bottom start m

def Runs (m m' : Machine Vm) : Prop :=
  m.registers.ip ≠ Machine.haltAddress ∧ Machine.step m = .ok () m'

def Steps : Machine Vm → Machine Vm → Prop := Relation.ReflTransGen Runs

section Track

variable {x : Fixed} {root : FunctionId} {bottom : List UInt64} {start c : Configuration UInt64}
  {m m' : Machine Vm}

section

variable (reaches : Words.Reaches x.program.types x.program.functions start c)

include reaches

/-- A view that the bytecode leads to is one of the run. -/
theorem track_of_shown {v : View}
    (good : (Words.step x.program.types x.program.functions c).Shown x bottom v)
    (shows_ : Shows x v m) : Track x bottom start m := by
  cases outcome : Words.step x.program.types x.program.functions c with
  | next c' =>
    rw [outcome] at good
    obtain ⟨ip, result, address, rfl⟩ := good
    exact .at_ (reaches.tail outcome) address shows_
  | finished value world =>
    rw [outcome] at good
    exact .ended reaches outcome shows_ good
  | stopped why world | stuck =>
    rw [outcome] at good
    exact good.elim

theorem track_of_leads
    (leads : LeadsTo x bottom (Midway x bottom c)
      (Words.step x.program.types x.program.functions c) m)
    (stepped : Machine.step m = .ok () m') : Track x bottom start m' := by
  rcases leads.step stepped with ⟨v, shows_, good⟩ | ⟨v, shows_, midway, leads⟩
  · exact track_of_shown reaches good shows_
  · exact .between reaches shows_ midway leads

end

/-- A machine where some activations are executes their instruction, or the first one after it that
has code. -/
theorem leads_at (setting : Setting x root bottom) (shaped : start.Shaped x.program.functions root)
    (reaches : Words.Reaches x.program.types x.program.functions start c) {ip result : UInt64}
    (address : x.program.addressOf? c.current.function c.current.index = some ip)
    (shows_ : Shows x (c.view x bottom ip result) m) :
    ∃ c', Words.Reaches x.program.types x.program.functions start c' ∧
      LeadsTo x bottom (Midway x bottom c')
        (Words.step x.program.types x.program.functions c') m := by
  have ready := setting.ready
  obtain ⟨c', settled⟩ := settles bottom ready (reaches.shaped ready shaped) address
  obtain ⟨f, k, instr, after, offset, constant, pieces, here, some_, rfl⟩ := settled.here
  have reaches' : Words.Reaches _ _ start c' := reaches.trans settled.reaches
  rw [← settled.view] at shows_
  exact ⟨c', reaches', here.leads setting (reaches'.shaped ready shaped) some_ shows_⟩

section Tracked

variable (track : Track x bottom start m) (setting : Setting x root bottom)
  (shaped : start.Shaped x.program.functions root)

include track setting shaped

theorem Track.step (runs : Runs m m') : Track x bottom start m' := by
  obtain ⟨running, stepped⟩ := runs
  cases track with
  | entering shows_ interior linkage words world leads =>
    rcases leads.step stepped with ⟨v, shows', ip, result, address, rfl⟩ | ⟨_, _, none, _⟩
    · exact .at_ .refl address shows'
    · exact none.elim
  | at_ reaches address shows_ =>
    obtain ⟨c', reaches', leads⟩ := leads_at setting shaped reaches address shows_
    exact track_of_leads reaches' leads stepped
  | between reaches shows_ midway leads => exact track_of_leads reaches leads stepped
  | ended reaches finished shows_ good =>
    exact absurd (shows_.ip.trans good.1) running

theorem Track.steps (steps : Steps m m') : Track x bottom start m' := by
  induction steps with
  | refl => exact track
  | tail _ runs ih => exact ih.step setting shaped runs

/-- Why a run stops: the stack or the table of calls is used up, or the bytecode stops for the same
reason, or it has no meaning there. -/
theorem Track.stop (running : m.registers.ip ≠ Machine.haltAddress)
    (failed : Machine.step m = .error e m') :
    ∃ c, Words.Reaches x.program.types x.program.functions start c ∧
      ((x.Exhausts e ∧ m'.host.world = c.world) ∨
        Words.step x.program.types x.program.functions c = .stopped e m'.host.world ∨
        Words.step x.program.types x.program.functions c = .stuck) := by
  obtain ⟨exhausts, same⟩ | ⟨c, reaches, why⟩ : (x.Exhausts e ∧ m'.host.world = start.world) ∨
      ∃ c, Words.Reaches x.program.types x.program.functions start c ∧
        (Words.step x.program.types x.program.functions c).Stops x e m'.host.world := by
    cases track with
    | entering shows_ interior linkage words world leads => exact .inl (leads.failed failed).2
    | at_ reaches address shows_ =>
      obtain ⟨c', reaches', leads⟩ := leads_at setting shaped reaches address shows_
      exact .inr ⟨c', reaches', (leads.failed failed).2⟩
    | between reaches shows_ midway leads => exact .inr ⟨_, reaches, (leads.failed failed).2⟩
    | ended reaches finished shows_ good => exact absurd (shows_.ip.trans good.1) running
  · exact ⟨start, .refl, .inl ⟨exhausts, same⟩⟩
  · cases outcome : Words.step x.program.types x.program.functions c with
    | next c' =>
      rw [outcome] at why
      exact ⟨c', reaches.tail outcome, .inl why⟩
    | finished value world =>
      rw [outcome] at why
      exact why.elim
    | stopped reason world =>
      rw [outcome] at why
      obtain ⟨rfl, same⟩ := why
      exact ⟨c, reaches, .inr (.inl (by rw [outcome, same]))⟩
    | stuck => exact ⟨c, reaches, .inr (.inr outcome)⟩

end Tracked

end Track

end ManagedCode
