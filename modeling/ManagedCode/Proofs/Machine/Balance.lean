import ManagedCode.Proofs.Machine.Nesting

/-!
# Calls are balanced

A call that returns gives the caller its frame back as it was: the base pointer and the number of
noted calls are the same, the arguments are gone, and no word of the frame has changed. This holds
however many calls the function makes in turn, and of functions that call themselves.

* `Machine.next?`, `atCall`, `atReturn`: what a machine executes next.
* `Nested`: the states of a call from its first one on, with the number of calls that are open in it.
* `Staged.nested`: every one of them is in a stage, on top of the callers that wait.
* `Vm.calls_balanced`: a call that returns, and a run that ends.
-/

namespace ManagedCode

open Bytecode TypeSystem
open Compile (CompiledFunction)
open Stack (Spells)
open Target (Op)
open Machine (Action Stop execute haltAddress push pushAll)

/-! ## Calls and returns along a run -/

namespace Machine

def next? (m : Machine Vm) : Option Op := m.host.program.op? m.registers.ip

def atCall (m : Machine Vm) : Bool := m.next?.any Op.calls

def atReturn (m : Machine Vm) : Bool := m.next?.any Op.returns

end Machine

/-- The states from one on, each with the number of calls that were made since and have not returned.
The state itself is not left by a return. -/
inductive Nested (first : Machine Vm) : Nat → Machine Vm → Prop where
  | refl : Nested first 0 first
  | plain {n : Nat} {m m' : Machine Vm} (before : Nested first n m) (calls : m.atCall = false)
      (returns : m.atReturn = false) (runs : Runs m m') : Nested first n m'
  | call {n : Nat} {m m' : Machine Vm} (before : Nested first n m) (calls : m.atCall = true)
      (runs : Runs m m') : Nested first (n + 1) m'
  | ret {n : Nat} {m m' : Machine Vm} (before : Nested first (n + 1) m) (returns : m.atReturn = true)
      (runs : Runs m m') : Nested first n m'

/-- A call, from the machine instruction that makes it to the one that returns from it. -/
structure Returned (call first last after : Machine Vm) : Prop where
  calls : call.atCall = true
  enters : Runs call first
  nested : Nested first 0 last
  returns : last.atReturn = true
  leaves : Runs last after

theorem Target.Op.calls_of_returns {op : Op} (returns : op.returns = true) : op.calls = false := by
  cases op <;> first | rfl | cases returns

theorem Runs.eq {m m' m'' : Machine Vm} (runs : Runs m m') (runs' : Runs m m'') : m'' = m' := by
  cases runs.2.symm.trans runs'.2
  rfl

variable {first call : Machine Vm}

/-- The states after the first one of a call are in it or come after its return. -/
theorem nested_or_returned {m : Machine Vm} (steps : Steps first m) :
    (∃ n, Nested first n m) ∨
      ∃ last after, Nested first 0 last ∧ last.atReturn = true ∧ Runs last after ∧
        Steps after m := by
  induction steps with
  | refl => exact .inl ⟨0, .refl⟩
  | @tail m m' _ runs ih =>
    rcases ih with ⟨n, nested⟩ | ⟨last, after, nested, returns, leaves, rest⟩
    · cases calls : m.atCall with
      | true => exact .inl ⟨n + 1, .call nested calls runs⟩
      | false =>
        cases returns : m.atReturn with
        | false => exact .inl ⟨n, .plain nested calls returns runs⟩
        | true =>
          cases n with
          | zero => exact .inr ⟨m, m', nested, returns, runs, .refl⟩
          | succ n => exact .inl ⟨n, .ret nested returns runs⟩
    · exact .inr ⟨last, after, nested, returns, leaves, rest.tail runs⟩

/-! ## Stages along a run -/

def Staged (x : Fixed) (root : FunctionId) (bottom : List UInt64)
    (callers : List (Activation UInt64)) (m : Machine Vm) : Prop :=
  ∃ v, Shows x v m ∧ Stage x root bottom callers v

variable {n : Nat}

section Staged

variable {x : Fixed} {root : FunctionId} {bottom : List UInt64}
  {callers : List (Activation UInt64)} {a : Activation UInt64} {v u : View} {op : Op}
  {m m' : Machine Vm}

theorem Shows.next? (shows_ : Shows x v m) : m.next? = x.program.op? v.ip := by
  unfold Machine.next?
  rw [shows_.program, shows_.ip]

theorem Shows.atCall (shows_ : Shows x v m) (op : Op) (here : x.program.op? v.ip = some op) :
    m.atCall = op.calls := by
  unfold Machine.atCall
  rw [shows_.next?, here]
  rfl

theorem Shows.atReturn (shows_ : Shows x v m) (op : Op) (here : x.program.op? v.ip = some op) :
    m.atReturn = op.returns := by
  unfold Machine.atReturn
  rw [shows_.next?, here]
  rfl

theorem Stage.runs (stage : Stage x root bottom callers v) (grounds : Grounds x root bottom)
    (shows_ : Shows x v m) (runs : Runs m m') :
    ∃ op u, x.program.op? v.ip = some op ∧ Shows x u m' ∧ Turn x root bottom callers v op u := by
  obtain ⟨op, here, after⟩ := stage.turn grounds shows_
  rw [runs.2] at after
  obtain ⟨u, shows', turn⟩ := after
  exact ⟨op, u, grounds.ready.op?_eq_some here, shows', turn⟩

section

variable (staged : Staged x root bottom callers m) (grounds : Grounds x root bottom)

include staged grounds

theorem Staged.running : m.registers.ip ≠ haltAddress := by
  obtain ⟨v, shows_, stage⟩ := staged
  obtain ⟨op, here, _⟩ := stage.turn grounds shows_
  rw [shows_.ip]
  exact grounds.ready.ne_halt here

theorem Staged.stays (runs : Runs m m') (calls : m.atCall = false) (returns : m.atReturn = false) :
    Staged x root bottom callers m' := by
  obtain ⟨v, shows_, stage⟩ := staged
  obtain ⟨op, u, here, shows', turn⟩ := stage.runs grounds shows_ runs
  rw [shows_.atCall _ here] at calls
  rw [shows_.atReturn _ here] at returns
  cases turn with
  | stays _ _ _ stage' | notes _ _ stage' => exact ⟨u, shows', stage'⟩
  | enters goes =>
    rw [goes] at calls
    cases calls
  | leaves goes | ends goes =>
    rw [goes] at returns
    cases returns

end

section

variable (stage : Stage x root bottom callers v) (grounds : Grounds x root bottom)
  (shows_ : Shows x v m) (runs : Runs m m')

include stage grounds shows_ runs

theorem Stage.enters (calls : m.atCall = true) :
    ∃ a callee g, x.program.called? a = some callee ∧
      x.program.functions.get? callee = some g ∧
      x.program.image.cache.entryOf? callee = some m'.registers.ip ∧
      v.words = a.frame (baseOf x bottom callers) (spine x bottom callers) ∧
      v.bp = baseOf x bottom (a :: callers) ∧ v.calls = (a :: callers).map Activation.site ∧
      (∃ op, m.next? = some op ∧ v.ip + UInt64.ofNat op.length = x.program.returnAddress a) ∧
      Staged x root bottom (a :: callers) m' := by
  obtain ⟨op, u, here, shows', turn⟩ := stage.runs grounds shows_ runs
  have next := shows_.next?.trans here
  rw [shows_.atCall _ here] at calls
  cases turn with
  | stays quiet =>
    rw [quiet] at calls
    cases calls
  | notes note =>
    subst note
    cases calls
  | @enters a callee g k _ called code words base table target entry stage' =>
    refine ⟨a, callee, g, called, code.found, ?_, words, base, table, ⟨op, next, target⟩, u,
      shows', stage'⟩
    unfold Compile.CodeCache.entryOf?
    rw [code.cached, shows'.ip, entry]
    rfl
  | leaves goes | ends goes =>
    rw [Op.calls_of_returns goes] at calls
    cases calls

/-- A return leads to the caller that waits, or to the end of the run. -/
theorem Stage.returns (returns : m.atReturn = true) :
    (∃ a outer g result world, callers = a :: outer ∧ Resuming x root g a outer result world ∧
      Shows x (.back x bottom a outer g.argumentCount result world) m') ∨
    callers = [] ∧ ∃ f result world, v.words = bottom ∧ x.program.functions.get? root = some f ∧
      Shows x ⟨haltAddress, 0, result, bottom.tail.drop f.argumentCount, [], world⟩ m' := by
  obtain ⟨op, u, here, shows', turn⟩ := stage.runs grounds shows_ runs
  rw [shows_.atReturn _ here] at returns
  cases turn with
  | stays _ quiet =>
    rw [quiet] at returns
    cases returns
  | notes note =>
    subst note
    cases returns
  | enters goes =>
    have quiet := Op.calls_of_returns returns
    rw [goes] at quiet
    cases quiet
  | leaves _ waits resuming same =>
    rw [same] at shows'
    exact .inl ⟨_, _, _, _, _, waits, resuming, shows'⟩
  | ends _ none words found same =>
    rw [same] at shows'
    exact .inr ⟨none, _, _, _, words, found, shows'⟩

end

theorem Staged.leaves (staged : Staged x root bottom (a :: callers) m)
    (grounds : Grounds x root bottom) (runs : Runs m m') (returns : m.atReturn = true) :
    ∃ g result world, Resuming x root g a callers result world ∧
      Shows x (.back x bottom a callers g.argumentCount result world) m' := by
  obtain ⟨v, shows_, stage⟩ := staged
  rcases stage.returns grounds shows_ runs returns with ⟨_, _, g, result, world, same, back⟩ | ⟨none, _⟩
  · cases same
    exact ⟨g, result, world, back⟩
  · cases none

/-- A call is noted right before it is made. -/
theorem Stage.noted (stage : Stage x root bottom callers v) (grounds : Grounds x root bottom)
    (shows_ : Shows x v m) (runs : Runs m m') (calls : m'.atCall = true) :
    ∃ u call, Shows x u m' ∧ Stage x root bottom callers u ∧
      u = { v with ip := u.ip, calls := call :: v.calls } := by
  have ready := grounds.ready
  obtain ⟨op, u, here, shows', turn⟩ := stage.runs grounds shows_ runs
  have quiet : ∀ op', x.program.OpAt u.ip op' → op'.calls = false → False := by
    intro op' there quiet
    rw [shows'.atCall _ (ready.op?_eq_some there), quiet] at calls
    cases calls
  -- Behind anything but a note, the machine instruction that comes next is known to make no call.
  cases turn with
  | notes _ same stage' => exact ⟨u, _, shows', stage', same⟩
  | stays _ _ still stage' =>
    obtain ⟨op', there, _⟩ := stage'.turn grounds shows'
    exact (quiet op' there (still op' there)).elim
  | enters _ _ code _ _ _ _ entry =>
    exact (quiet _ (entry ▸ code.enter) rfl).elim
  | leaves _ _ resuming same =>
    refine (quiet .popFrame ?_ rfl).elim
    rw [same]
    exact resuming.awaits.dropped
  | ends _ _ _ _ same =>
    have none : m'.next? = none := by
      rw [shows'.next?, same]
      exact ready.op?_halt
    unfold Machine.atCall at calls
    rw [none] at calls
    cases calls

/-! ## Words that stay -/

theorem Activation.suffix_frame (a : Activation UInt64) (saved : UInt64) (above : List UInt64) :
    above <:+ a.frame saved above :=
  ⟨a.slots.reverse ++ [saved], by simp [Activation.frame]⟩

/-- The words of the callers that wait are on the stack in every stage. -/
theorem Stage.suffix (stage : Stage x root bottom callers v) :
    spine x bottom callers <:+ v.words := by
  cases stage with
  | at_ | noting | calling | back | taking => exact Activation.suffix_frame _ _ _
  | entering | returning => exact List.suffix_refl _
  | leaving =>
    rw [showing_words]
    exact (List.suffix_cons _ _).trans (List.suffix_append _ _)

theorem suffix_spine (x : Fixed) (bottom : List UInt64) (inner outer : List (Activation UInt64)) :
    spine x bottom outer <:+ spine x bottom (inner ++ outer) := by
  induction inner with
  | nil => exact List.suffix_refl _
  | cons a inner ih =>
    exact ih.trans ((Activation.suffix_frame _ _ _).trans (List.suffix_cons _ _))

/-- The states of a call are in stages, on top of the callers that wait for it. -/
theorem Staged.nested (staged : Staged x root bottom callers first)
    (grounds : Grounds x root bottom) (nested : Nested first n m) :
    ∃ inner, inner.length = n ∧ Staged x root bottom (inner ++ callers) m := by
  induction nested with
  | refl => exact ⟨[], rfl, staged⟩
  | plain _ calls returns runs ih =>
    obtain ⟨inner, count, staged'⟩ := ih
    exact ⟨inner, count, staged'.stays grounds runs calls returns⟩
  | call _ calls runs ih =>
    obtain ⟨inner, count, v, shows_, stage⟩ := ih
    obtain ⟨a, _, _, _, _, _, _, _, _, _, staged'⟩ := stage.enters grounds shows_ runs calls
    exact ⟨a :: inner, congrArg (· + 1) count, staged'⟩
  | ret _ returns runs ih =>
    obtain ⟨inner, count, staged'⟩ := ih
    cases inner with
    | nil => cases count
    | cons a inner =>
      obtain ⟨g, result, world, resuming, shows'⟩ := staged'.leaves grounds runs returns
      exact ⟨inner, Nat.succ.inj count, _, shows', .back resuming⟩

/-- From the start of a run on, a machine is in a stage until the outermost return. -/
theorem staged_of_steps (staged : Staged x root bottom [] first) (grounds : Grounds x root bottom)
    (steps : Steps first m) :
    (∃ callers, Staged x root bottom callers m) ∨
      ∃ last, Staged x root bottom [] last ∧ Nested first 0 last ∧ last.atReturn = true ∧
        Runs last m ∧ m.registers.ip = haltAddress := by
  rcases nested_or_returned steps with ⟨n, nested⟩ | ⟨last, after, nested, returns, runs, rest⟩
  · obtain ⟨inner, _, staged'⟩ := staged.nested grounds nested
    exact .inl ⟨_, staged'⟩
  · obtain ⟨inner, count, v, shows_, stage⟩ := staged.nested grounds nested
    obtain rfl := List.eq_nil_of_length_eq_zero count
    rcases stage.returns grounds shows_ runs returns with
      ⟨_, _, _, _, _, none, _⟩ | ⟨_, _, _, _, _, _, shows'⟩
    · cases none
    -- Nothing runs on from the halt address.
    · rcases rest.cases_head with rfl | ⟨_, runs', _⟩
      · exact .inr ⟨last, ⟨v, shows_, stage⟩, nested, returns, runs, shows'.ip⟩
      · exact absurd shows'.ip runs'.1

end Staged

/-- The slots of the stack that a machine uses, but for the topmost ones, are the same in another. -/
def KeepsFrom (n : Nat) (m m' : Machine Vm) : Prop :=
  ∀ k, n ≤ k → m.registers.sp.toNat + 8 * (k + 1) ≤ m.host.stack.base.toNat + m.host.stack.size →
    m'.host.stack.read64? (m.registers.sp + UInt64.ofNat (8 * k))
      = m.host.stack.read64? (m.registers.sp + UInt64.ofNat (8 * k))

/-- A machine that is back at a call: the base and the caller's slots are as they were, so many calls
are noted, and in place of the arguments so many results are on the stack. -/
structure Restored (g : Function) (call m : Machine Vm) (depth results : Nat) : Prop where
  base : m.registers.bp = call.registers.bp
  depth : m.host.calls.depth = depth
  top : m.registers.sp.toNat + 8 * results = call.registers.sp.toNat + 8 * g.argumentCount
  frame : KeepsFrom g.argumentCount call m

/-- A call is noted, and nothing else happens. -/
structure Noted (before call : Machine Vm) : Prop where
  runs : Runs before call
  base : call.registers.bp = before.registers.bp
  top : call.registers.sp = before.registers.sp
  depth : call.host.calls.depth = before.host.calls.depth + 1
  frame : KeepsFrom 0 before call

/-- What a call of a function leaves behind.

* `successor`: the machine is behind the call.
* `within`: no slot that was in use at the call has changed while the function ran.
* `restored`: the caller is as it was, but for its arguments.
* `resumes`: the note of the call is dropped, and the result pushed if there is one. -/
structure Balanced (g : Function) (before call first after : Machine Vm) : Prop where
  successor : ∃ op, call.next? = some op ∧
    after.registers.ip = call.registers.ip + UInt64.ofNat op.length
  within : ∀ n m, Nested first n m → KeepsFrom 0 call m
  restored : Restored g call after call.host.calls.depth 0
  resumes : ∃ dropped, Runs after dropped ∧
    Restored g call dropped before.host.calls.depth 0 ∧
    (g.definition.returnType ≠ .void → ∃ resumed, Runs dropped resumed ∧
      Restored g call resumed before.host.calls.depth 1)

section Frames

variable {x : Fixed} {root : FunctionId} {bottom : List UInt64}
  {callers : List (Activation UInt64)} {v u : View} {m m' : Machine Vm} {g : Function}

theorem Shows.toNat_sp (shows_ : Shows x v m) :
    m.registers.sp.toNat = x.stackBase.toNat + x.stackSize - 8 * v.words.length := by
  rw [shows_.sp, shows_.toNat_place]

/-- The end of the stack. -/
theorem Shows.place_zero (shows_ : Shows x v m) : x.place 0 = m.host.stack.stop := by
  unfold Fixed.place Memory.Region.stop
  rw [Nat.mul_zero, Nat.sub_zero, UInt64.ofNat_add, UInt64.ofNat_toNat, shows_.stackBase,
    shows_.stackSize]

/-- Words that two machines show have not changed. -/
theorem keepsFrom_of_suffix (shows_ : Shows x v m) (shows' : Shows x u m')
    (suffix : v.words.drop n <:+ u.words) : KeepsFrom n m m' := by
  intro k above inside
  have fits := shows_.fits
  rw [shows_.toNat_sp, shows_.stackBase, shows_.stackSize] at inside
  have bound : k < v.words.length := by omega
  obtain ⟨w, here⟩ : ∃ w, v.words[k]? = some w := ⟨_, List.getElem?_eq_getElem bound⟩
  have read := shows_.spells.word k w here
  obtain ⟨front, split⟩ := suffix
  have here' : (v.words.drop n)[k - n]? = some w := by
    rw [List.getElem?_drop, Nat.add_sub_cancel' above]
    exact here
  have read' := Spells.at shows'.spells shows'.fixed_stack split.symm here'
  rw [List.length_drop, show v.words.length - n - (k - n) = v.words.length - k by omega,
    shows_.place_sub (Nat.le_of_lt bound)] at read'
  rw [shows_.sp, read, read']

theorem restored_of_shows (shows_ : Shows x v call) (shows' : Shows x u m) (results : List UInt64)
    (enough : g.argumentCount ≤ v.words.length) (base : u.bp = v.bp)
    (words : u.words = results ++ v.words.drop g.argumentCount) :
    Restored g call m u.calls.length results.length := by
  refine ⟨?_, shows'.lists.depth, ?_, ?_⟩
  · rw [shows'.bp, shows_.bp, base]
  · have fits := shows'.fits
    have fits' := shows_.fits
    rw [shows'.toNat_sp, shows_.toNat_sp]
    rw [words, List.length_append, List.length_drop] at fits ⊢
    omega
  · refine keepsFrom_of_suffix shows_ shows' ?_
    rw [words]
    exact List.suffix_append _ _

theorem runs_of_gives (ready : x.program.Runnable) (op : Op) (here : x.program.op? v.ip = some op)
    (gives : Gives x { v with ip := v.ip + UInt64.ofNat op.length }
      (execute (v.ip + UInt64.ofNat op.length) op) () u fun _ _ => False)
    (shows_ : Shows x v m) : ∃ m', Runs m m' ∧ Shows x u m' := by
  have running : m.registers.ip ≠ haltAddress := by
    intro halted
    rw [← shows_.ip, halted, ready.op?_halt] at here
    cases here
  obtain ⟨m', shows', stepped⟩ := execute_of_shows shows_ here
  have after := gives m' shows'
  cases run : execute (v.ip + UInt64.ofNat op.length) op m' with
  | ok a m'' =>
    rw [run] at after stepped
    obtain ⟨w, shows'', _, same⟩ := after
    rw [same] at shows''
    exact ⟨m'', ⟨running, stepped⟩, shows''⟩
  | error e m'' =>
    rw [run] at after
    exact after.2.elim

variable {after : Machine Vm}

theorem Resuming.resumes {a : Activation UInt64} {result : UInt64} {world : World}
    (resuming : Resuming x root g a callers result world) (ready : x.program.Runnable)
    (shows_ : Shows x v call)
    (words : v.words = a.frame (baseOf x bottom callers) (spine x bottom callers))
    (base : v.bp = baseOf x bottom (a :: callers)) (room : 8 * (v.words.length + 1) ≤ x.stackSize)
    (shows' : Shows x (.back x bottom a callers g.argumentCount result world) after) :
    ∃ dropped, Runs after dropped ∧ Restored g call dropped callers.length 0 ∧
      (g.definition.returnType ≠ .void → ∃ resumed, Runs dropped resumed ∧
        Restored g call resumed callers.length 1) := by
  have enough : g.argumentCount ≤ v.words.length := words ▸ resuming.le_length _ _
  have rest : (a.without g.argumentCount).frame (baseOf x bottom callers) (spine x bottom callers)
      = v.words.drop g.argumentCount := by
    rw [words, drop_frame resuming.awaits.enough]
  have count : (callers.map Activation.site).length = callers.length := List.length_map _
  obtain ⟨dropped, runs, shows''⟩ := runs_of_gives
    (v := .back x bottom a callers g.argumentCount result world) ready .popFrame
    (ready.op?_eq_some resuming.awaits.dropped) (gives_popFrame rfl) shows'
  refine ⟨dropped, runs, ?_, fun some_ => ?_⟩
  · rw [← count]
    exact restored_of_shows shows_ shows'' [] enough base.symm rest
  · have next := resuming.awaits.next
    rw [if_neg some_] at next
    have room' : 8 * ((v.words.drop g.argumentCount).length + 1) ≤ x.stackSize := by
      rw [List.length_drop]
      omega
    rw [← rest] at room'
    have pushed : Gives x ⟨x.program.returnAddress a + 1 + 1, baseOf x bottom (a :: callers), result,
        (a.without g.argumentCount).frame (baseOf x bottom callers) (spine x bottom callers),
        callers.map Activation.site, world⟩
        (execute (x.program.returnAddress a + 1 + 1) .pushResult) () _ fun _ _ => False :=
      gives_registersOf.bind (gives_push_of_room room')
    obtain ⟨resumed, runs', shown⟩ := runs_of_gives
      (v := { View.back x bottom a callers g.argumentCount result world with
        ip := x.program.returnAddress a + 1
        calls := callers.map Activation.site }) ready .pushResult (ready.op?_eq_some next.1) pushed
      shows''
    refine ⟨resumed, runs', ?_⟩
    rw [← count]
    exact restored_of_shows shows_ shown [result] enough base.symm
      (congrArg (result :: ·) rest)

theorem Stage.balanced {before last : Machine Vm} (stage : Stage x root bottom callers v)
    (grounds : Grounds x root bottom) (shows_ : Shows x v call)
    (depth : call.host.calls.depth = before.host.calls.depth + 1)
    (returned : Returned call first last after) :
    ∃ callee g, x.program.functions.get? callee = some g ∧
      x.program.image.cache.entryOf? callee = some first.registers.ip ∧
      Balanced g before call first after := by
  obtain ⟨a, callee, g, called, found, entry, words, base, table, ⟨op, next, target⟩, staged⟩ :=
    stage.enters grounds shows_ returned.enters returned.calls
  -- The function that returns is the one that was called.
  obtain ⟨inner, count, staged'⟩ := staged.nested grounds returned.nested
  obtain rfl := List.eq_nil_of_length_eq_zero count
  obtain ⟨g', result, world, resuming, shows'⟩ :=
    staged'.leaves grounds returned.leaves returned.returns
  obtain ⟨callee', called', found'⟩ := resuming.called
  cases called.symm.trans called'
  cases found.symm.trans found'
  have enough : g.argumentCount ≤ v.words.length := words ▸ resuming.le_length _ _
  have noted : before.host.calls.depth = callers.length := by
    have depth' := shows_.lists.depth
    rw [table, List.length_map, List.length_cons] at depth'
    omega
  -- The slot that the return address took is free again for the result.
  have room : 8 * (v.words.length + 1) ≤ x.stackSize := by
    obtain ⟨w, shown, stage'⟩ := staged
    have long := stage'.suffix.length_le
    have fits := shown.fits
    rw [spine, List.length_cons, ← words] at long
    omega
  refine ⟨callee, g, found, entry, ⟨op, next, ?_⟩, fun n m nested => ?_, ?_, ?_⟩
  · rw [shows'.ip, shows_.ip, target]
    rfl
  · obtain ⟨inner, _, u, shown, stage'⟩ := staged.nested grounds nested
    refine keepsFrom_of_suffix shows_ shown ?_
    rw [List.drop_zero, words]
    exact (List.suffix_cons _ _).trans ((suffix_spine x bottom inner _).trans stage'.suffix)
  · rw [shows_.lists.depth, table]
    refine restored_of_shows shows_ shows' [] enough base.symm ?_
    rw [words, drop_frame resuming.awaits.enough]
    rfl
  · rw [noted]
    exact resuming.resumes grounds.ready shows_ words base room shows'

end Frames

/-! ## Calls from outside -/

namespace Vm

section Visits

variable {vm : Vm} {id : FunctionId} {arguments : List UInt64} {m : Machine Vm}

theorem Starts.staged (starts : vm.Starts id arguments m) (grounded : vm.fixed.Grounded) :
    Grounds vm.fixed id (bottom arguments) ∧ Staged vm.fixed id (bottom arguments) [] m ∧
      (∃ f, vm.functions.get? id = some f ∧ f.argumentCount = arguments.length) ∧
      m.atCall = false := by
  obtain ⟨f, k, code, count, shows_⟩ := starts.shows grounded
  have entered : f.argumentCount ≤ arguments.reverse.length :=
    Nat.le_of_eq (count.trans List.length_reverse.symm)
  have shaped := shaped_start grounded.ready code.found code.body count
  exact ⟨⟨grounded.ready, grounded.space, grounded.table, f, arguments.reverse, code.found, rfl,
      entered⟩,
    ⟨_, shows_, .entering code (spine_start _ arguments) count.symm shaped⟩,
    ⟨f, code.found, count⟩, shows_.atCall _ (grounded.ready.op?_eq_some code.enter)⟩

theorem Starts.eq {m' : Machine Vm} (starts : vm.Starts id arguments m)
    (starts' : vm.Starts id arguments m') : m' = m := by
  obtain ⟨entry, found, pushed⟩ := starts
  obtain ⟨entry', found', pushed'⟩ := starts'
  cases found.symm.trans found'
  cases pushed.symm.trans pushed'
  rfl

/-- A call comes to stages until its outermost return. -/
theorem Visits.staged (visits : vm.Visits id arguments m) (grounded : vm.fixed.Grounded)
    (running : m.registers.ip ≠ haltAddress) :
    Grounds vm.fixed id (bottom arguments) ∧
      ∃ callers, Staged vm.fixed id (bottom arguments) callers m := by
  obtain ⟨first, starts, steps⟩ := visits
  obtain ⟨grounds, staged, _⟩ := starts.staged grounded
  rcases staged_of_steps staged grounds steps with staged' | ⟨_, _, _, _, _, halted⟩
  · exact ⟨grounds, staged'⟩
  · exact absurd halted running

/-- A call that a run comes to was noted right before. -/
theorem Visits.noted (visits : vm.Visits id arguments call) (grounded : vm.fixed.Grounded)
    (calls : call.atCall = true) :
    ∃ before callers u, vm.Visits id arguments before ∧ Noted before call ∧
      Grounds vm.fixed id (bottom arguments) ∧ Shows vm.fixed u call ∧
      Stage vm.fixed id (bottom arguments) callers u := by
  obtain ⟨first, starts, steps⟩ := visits
  rcases steps.cases_tail with rfl | ⟨before, steps, runs⟩
  · obtain ⟨_, _, _, quiet⟩ := starts.staged grounded
    rw [quiet] at calls
    cases calls
  · have visits : vm.Visits id arguments before := ⟨first, starts, steps⟩
    obtain ⟨grounds, callers, v, shows_, stage⟩ := visits.staged grounded runs.1
    obtain ⟨u, note, shows', stage', same⟩ := stage.noted grounds shows_ runs calls
    have words : u.words = v.words := by rw [same]
    refine ⟨before, callers, u, visits, ⟨runs, ?_, ?_, ?_, ?_⟩, grounds, shows', stage'⟩
    · rw [shows'.bp, shows_.bp, same]
    · rw [shows'.sp, shows_.sp, words]
    · rw [shows'.lists.depth, shows_.lists.depth, same]
      rfl
    · refine keepsFrom_of_suffix shows_ shows' ?_
      rw [words]
      exact List.drop_suffix 0 _

theorem run_ends (grounded : vm.fixed.Grounded) {fuel : Nat} {entry value : UInt64}
    (found : vm.entryFor id arguments.length = .ok entry)
    (ran : Machine.run fuel arguments (Machine.start vm.clearCalls entry) = .ok (some value) m) :
    m.registers.ip = haltAddress ∧ vm.Visits id arguments m ∧
      ∃ first last, vm.Starts id arguments first ∧ Nested first 0 last ∧ last.atReturn = true ∧
        Runs last m ∧ Staged vm.fixed id (bottom arguments) [] last := by
  rw [run_eq] at ran
  cases pushed : (do pushAll arguments; push haltAddress :
      Action Vm Unit) (Machine.start vm.clearCalls entry) with
  | error e first =>
    rw [bind_of_error pushed] at ran
    cases ran
  | ok _ first =>
    rw [bind_of_ok pushed] at ran
    have starts : vm.Starts id arguments first := ⟨entry, found, pushed⟩
    have cases_ := resume_cases fuel first
    rw [ran] at cases_
    obtain ⟨steps, answer⟩ := cases_
    have halted : m.registers.ip = haltAddress := by
      by_contra running
      rw [if_neg running] at answer
      cases answer
    -- A machine in a stage is still running, so the outermost function has returned.
    obtain ⟨grounds, staged, _⟩ := starts.staged grounded
    rcases staged_of_steps staged grounds steps with
      ⟨callers, staged'⟩ | ⟨last, staged', nested, returns, runs, _⟩
    · exact absurd halted (staged'.running grounds)
    · exact ⟨halted, ⟨first, starts, steps⟩, first, last, starts, nested, returns, runs, staged'⟩

/-- A run that ends was at no call that did not return. -/
theorem Visits.returns (visits : vm.Visits id arguments call) (grounded : vm.fixed.Grounded)
    (calls : call.atCall = true) (ends : vm.Visits id arguments m)
    (halted : m.registers.ip = haltAddress) :
    ∃ first last after, Returned call first last after := by
  obtain ⟨_, callers, v, _, _, grounds, shows_, stage⟩ := visits.noted grounded calls
  have running : call.registers.ip ≠ haltAddress :=
    Staged.running ⟨v, shows_, stage⟩ grounds
  obtain ⟨start, starts, steps⟩ := visits
  obtain ⟨start', starts', steps'⟩ := ends
  obtain rfl := starts.eq starts'
  -- Steps are determined, so the end of the run lies ahead of the call and not behind it.
  have onward : Steps call m := by
    rcases steps.total_of_right_unique (fun _ _ _ => fun runs runs' => (runs.eq runs').symm)
      steps' with onward | back
    · exact onward
    · rcases back.cases_head with rfl | ⟨_, runs, _⟩
      · exact .refl
      · exact absurd halted runs.1
  rcases onward.cases_head with rfl | ⟨first, runs, rest⟩
  · exact absurd halted running
  · obtain ⟨a, _, _, _, _, _, _, _, _, _, staged⟩ := stage.enters grounds shows_ runs calls
    rcases nested_or_returned rest with ⟨n, nested⟩ | ⟨last, after, nested, returns, leaves, _⟩
    · obtain ⟨inner, _, staged'⟩ := staged.nested grounds nested
      exact absurd halted (staged'.running grounds)
    · exact ⟨first, last, after, calls, runs, nested, returns, leaves⟩

end Visits

/-- **Calls are balanced.** After any calls, whether they ended or not, in every state of a further
call that is about to go to a function: the call was noted right before; if it returns, then behind
it, with the base pointer, the number of noted calls and every slot of the caller below the arguments
as they were, and with the arguments gone, after which the note is dropped and the result pushed if
there is one. A run ends only with the outermost return, which goes to the halt address, with nothing
on the stack and no call noted, and after every call in it has returned. -/
theorem calls_balanced {initial vm : Vm} (runnable : initial.Runnable)
    (invoked : Invoked (fun _ _ _ => True) initial vm) (id : FunctionId) (arguments : List UInt64) :
    (∀ call, vm.Visits id arguments call → call.atCall = true →
      ∃ before, vm.Visits id arguments before ∧ Noted before call ∧
        ∀ first last after, Returned call first last after →
          ∃ callee g, vm.functions.get? callee = some g ∧
            vm.image.cache.entryOf? callee = some first.registers.ip ∧
            Balanced g before call first after) ∧
    ∀ fuel entry value m, vm.entryFor id arguments.length = .ok entry →
      Machine.run fuel arguments (Machine.start vm.clearCalls entry) = .ok (some value) m →
      m.registers.sp = m.host.stack.stop ∧ m.host.calls.depth = 0 ∧
      (∃ first last, vm.Starts id arguments first ∧ Nested first 0 last ∧ last.atReturn = true ∧
        last.host.stack.read64? last.registers.sp = some haltAddress ∧ Runs last m) ∧
      ∀ call, vm.Visits id arguments call → call.atCall = true →
        ∃ first last after, Returned call first last after := by
  have grounded : vm.fixed.Grounded :=
    invoked.fixed.symm ▸ runnable.grounded
  constructor
  · intro call visits calls
    obtain ⟨before, callers, u, visits', noted, grounds, shows_, stage⟩ :=
      visits.noted grounded calls
    exact ⟨before, visits', noted, fun first last after returned =>
      stage.balanced grounds shows_ noted.depth returned⟩
  · intro fuel entry value m found ran
    obtain ⟨halted, visits, first, last, starts, nested, returns, runs, v, shows_, stage⟩ :=
      run_ends grounded found ran
    obtain ⟨grounds, _, ⟨f, known, count⟩, _⟩ := starts.staged grounded
    obtain ⟨_, _, _, _, _, none, _⟩ | ⟨_, f', result, world, words, known', shows'⟩ :=
      stage.returns grounds shows_ runs returns
    · cases none
    cases known.symm.trans known'
    have none : (bottom arguments).tail.drop f.argumentCount = [] := by
      rw [count]
      exact List.drop_eq_nil_of_le (Nat.le_of_eq List.length_reverse)
    rw [none] at shows'
    refine ⟨?_, shows'.lists.depth, ⟨first, last, starts, nested, returns, ?_, runs⟩, ?_⟩
    · rw [← shows'.place_zero]
      exact shows'.sp
    · have spells := shows_.spells
      rw [words] at spells
      rw [shows_.sp, words]
      exact spells.head
    · exact fun call visits' calls => visits'.returns grounded calls visits halted

/-! ## A program of two functions

One function calls the other, which returns at once. -/

namespace Sample

def outer : FunctionId := ⟨5, 0⟩

def inner : FunctionId := ⟨6, 0⟩

def declared : Vm :=
  leaves (register (.free "inner" [] .void) (leaves (register (.free "outer" [] .void) empty)))

/-- The machine with both functions, before its program is loaded. -/
def defined : Vm :=
  leaves (define inner ⟨[], #[.ret]⟩ (leaves (define outer ⟨[], #[.call inner, .ret]⟩ declared)))

def nested : Vm := leaves (load defined)

theorem defined_assembled : Assembled defined := by
  have unused : empty.signatures.contains
      ((Definition.free "outer" [] .void).signature empty.types) = false := by
    refine unused_of_natives fun routine => ?_
    cases routine <;> decide +kernel
  have unused' : (leaves (register (.free "outer" [] .void) empty)).signatures.contains
      ((Definition.free "inner" [] .void).signature .primitives) = false := by
    show (empty.signatures.insert _ _).contains _ = false
    rw [Std.HashMap.contains_insert, unused_of_natives, Bool.or_false]
    · decide +kernel
    · intro routine
      cases routine <;> decide +kernel
  have first := assembled_register (.create create_eq) rfl (by decide +kernel) (by decide +kernel)
    unused
  have second := assembled_register first rfl (by decide +kernel) (by decide +kernel) unused'
  exact .define _ _ (.define _ _ second)

theorem nested_runnable : nested.Runnable :=
  (loaded_of_loadsWell defined_assembled (by decide +kernel)).2.runnable

/-- The machine instructions of both functions that a run comes to. -/
def nestedOps : List (UInt64 × Op) :=
  [(0x100000000, .enter 0 0), (0x100000005, .pushFrame outer.toBits 0),
    (0x100000012, .callAbsolute 0x100000020), (0x100000020, .enter 0 0), (0x100000025, .leave),
    (0x100000026, .ret 0)]

theorem nested_evaluated : (∀ entry ∈ nestedOps, nested.fixed.program.op? entry.1 = some entry.2) ∧
    nested.fixed.stackSize = 4096 ∧ 8 + 16 * nested.fixed.capacity ≤ nested.fixed.callsSize ∧
    nested.fixed.callsBase.toNat + (8 + 16 * (0 + 1)) < 2 ^ 64 ∧ ¬ nested.fixed.capacity ≤ 0 ∧
    yields Memory.codeOrigin (nested.entryFor outer ([] : List UInt64).length) = true := by
  decide +kernel

theorem op_nested {ip : UInt64} {op : Op} (here : nestedOps[n]? = some (ip, op)) :
    nested.fixed.program.op? ip = some op :=
  nested_evaluated.1 (ip, op) (List.mem_of_getElem? here)

variable {E : Stop → World → Prop}

variable {x : Fixed} {v : View} {next : UInt64}

/-- The frame of a function without arguments and locals. -/
theorem gives_enter_none (room : 8 * (v.words.length + 1) ≤ x.stackSize) :
    Gives x v (execute next (.enter 0 0)) ()
      { v with bp := x.place (v.words.length + 1), words := v.bp :: v.words } E :=
  gives_registersOf.bind ((gives_push_of_room room).bind (gives_setBase.bind
    ((gives_pure ()).bind (gives_pure ()))))

theorem gives_callAbsolute {address : UInt64} (room : 8 * (v.words.length + 1) ≤ x.stackSize)
    (managed : Native.atAddress? address = none) :
    Gives x v (execute next (.callAbsolute address)) ()
      { v with ip := address, words := next :: v.words } E := by
  unfold execute
  dsimp only
  rw [managed]
  exact (gives_push_of_room room).bind (gives_goto address)

/-- The outer function comes to its call, which returns. -/
theorem nested_returns : ∃ call first last after, nested.Visits outer [] call ∧
    Returned call first last after := by
  have ready := nested_runnable.grounded.ready
  obtain ⟨_, size, roomy, below, some_, evaluated⟩ := nested_evaluated
  have found := eq_ok_of_yields evaluated
  obtain ⟨start, starts, shown⟩ := starts_of_gives
    (v := ⟨Memory.codeOrigin, 0, 0, [haltAddress], [], nested.world⟩)
    nested_runnable.grounded.below found
    ((gives_pure ()).bind (gives_push_of_room (by rw [size]; decide)))
  obtain ⟨noting, runs, shown⟩ := runs_of_gives ready (.enter 0 0) (op_nested (n := 0) rfl)
    (gives_enter_none (by rw [size]; decide)) shown
  obtain ⟨call, runs', atCall⟩ := runs_of_gives ready (.pushFrame outer.toBits 0)
    (op_nested (n := 1) rfl) (gives_pushFrame (by exact below)
      (fun full => absurd full (by exact some_)) (fun cramped => absurd roomy cramped)) shown
  obtain ⟨first, enters, atFirst⟩ := runs_of_gives ready (.callAbsolute 0x100000020)
    (op_nested (n := 2) rfl) (gives_callAbsolute (by rw [size]; decide) (by decide)) atCall
  obtain ⟨middle, makes, atMiddle⟩ := runs_of_gives ready (.enter 0 0) (op_nested (n := 3) rfl)
    (gives_enter_none (by rw [size]; decide)) atFirst
  obtain ⟨last, drops, atLast⟩ := runs_of_gives ready .leave (op_nested (n := 4) rfl)
    (gives_leave (show _ = [] ++ _ from rfl) rfl) atMiddle
  obtain ⟨back, leaves, _⟩ := runs_of_gives ready (.ret 0) (op_nested (n := 5) rfl)
    (gives_ret (n := 0) (by decide) rfl (Nat.zero_le _)) atLast
  refine ⟨call, first, last, back, ⟨start, starts, .tail (.single runs) runs'⟩, ?_,
    enters, .plain (.plain .refl ?_ ?_ makes) ?_ ?_ drops, ?_, leaves⟩
  · rw [atCall.atCall (.callAbsolute 0x100000020) (op_nested (n := 2) rfl)]
    decide
  · exact atFirst.atCall (.enter 0 0) (op_nested (n := 3) rfl)
  · exact atFirst.atReturn (.enter 0 0) (op_nested (n := 3) rfl)
  · exact atMiddle.atCall .leave (op_nested (n := 4) rfl)
  · exact atMiddle.atReturn .leave (op_nested (n := 4) rfl)
  · exact atLast.atReturn (.ret 0) (op_nested (n := 5) rfl)

end Sample

/-- The inner function leaves the frame of the outer one as it was. -/
theorem calls_balanced_nested :
    ∃ before call first last after callee g, Sample.nested.Visits Sample.outer [] call ∧
      Noted before call ∧ Returned call first last after ∧
      Sample.nested.functions.get? callee = some g ∧ Balanced g before call first after := by
  obtain ⟨balanced, _⟩ := calls_balanced Sample.nested_runnable .none Sample.outer []
  obtain ⟨call, first, last, after, visits, returned⟩ := Sample.nested_returns
  obtain ⟨before, _, noted, each⟩ := balanced call visits returned.calls
  obtain ⟨callee, g, found, _, kept⟩ := each first last after returned
  exact ⟨before, call, first, last, after, callee, g, visits, noted, returned, found, kept⟩

end Vm

end ManagedCode
