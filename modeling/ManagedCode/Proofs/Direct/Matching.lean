import ManagedCode.Proofs.Direct.Decoding

/-!
# Both sides of an instruction

An instruction is executed on words and on the values that they stand for.

* `Matches`: both sides lead to the same.
* `Represents.goOn`, `Represents.inWorld`, …: what words stand for after a change.
* `Alongside`: what holds of both sides before an instruction.
* `matches_call`, `matches_ret`: calls and returns.
-/

namespace ManagedCode.Direct

open Bytecode TypeSystem
open Heap (HasType)
open Machine (Stop)
open Number (Single)

/-- Where an instruction leads on words and on values is the same. The outermost function returns
values of the type `returns`. -/
def Matches (types : TypeTable) (functions : FunctionTable) (returns : TypeId) :
    Outcome UInt64 → EStateM.Result End State Unit → Prop
  | .next c, .ok _ s => Represents types functions c s
  | .finished value world, .error (.finished value') s =>
    value' = value.map (decode types returns) ∧ (value = none ↔ returns = .void) ∧
      Holds types world.heap s.store ∧ s.output = world.output
  | .stopped why world, .error (.stopped why') s =>
    why' = why ∧ Holds types world.heap s.store ∧ s.output = world.output
  | _, _ => False

/-! ## Instructions that go on -/

def State.goto (s : State) (index : Nat) (operands : List Value) : State :=
  { s with current := { s.current with index, operands } }

def State.goOn (s : State) (operands : List Value) : State :=
  s.goto (s.current.index + 1) operands

variable {values : List Value}

section Step

variable {types : TypeTable} {functions : FunctionTable} {c : Configuration UInt64} {s : State}
  {f g : Function} {instr : Instr} {after : OperandTypes} {returns : TypeId}

section Current

variable (rep : Represents types functions c s) (found : functions.get? c.current.function = some f)

include rep found

theorem Represents.read : s.current = Direct.read types f c.current := by
  obtain ⟨f', found', same⟩ := rep.current
  cases found.symm.trans found'
  exact same

theorem Represents.goto {index : Nat} {operands : List UInt64}
    (same : values = decodeAll types (f.operandTypes index) operands) :
    Represents types functions (c.goto index operands) (s.goto index values) := by
  refine ⟨⟨f, found, ?_⟩, rep.callers, rep.store, rep.output⟩
  show ({ s.current with index, operands := values } : Activation Value) = _
  rw [rep.read found, same]
  rfl

theorem Represents.goOn (flow : Typing.Flows ⟨types, functions, f⟩ c.current.index instr after)
    (goes : instr.endsBlock = false) {operands : List UInt64}
    (same : values = decodeAll types after operands) :
    Represents types functions (c.goOn operands) (s.goOn values) := by
  have index : s.current.index = c.current.index := congrArg Activation.index (rep.read found)
  have left : f.operandTypes (c.current.index + 1) = after := (flow.next goes).2.2
  unfold State.goOn
  rw [index]
  exact rep.goto found (left ▸ same)

end Current

theorem Represents.inWorld (rep : Represents types functions c s) (world : World) {store : Store}
    {output : String} (holds : Holds types world.heap store) (said : output = world.output) :
    Represents types functions (c.inWorld world) { s with store, output } :=
  ⟨rep.current, rep.callers, holds, said⟩

theorem Represents.setLocal (rep : Represents types functions c s)
    (found : functions.get? c.current.function = some f) {n : Nat} {type : TypeId}
    (here : f.locals[n]? = some type) (w : UInt64) :
    Represents types functions (c.setLocal n w)
      { s with current :=
        { s.current with locals := s.current.locals.set n (decode types type w) } } := by
  refine ⟨⟨f, found, ?_⟩, rep.callers, rep.store, rep.output⟩
  show ({ s.current with locals := _ } : Activation Value) = _
  rw [rep.read found]
  unfold Direct.read Configuration.setLocal
  dsimp only
  rw [decodeAll_set here]

variable {outcome : Outcome UInt64} {result : EStateM.Result End State Unit}

theorem matches_next {c' : Configuration UInt64} {s' : State} (ran : outcome = .next c')
    (ran' : result = .ok () s') (rep : Represents types functions c' s') :
    Matches types functions returns outcome result := by
  rw [ran, ran']
  exact rep

theorem Represents.stopped (rep : Represents types functions c s) {why : Stop} {s' : State}
    (ran : outcome = .stopped why c.world) (ran' : result = .error (.stopped why) s')
    (store : s'.store = s.store) (output : s'.output = s.output) :
    Matches types functions returns outcome result := by
  rw [ran, ran']
  exact ⟨rfl, store ▸ rep.store, output.trans rep.output⟩

end Step

/-! ## What actions give -/

section Actions

variable {s : State} {rest : List Value} {name : UInt64} {use : Machine.NullUse}

theorem State.withOperands_withOperands (s : State) (first second : List Value) :
    (s.withOperands first).withOperands second = s.withOperands second :=
  rfl

theorem pop_eq {value : Value} (tops : s.current.operands = value :: rest) :
    pop s = .ok value (s.withOperands rest) := by
  unfold pop
  rw [tops]

theorem popInt_eq {value : Int32} (tops : s.current.operands = .int value :: rest) :
    popInt s = .ok value (s.withOperands rest) :=
  bind_of_ok (pop_eq tops)

theorem popFloat_eq {value : Single} (tops : s.current.operands = .float value :: rest) :
    popFloat s = .ok value (s.withOperands rest) :=
  bind_of_ok (pop_eq tops)

theorem popBool_eq {value : Bool} (tops : s.current.operands = .bool value :: rest) :
    popBool s = .ok value (s.withOperands rest) :=
  bind_of_ok (pop_eq tops)

theorem popName_null (tops : s.current.operands = .ref 0 :: rest) :
    popName use s = .error (.stopped (.trap (.null use))) (s.withOperands rest) :=
  bind_of_ok (pop_eq tops)

theorem popName_eq (tops : s.current.operands = .ref name :: rest) (nonnull : name ≠ 0) :
    popName use s = .ok name (s.withOperands rest) := by
  unfold popName
  rw [bind_of_ok (pop_eq tops)]
  dsimp only
  rw [if_neg nonnull]
  rfl

theorem expect_eq {α : Type} {a? : Option α} {a : α} (there : a? = some a) (s : State) :
    expect a? s = .ok a s := by
  rw [there]
  rfl

theorem object_eq {o : Object} (there : s.store.objects name = some o) (operands : List Value) :
    object name (s.withOperands operands) = .ok o (s.withOperands operands) :=
  expect_eq there _

end Actions

/-- Typed activations of a checked program that stand for a state; the innermost one is of the
function `f`. -/
structure Alongside (p : Program) (root : FunctionId) (c : Configuration UInt64) (s : State)
    (f : Function) : Prop where
  ready : p.Ready
  typed : c.Typed p.types p.functions true root
  rep : Represents p.types p.functions c s
  found : p.functions.get? c.current.function = some f

/-- An instruction leads to the same on words and on values. -/
abbrev MatchesOn (p : Program) (returns : TypeId) (f : Function) (c : Configuration UInt64)
    (s : State) (instr : Instr) : Prop :=
  Matches p.types p.functions returns (Words.perform p.types p.functions f c instr)
    (perform p.types p.functions f instr s)

section Alongside

variable {p : Program} {root : FunctionId} {c : Configuration UInt64} {s : State} {f : Function}
  {instr : Instr} {after : OperandTypes}

section

variable (both : Alongside p root c s f)

include both

theorem Alongside.current : c.current.Fits p.functions (HasType p.types true c.world.heap) f :=
  both.typed.fits.current_of_found both.found

theorem Alongside.read : s.current = Direct.read p.types f c.current :=
  both.rep.read both.found

theorem Alongside.operands :
    s.current.operands = decodeAll p.types (f.operandTypes c.current.index) c.current.operands :=
  congrArg Activation.operands both.read

theorem Alongside.goOn (flow : p.Flows f c.current instr after) (goes : instr.endsBlock = false)
    {operands : List UInt64} (same : values = decodeAll p.types after operands) :
    Represents p.types p.functions (c.goOn operands) (s.goOn values) :=
  both.rep.goOn both.found flow goes same

end

end Alongside

/-! ## Calls and returns -/

section Calls

variable {p : Program} {root callee : FunctionId} {c : Configuration UInt64} {s s' : State}
  {f g : Function} {instr : Instr} {after : OperandTypes} {returns : TypeId}

variable {types : TypeTable} {value : Option UInt64}

/-- The first of the arguments among the operands of a caller is null if its word is zero. -/
theorem head?_eq_null_iff {parameters low : List TypeId} {ws : List UInt64} {owner : TypeId}
    (first : parameters.head? = some owner) (reference : types.isReference owner = true)
    (enough : parameters.length ≤ ws.length) :
    ((decodeAll types (parameters.reverse ++ low) ws).take parameters.length).reverse.head?
        = some .null ↔ ws[parameters.length - 1]? = some 0 := by
  have positive : 0 < parameters.length := by
    cases parameters with
    | nil => cases first
    | cons => exact Nat.succ_pos _
  have last : (ws.take parameters.length).reverse.head? = ws[parameters.length - 1]? := by
    rw [List.head?_reverse, List.getLast?_eq_getElem?, List.length_take_of_le enough,
      List.getElem?_take_of_lt (by omega)]
  rw [← decodeAll_take parameters enough, decodeAll, List.head?_zipWith, first, last]
  cases ws[parameters.length - 1]? with
  | none => constructor <;> intro absent <;> cases absent
  | some w =>
    dsimp only
    rw [decode_reference reference]
    constructor
    · intro null
      cases null
      rfl
    · intro zero
      cases zero
      rfl

theorem matches_enter (both : Alongside p root c s f)
    (flow : p.Flows f c.current instr after)
    (calls : instr.callee? = some callee) (known : p.functions.get? callee = some g)
    (native : g.native? = none) :
    Matches p.types p.functions returns
      (c.enter callee g.argumentCount (List.replicate g.locals.length 0))
      (enter p.types callee g (s.current.operands.take g.argumentCount).reverse
        (s.withOperands (s.current.operands.drop g.argumentCount))) := by
  have current := both.current
  have body := hasBody_of_call both.ready current flow.code calls known native
  have none : g.operandTypes 0 = [] :=
    (Typing.entry_of_checked (both.ready.checked _ _ known body).body).2
  obtain ⟨low, before, _, enough⟩ := operands_of_call current flow calls known
  refine matches_next (if_pos enough) rfl ⟨⟨g, known, ?_⟩, ?_, both.rep.store, both.rep.output⟩
  · rw [both.operands, before]
    unfold Direct.read
    dsimp only
    rw [none, decodeAll_zeros]
    congr 1
    exact (decodeAll_take g.definition.parameters enough).symm
  · show Waiting _ _ callee (c.current :: c.callers)
      ({ s.current with operands := s.current.operands.drop g.argumentCount } :: s.callers)
    rw [both.read]
    exact .cons both.found known both.rep.callers

/-- What a function returned, on top of the operands of its caller. -/
theorem decodeAll_results {low : List TypeId}
    (none : value = none ↔ f.definition.returnType = .void) (rest : List UInt64) :
    decodeAll types (Typing.resultTypes f.definition ++ low) (value.toList ++ rest)
      = (value.map (decode types f.definition.returnType)).toList ++ decodeAll types low rest := by
  unfold Typing.resultTypes
  cases value with
  | none =>
    rw [if_pos (none.mp rfl)]
    rfl
  | some w =>
    rw [if_neg fun void => nomatch none.mpr void]
    rfl

theorem matches_leave (both : Alongside p root c s f)
    (outermost : c.callers = [] → returns = f.definition.returnType)
    (none : value = none ↔ f.definition.returnType = .void) (callers : s'.callers = s.callers)
    (store : s'.store = s.store) (output : s'.output = s.output) :
    Matches p.types p.functions returns (c.leave f.argumentCount value)
      (leave (value.map (decode p.types f.definition.returnType)) s') := by
  have suspended := both.typed.fits.callers
  have waiting := both.rep.callers
  have holds : Holds p.types c.world.heap s'.store := store ▸ both.rep.store
  have said : s'.output = c.world.output := output.trans both.rep.output
  unfold Configuration.leave leave
  rw [callers]
  cases hc : c.callers with
  | nil =>
    rw [hc] at waiting
    cases hs : s.callers with
    | nil =>
      rw [outermost hc]
      exact ⟨rfl, none, holds, said⟩
    | cons =>
      rw [hs] at waiting
      cases waiting
  | cons a rest =>
    rw [hc] at waiting suspended
    generalize s.callers = others at waiting
    cases waiting with
    | @cons _ _ g g' _ _ found' called outer =>
      cases called.symm.trans both.found
      -- The caller is at a call, so that its operands behind it are the result and what was
      -- below the arguments.
      obtain ⟨⟨g', instr, caller, here, calls⟩, _⟩ := suspended
      cases found'.symm.trans caller.found
      obtain ⟨k, code⟩ := both.ready.code caller.found caller.body
      obtain ⟨instr', after, flow⟩ := both.ready.flows code caller.reachable
      cases here.symm.trans flow.code
      obtain ⟨low, before, left, _⟩ := operands_of_call caller flow calls both.found
      have types : g.operandTypes (a.index + 1) = after :=
        (flow.next (Instr.endsBlock_of_callee? calls)).2.2
      refine ⟨⟨g, found', ?_⟩, outer, holds, said⟩
      unfold Direct.read
      dsimp only
      rw [types, left, before, decodeAll_results none]
      congr 1
      exact congrArg (_ ++ ·) (decodeAll_drop f.definition.parameters).symm

theorem matches_ret (both : Alongside p root c s f)
    (flow : p.Flows f c.current .ret after)
    (outermost : c.callers = [] → returns = f.definition.returnType) :
    Matches p.types p.functions returns (Words.ret f c) (ret f s) := by
  have operands := both.current.operands
  have tops := both.operands
  have effect := flow.effect
  dsimp only at effect
  generalize f.operandTypes c.current.index = stack at effect operands tops
  cases effect
  unfold Words.ret ret
  by_cases void : f.definition.returnType = .void
  · rw [if_pos void, if_pos void]
    exact matches_leave both outermost ⟨fun _ => void, fun _ => rfl⟩ rfl rfl rfl
  · have results : Typing.resultTypes f.definition = [f.definition.returnType] := if_neg void
    rw [results] at operands tops
    obtain ⟨w, rest, top, _, _⟩ := operands_one operands
    rw [top] at tops
    have top : c.operands = w :: rest := top
    rw [if_neg void, if_neg void, pop1_eq top, bind_of_ok (pop_eq tops)]
    have some_ : some w = none ↔ f.definition.returnType = .void :=
      ⟨nofun, fun none => absurd none void⟩
    exact matches_leave both outermost some_ rfl rfl rfl

theorem forM_say (lines : List String) (s : State) :
    lines.forM say s = .ok () { s with output := lines.foldl (· ++ ·) s.output } := by
  induction lines generalizing s with
  | nil => rfl
  | cons line rest ih =>
    have said : say line s = .ok () { s with output := s.output ++ line } := rfl
    exact (bind_of_ok said).trans (ih _)

theorem Waiting.listing {functions : FunctionTable} {callers : List (Activation UInt64)}
    {others : List (Activation Value)} (waiting : Waiting types functions callee callers others) :
    Direct.listing types functions others = Words.listing types functions callers := by
  induction waiting with
  | nil => rfl
  | cons _ _ _ ih => exact congrArg (_ :: ·) ih

theorem Represents.listing (rep : Represents p.types p.functions c s) :
    Direct.listing p.types p.functions (s.current :: s.callers)
      = Words.listing p.types p.functions c.active := by
  obtain ⟨f, _, same⟩ := rep.current
  rw [same]
  exact congrArg (_ :: ·) rep.callers.listing

/-- What the routines that print say. -/
theorem callRoutine_prints (wf : p.types.WellFormed) {routine : Native}
    (collects : routine ≠ .collect) (lists : routine ≠ .printCallStack) {type : TypeId}
    (takes : routine.parameters = [type]) {w : UInt64} {line : String}
    (printed : Vm.printed? routine [w] = some line)
    (tops : s.current.operands = decode p.types type w :: values) :
    callRoutine p.types p.functions routine s
      = .ok () { s.withOperands values with output := s.output ++ line ++ "\n" } := by
  obtain ⟨⟨_, _, _, _, operands⟩, _, _, _⟩ := s
  cases routine with
  | collect => exact absurd rfl collects
  | printCallStack => exact absurd rfl lists
  | printInt =>
    cases takes
    cases printed
    cases tops.trans (congrArg (· :: values) (decode_int wf w))
    rfl
  | printFloat =>
    cases takes
    cases printed
    cases tops.trans (congrArg (· :: values) (decode_float wf w))
    rfl
  | printBool =>
    cases takes
    cases printed
    cases tops.trans (congrArg (· :: values) (decode_bool wf w))
    by_cases zero : w = 0
    · subst zero
      rfl
    · have true_ : (w != 0) = true := bne_iff_ne.mpr zero
      rw [if_neg zero, true_]
      rfl

section

variable (both : Alongside p root c s f) (flow : p.Flows f c.current instr after)
  (calls : instr.callee? = some callee) (known : p.functions.get? callee = some g)

include both flow calls known

theorem matches_callRoutine {routine : Native} (native : g.native? = some routine) :
    Matches p.types p.functions returns (Words.callRoutine p.types p.functions routine c)
      ((do callRoutine p.types p.functions routine; advance : Action Unit) s) := by
  have same : g = .ofNative routine := both.ready.tidy.natives _ _ _ known native
  subst same
  have goes := Instr.endsBlock_of_callee? calls
  have current := both.current
  obtain ⟨low, before, left, _⟩ := operands_of_call current flow calls known
  have operands := current.operands
  have tops := both.operands
  rw [before] at operands tops
  subst left
  by_cases collects : routine = .collect
  · subst collects
    obtain ⟨cells, M, b, regular, _, settled, ran⟩ :=
      callRoutine_collect both.ready.types both.typed.fits both.typed.heap
    have kept := both.rep.inWorld (c.world.withHeap b)
      (both.rep.store.settled both.ready.types regular settled) both.rep.output
    exact matches_next ran rfl (kept.goOn both.found flow goes tops)
  · by_cases lists : routine = .printCallStack
    · subst lists
      have said : callRoutine p.types p.functions .printCallStack s = _ := forM_say _ s
      rw [bind_of_ok said, both.rep.listing, both.rep.output]
      have kept := both.rep.inWorld { c.world with
        output := (Words.listing p.types p.functions c.active).foldl (· ++ ·) c.world.output }
        both.rep.store rfl
      exact matches_next rfl rfl (kept.goOn both.found flow goes tops)
    -- What is left prints the operand on top.
    · obtain ⟨⟨type, takes⟩, _, _⟩ := prints_one collects lists 0
      have parameters : (Function.ofNative routine).definition.parameters = [type] := takes
      rw [parameters] at operands tops
      obtain ⟨w, rest, top, _, _⟩ := operands_one operands
      obtain ⟨_, _, line, printed⟩ := prints_one collects lists w
      rw [top] at tops
      rw [callRoutine_print collects lists top printed,
        bind_of_ok (callRoutine_prints both.ready.types collects lists takes printed tops),
        both.rep.output]
      have kept := both.rep.inWorld ((c.world.say line).say "\n") both.rep.store rfl
      exact matches_next rfl rfl (kept.goOn both.found flow goes rfl)

/-- A function is called. One that is called on an object takes a reference first. -/
theorem matches_call {onObject : Bool}
    (receiver : onObject = true → ∃ owner, g.definition.parameters.head? = some owner
      ∧ p.types.isReference owner = true) :
    Matches p.types p.functions returns (Words.call p.types p.functions c callee onObject)
      (call p.types p.functions callee onObject s) := by
  unfold Words.call call
  rw [bind_of_ok (expect_eq known s), known]
  dsimp only
  cases native : g.native? with
  | some routine => exact matches_callRoutine both flow calls known native
  | none =>
    have current := both.current
    obtain ⟨low, before, _, enough⟩ := operands_of_call current flow calls known
    have tops := both.operands
    rw [before] at tops
    have enough' : g.argumentCount ≤ s.current.operands.length := by
      have lengths := current.operands_length
      rw [before] at lengths
      rw [tops]
      exact (length_decodeAll lengths.symm).symm ▸ enough
    have popped : popMany g.argumentCount s = _ := if_pos enough'
    have null : onObject = true →
        ((s.current.operands.take g.argumentCount).reverse.head? = some .null ↔
          c.operands[g.argumentCount - 1]? = some 0) := by
      intro on
      obtain ⟨owner, first, reference⟩ := receiver on
      rw [tops]
      exact head?_eq_null_iff first reference enough
    dsimp only
    rw [bind_of_ok popped]
    by_cases traps : onObject = true ∧ c.operands[g.argumentCount - 1]? = some 0
    · rw [if_pos traps, if_pos ⟨traps.1, (null traps.1).mpr traps.2⟩]
      exact both.rep.stopped rfl rfl rfl rfl
    · rw [if_neg traps, if_neg fun first => traps ⟨first.1, (null first.1).mp first.2⟩]
      exact matches_enter both flow calls known native

end

end Calls

end ManagedCode.Direct
