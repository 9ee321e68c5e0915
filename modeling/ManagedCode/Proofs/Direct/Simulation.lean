import ManagedCode.Proofs.Direct.Objects

/-!
# The bytecode on words does what it means

Execution on words and execution on values go side by side: from typed activations that stand for a
state, an instruction leads to activations that stand for the state that it leads to, or both runs
are over in the same way.

* `holds?_decode`, `arith_int`, `arith_float`: conditions and numbers.
* `matches_of_perform`: one instruction, over all instructions.
* `simulates`, `simulated`: runs, in both directions.
-/

namespace ManagedCode.Direct

open Bytecode TypeSystem
open Compile (Source)
open Heap (Arena HasType)
open Machine (toInt ofInt ofSingle ofBool)
open Number (Single)

/-! ## Numbers and conditions -/

variable {condition : Condition}

variable {a : Arena} {right : UInt64}

section Numbers

variable {types : TypeTable} {functions : FunctionTable} {id : FunctionId} {f : Function}
  {type : TypeId}

theorem isFloat_iff (wf : types.WellFormed) :
    Source.isFloat ⟨types, functions, id, f⟩ (some type) = true ↔ type = .float := by
  unfold Source.isFloat
  rw [Option.bind_some]
  constructor
  · intro float
    split at float
    · rename_i known
      exact wf.primitive_only _ _ known
    · cases float
  · rintro rfl
    rw [show types.shape? .float = some (.primitive .float) from wf.primitive .float]

/-- Conditions without an order. -/
theorem equal_or_notEqual (plain : condition.isOrdering ≠ true) :
    condition = .equal ∨ condition = .notEqual := by
  cases condition with
  | equal => exact .inl rfl
  | notEqual => exact .inr rfl
  | _ => exact absurd rfl plain

/-- A comparison of words of a type compares what they stand for. -/
theorem holds?_decode (wf : types.WellFormed)
    (ordered : condition.isOrdering = true → Typing.Scope.isNumeric ⟨types, functions, f⟩ type = true)
    {left : UInt64} (hasLeft : HasType types true a type left)
    (hasRight : HasType types true a type right) :
    holds? condition (decode types type left) (decode types type right)
      = some (Machine.compare (Source.compareKind ⟨types, functions, id, f⟩ (some type)) condition
          left right) := by
  have unordered : type ≠ .int → type ≠ .float → condition = .equal ∨ condition = .notEqual := by
    intro int float
    refine equal_or_notEqual fun ordering => ?_
    rcases Typing.Scope.eq_of_isNumeric wf (ordered ordering) with same | same
    · exact int same
    · exact float same
  unfold Source.compareKind
  rw [Option.map_some, Option.getD_some]
  by_cases reference : types.isReference type = true
  · have int : type ≠ .int := by
      rintro rfl
      cases reference.symm.trans (wf.isReference_primitive .int)
    have float : type ≠ .float := by
      rintro rfl
      cases reference.symm.trans (wf.isReference_primitive .float)
    rw [if_pos reference, decode_reference reference, decode_reference reference]
    rcases unordered int float with rfl | rfl <;> rfl
  · rw [if_neg reference]
    by_cases float : type = .float
    · subst float
      rw [if_pos ((isFloat_iff wf).mpr rfl), decode_float wf, decode_float wf]
      rfl
    · rw [if_neg (mt (isFloat_iff wf).mp float)]
      unfold decode
      rw [if_neg reference, if_neg reference, if_neg float, if_neg float]
      by_cases bool : type = .bool
      · rw [if_pos bool, if_pos bool]
        -- The machine compares the words as integers; words of truth values are zero and one only.
        rcases unordered (by rw [bool]; decide) float with rfl | rfl <;>
          rcases hasLeft.truth rfl bool with rfl | rfl <;>
            rcases hasRight.truth rfl bool with rfl | rfl <;> decide
      · rw [if_neg bool, if_neg bool]
        rfl

theorem arith_int (op : ArithOp) (a b : Int32) (s : State) :
    arith op (.int a) (.int b) s
      = match Machine.arithInt? op a b with
        | some value => .ok (.int value) s
        | none => .error (.stopped (.trap (.divideByZero a))) s := by
  cases op with
  | div =>
    unfold arith Machine.arithInt?
    dsimp only
    split <;> rfl
  | _ => rfl

theorem arith_float (op : ArithOp) (a b : Single) (s : State) :
    arith op (.float a) (.float b) s = .ok (.float (Machine.arithSingle op a b)) s := by
  cases op <;> rfl

end Numbers

/-! ## All instructions -/

def MethodsOfObjects (types : TypeTable) (functions : FunctionTable) : Prop :=
  ∀ id g owner, functions.get? id = some g → Typing.Scope.isInstanceMethod g.definition = true →
    g.definition.owner = some owner → types.isReference owner = true

section Perform

variable {p : Program} {root : FunctionId} {c : Configuration UInt64} {s : State} {f g : Function}
  {instr : Instr} {after : OperandTypes} {returns : TypeId}

/-- An instance method takes a reference first. -/
theorem MethodsOfObjects.receiver (methods : MethodsOfObjects p.types p.functions)
    {callee : FunctionId} (known : p.functions.get? callee = some g)
    (method : Typing.Scope.isInstanceMethod g.definition = true) :
    ∃ owner, g.definition.parameters.head? = some owner ∧ p.types.isReference owner = true := by
  obtain ⟨owner, rest, belongs, parameters⟩ := Typing.receiver_of_isInstanceMethod method
  exact ⟨owner, by rw [parameters]; rfl, methods callee g owner known method belongs⟩

variable {low : OperandTypes}

variable {type : TypeId}

/-- The comparison that an instruction makes of its operands. -/
theorem holds?_operands (wf : p.types.WellFormed)
    (stack : f.operandTypes c.current.index = type :: type :: low)
    (ordered : condition.isOrdering = true → Typing.Scope.isNumeric ⟨p.types, p.functions, f⟩ type = true)
    {left : UInt64} (hasLeft : HasType p.types true a type left)
    (hasRight : HasType p.types true a type right) :
    holds? condition (decode p.types type left) (decode p.types type right)
      = some (Machine.compare (Words.perform.kind p.types p.functions f c) condition left
          right) := by
  unfold Words.perform.kind
  rw [stack]
  exact holds?_decode wf ordered hasLeft hasRight

theorem test_eq {left right : Value} {rest : List Value} {result : Bool}
    (tops : s.current.operands = right :: left :: rest)
    (holds : holds? condition left right = some result) :
    test condition s = .ok result (s.withOperands rest) := by
  unfold test
  rw [bind_of_ok (pop_eq tops), bind_of_ok (pop_eq rfl)]
  exact expect_eq holds _

/-- Numbers are computed with. -/
theorem matches_arith (both : Alongside p root c s f) {op : ArithOp}
    (numeric : Typing.Scope.isNumeric ⟨p.types, p.functions, f⟩ type = true)
    (flow : p.Flows f c.current (.arith op) (type :: low))
    (stack : f.operandTypes c.current.index = type :: type :: low) {a b : UInt64}
    {rest : List UInt64} (top : c.operands = b :: a :: rest)
    (tops : s.current.operands
      = decode p.types type b :: decode p.types type a :: decodeAll p.types low rest) :
    MatchesOn p returns f c s (.arith op) := by
  have wf := both.ready.types
  have computed : compute p.types (.arith op) s
      = (do push (← arith op (decode p.types type a) (decode p.types type b)) : Action Unit)
          (s.withOperands (decodeAll p.types low rest)) := by
    unfold compute
    dsimp only
    rw [bind_of_ok (pop_eq tops), bind_of_ok (pop_eq rfl)]
    rfl
  have performed : Words.perform p.types p.functions f c (.arith op) = _ := pop2_eq top _
  rw [stack, List.head?_cons] at performed
  unfold Source.numericKind at performed
  rcases Typing.Scope.eq_of_isNumeric wf numeric with rfl | rfl
  · rw [if_neg (mt (isFloat_iff wf).mp (by decide))] at performed
    rw [decode_int wf, decode_int wf] at computed
    have result := arith_int op (toInt a) (toInt b) (s.withOperands (decodeAll p.types low rest))
    cases value : Machine.arithInt? op (toInt a) (toInt b) with
    | none =>
      rw [value] at result
      dsimp only at performed
      rw [value] at performed
      exact both.rep.stopped performed (bind_of_error (computed.trans (bind_of_error result)))
        rfl rfl
    | some v =>
      rw [value] at result
      dsimp only at performed
      rw [value] at performed
      refine matches_next performed (bind_of_ok (computed.trans (bind_of_ok result)))
        (both.goOn flow rfl ?_)
      exact congrArg (· :: decodeAll p.types low rest) (decode_ofInt wf v).symm
  · rw [if_pos ((isFloat_iff wf).mpr rfl)] at performed
    rw [decode_float wf, decode_float wf] at computed
    refine matches_next performed
      (bind_of_ok (computed.trans (bind_of_ok (arith_float op _ _ _)))) (both.goOn flow rfl ?_)
    exact congrArg (· :: decodeAll p.types low rest) (decode_ofSingle wf _).symm

/-- An instruction of a checked body leads to the same on both sides. -/
theorem matches_of_perform (methods : MethodsOfObjects p.types p.functions)
    (both : Alongside p root c s f)
    (flow : p.Flows f c.current instr after)
    (outermost : c.callers = [] → returns = f.definition.returnType) :
    MatchesOn p returns f c s instr := by
  have wf := both.ready.types
  have current := both.current
  have operands := current.operands
  have tops := both.operands
  have effect := flow.effect
  dsimp only at effect
  -- The rule of an instruction gives the types before it, hence the shape of the operands.
  generalize same : f.operandTypes c.current.index = stack at effect operands tops
  cases effect with
  | nop => exact matches_next rfl rfl (both.goOn flow rfl tops)
  | pop | dup =>
    obtain ⟨w, rest, top, _⟩ := operands_one operands
    rw [top] at tops
    exact matches_next (pop1_eq top _) (bind_of_ok (bind_of_ok (pop_eq tops)))
      (both.goOn flow rfl rfl)
  | loadInt =>
    exact matches_next rfl rfl
      (both.goOn flow rfl (congrArg₂ List.cons (decode_ofInt wf _).symm tops))
  | loadFloat =>
    exact matches_next rfl rfl
      (both.goOn flow rfl (congrArg₂ List.cons (decode_ofSingle wf _).symm tops))
  | loadBool =>
    exact matches_next rfl rfl
      (both.goOn flow rfl (congrArg₂ List.cons (decode_ofBool wf _).symm tops))
  | loadNull reference =>
    exact matches_next rfl rfl
      (both.goOn flow rfl (congrArg₂ List.cons (decode_reference reference 0).symm tops))
  | @loadLocal n type stack here =>
    obtain ⟨w, value, _⟩ := forall₂_getElem? current.locals here
    have there : s.current.locals[n.toNat]? = some (decode p.types type w) := by
      rw [both.read]
      exact getElem?_decodeAll here value
    have ran : Words.perform p.types p.functions f c (.loadLocal n)
        = .next (c.goOn (w :: c.operands)) := by
      unfold Words.perform
      dsimp only
      rw [value]
    exact matches_next ran (bind_of_ok (bind_of_ok (expect_eq there s)))
      (both.goOn flow rfl (congrArg₂ List.cons rfl tops))
  | @loadArgument n type stack here =>
    obtain ⟨w, value, _⟩ := forall₂_getElem? current.arguments here
    have there : s.current.arguments[n.toNat]? = some (decode p.types type w) := by
      rw [both.read]
      exact getElem?_decodeAll here value
    have ran : Words.perform p.types p.functions f c (.loadArgument n)
        = .next (c.goOn (w :: c.operands)) := by
      unfold Words.perform
      dsimp only
      rw [value]
    exact matches_next ran (bind_of_ok (bind_of_ok (expect_eq there s)))
      (both.goOn flow rfl (congrArg₂ List.cons rfl tops))
  | @storeLocal n type stack here =>
    obtain ⟨w, rest, top, _⟩ := operands_one operands
    rw [top] at tops
    exact matches_next (pop1_eq top _) (bind_of_ok (bind_of_ok (pop_eq tops)))
      ((both.rep.setLocal both.found here w).goOn both.found flow rfl rfl)
  | arith numeric =>
    obtain ⟨b, a, rest, top, _⟩ := operands_two operands
    rw [top] at tops
    exact matches_arith both numeric flow same top tops
  | and | or =>
    obtain ⟨b, a, rest, top, _⟩ := operands_two operands
    rw [top] at tops
    have tops := tops.trans
      (congrArg₂ List.cons (decode_bool wf b) (congrArg (· :: _) (decode_bool wf a)))
    exact matches_next (pop2_eq top _)
      (bind_of_ok ((bind_of_ok (popBool_eq tops)).trans (bind_of_ok (popBool_eq rfl))))
      (both.goOn flow rfl (congrArg (· :: _) (decode_ofBool wf _).symm))
  | not =>
    obtain ⟨a, rest, top, _⟩ := operands_one operands
    rw [top] at tops
    have tops := tops.trans (congrArg (· :: _) (decode_bool wf a))
    have negated : (!(a != 0)) = (a == 0) := by
      rw [bne, Bool.not_not]
    refine matches_next (pop1_eq top _) (bind_of_ok (bind_of_ok (popBool_eq tops)))
      (both.goOn flow rfl ?_)
    exact congrArg (· :: _) ((congrArg Value.bool negated).trans (decode_ofBool wf _).symm)
  | intToFloat =>
    obtain ⟨a, rest, top, _⟩ := operands_one operands
    rw [top] at tops
    have tops := tops.trans (congrArg (· :: _) (decode_int wf a))
    exact matches_next (pop1_eq top _) (bind_of_ok (bind_of_ok (popInt_eq tops)))
      (both.goOn flow rfl (congrArg (· :: _) (decode_ofSingle wf _).symm))
  | floatToInt =>
    obtain ⟨a, rest, top, _⟩ := operands_one operands
    rw [top] at tops
    have tops := tops.trans (congrArg (· :: _) (decode_float wf a))
    exact matches_next (pop1_eq top _) (bind_of_ok (bind_of_ok (popFloat_eq tops)))
      (both.goOn flow rfl (congrArg (· :: _) (decode_ofInt wf _).symm))
  | compare ordered =>
    obtain ⟨b, a, rest, top, hasRight, hasLeft, _⟩ := operands_two operands
    rw [top] at tops
    have holds := holds?_operands wf same ordered hasLeft hasRight
    exact matches_next (pop2_eq top _) (bind_of_ok (bind_of_ok (test_eq tops holds)))
      (both.goOn flow rfl (congrArg (· :: _) (decode_ofBool wf _).symm))
  | @branch target =>
    have types : f.operandTypes target = _ := (flow.target target rfl).2
    exact matches_next rfl rfl (both.rep.goto both.found (types ▸ tops))
  | @branchIf condition target _ _ ordered =>
    obtain ⟨b, a, rest, top, hasRight, hasLeft, _⟩ := operands_two operands
    rw [top] at tops
    have holds := holds?_operands wf same ordered hasLeft hasRight
    have performed : Words.perform p.types p.functions f c (.branchIf condition target) = _ :=
      pop2_eq top _
    cases result : Machine.compare (Words.perform.kind p.types p.functions f c) condition a b with
    | true =>
      rw [result] at holds performed
      have types : f.operandTypes target = _ := (flow.target target rfl).2
      exact matches_next performed (bind_of_ok (test_eq tops holds))
        (both.rep.goto both.found (congrArg (decodeAll p.types · rest) types.symm))
    | false =>
      rw [result] at holds performed
      exact matches_next performed (bind_of_ok (test_eq tops holds))
        (both.goOn flow rfl rfl)
  | call known =>
    exact matches_call both flow rfl known fun on => nomatch on
  | callInstance known method =>
    exact matches_call both flow rfl known fun _ => methods.receiver known method
  | ret => exact matches_ret both flow outermost
  | newObject object => exact matches_newObject both object flow tops
  | newArray array =>
    obtain ⟨w, rest, top, _⟩ := operands_one operands
    rw [top] at tops
    exact matches_newArray both array flow top tops
  | arrayLength array =>
    obtain ⟨w, rest, top, has, _⟩ := operands_one operands
    rw [top] at tops
    exact matches_arrayLength both array flow top has tops
  | loadElement array =>
    obtain ⟨i, w, rest, top, _, has, _⟩ := operands_two operands
    rw [top] at tops
    exact matches_loadElement both array flow top has tops
  | storeElement array =>
    obtain ⟨v, i, w, rest, top, good, _, has, _⟩ := operands_three operands
    rw [top] at tops
    exact matches_storeElement both array flow top good has tops
  | loadField object here offset type =>
    obtain ⟨w, rest, top, has, _⟩ := operands_one operands
    rw [top] at tops
    exact matches_loadField both object here offset type flow top has tops
  | storeField object here offset type =>
    obtain ⟨v, w, rest, top, good, has, _⟩ := operands_two operands
    rw [top] at tops
    exact matches_storeField both object here offset type flow top good has tops

end Perform

/-! ## Runs -/

section Runs

variable {p : Program} {root : FunctionId} {c c' : Configuration UInt64} {s s' left : State}
  {r : Function}

theorem step_eq {types : TypeTable} {functions : FunctionTable} {f : Function} {instr : Instr}
    (found : functions.get? s.current.function = some f)
    (code : f.code[s.current.index]? = some instr) :
    step types functions s = perform types functions f instr s := by
  unfold step
  rw [get_bind, bind_of_ok (expect_eq found s), bind_of_ok (expect_eq code s)]

section Steps

variable (ready : p.Ready) (methods : MethodsOfObjects p.types p.functions)
  (outer : p.functions.get? root = some r) (typed : c.Typed p.types p.functions true root)
  (rep : Represents p.types p.functions c s)

include ready methods outer typed rep

theorem matches_step :
    Matches p.types p.functions r.definition.returnType (Words.step p.types p.functions c)
      (step p.types p.functions s) := by
  obtain ⟨f, instr, after, found, flow, same⟩ := step_eq_perform ready typed.fits
  have current := rep.read found
  have found' : p.functions.get? s.current.function = some f := by
    rw [current]
    exact found
  have code : f.code[s.current.index]? = some instr := by
    rw [current]
    exact flow.code
  rw [same, step_eq found' code]
  refine matches_of_perform methods ⟨ready, typed, rep, found⟩ flow fun outermost => ?_
  have callers := typed.fits.callers
  rw [outermost] at callers
  have same : c.current.function = root := callers
  rw [same] at found
  cases found.symm.trans outer
  rfl

/-- What the words come to, the values come to. -/
theorem simulates (reaches : Words.Reaches p.types p.functions c c') :
    ∃ s', Reaches p.types p.functions s s' ∧ Represents p.types p.functions c' s' := by
  induction reaches with
  | refl => exact ⟨s, .refl, rep⟩
  | @tail c₁ c₂ before ran ih =>
    obtain ⟨s₁, reached, rep₁⟩ := ih
    have both := matches_step ready methods outer (Words.Reaches.typed before ready typed) rep₁
    rw [ran] at both
    cases stepped : step p.types p.functions s₁ with
    | ok _ s₂ =>
      rw [stepped] at both
      exact ⟨s₂, .tail reached stepped, both⟩
    | error e s₂ =>
      rw [stepped] at both
      exact both.elim

/-- What the values come to, the words come to. -/
theorem simulated (reaches : Reaches p.types p.functions s s') :
    ∃ c', Words.Reaches p.types p.functions c c' ∧ Represents p.types p.functions c' s' := by
  induction reaches with
  | refl => exact ⟨c, .refl, rep⟩
  | @tail s₁ s₂ before stepped ih =>
    obtain ⟨c₁, reached, rep₁⟩ := ih
    have both := matches_step ready methods outer (reached.typed ready typed) rep₁
    rw [stepped] at both
    cases ran : Words.step p.types p.functions c₁ with
    | next c₂ =>
      rw [ran] at both
      exact ⟨c₂, .tail reached ran, both⟩
    | _ =>
      rw [ran] at both
      exact both.elim

end Steps

end Runs

end ManagedCode.Direct
