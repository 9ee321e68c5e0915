import ManagedCode.Proofs.Loaded

/-!
# What an instruction does to the operand types

`Effect` lists, one rule for each instruction, which operand types a checked instruction takes and
leaves and what else the check found. `effect_of_step` says that a check that passes is one of
these rules, so that later proofs split on the rules and never open the check.

`Flows` says what the snapshots of a checked body have before and after a reachable instruction.
-/

namespace ManagedCode.Typing

open Bytecode TypeSystem

/-- The operand types that a call leaves in place of its arguments. -/
def resultTypes (d : Definition) : OperandTypes :=
  if d.returnType = .void then [] else [d.returnType]

/-- What a checked instruction takes from the operand types and leaves there. -/
inductive Effect (s : Scope) : Instr → OperandTypes → OperandTypes → Prop where
  | nop {stack} : Effect s .nop stack stack
  | pop {type stack} : Effect s .pop (type :: stack) stack
  | dup {type stack} : Effect s .dup (type :: stack) (type :: type :: stack)
  | loadInt {value stack} : Effect s (.loadInt value) stack (.int :: stack)
  | loadFloat {value stack} : Effect s (.loadFloat value) stack (.float :: stack)
  | loadBool {value stack} : Effect s (.loadBool value) stack (.bool :: stack)
  | loadNull {type stack} (reference : s.types.isReference type = true) :
      Effect s (.loadNull type) stack (type :: stack)
  | loadLocal {n type stack} (here : s.function.locals[n.toNat]? = some type) :
      Effect s (.loadLocal n) stack (type :: stack)
  | storeLocal {n type stack} (here : s.function.locals[n.toNat]? = some type) :
      Effect s (.storeLocal n) (type :: stack) stack
  | loadArgument {n type stack} (here : s.function.definition.parameters[n.toNat]? = some type) :
      Effect s (.loadArgument n) stack (type :: stack)
  | arith {op type stack} (numeric : s.isNumeric type = true) :
      Effect s (.arith op) (type :: type :: stack) (type :: stack)
  | and {stack} : Effect s .and (.bool :: .bool :: stack) (.bool :: stack)
  | or {stack} : Effect s .or (.bool :: .bool :: stack) (.bool :: stack)
  | not {stack} : Effect s .not (.bool :: stack) (.bool :: stack)
  | intToFloat {stack} : Effect s .intToFloat (.int :: stack) (.float :: stack)
  | floatToInt {stack} : Effect s .floatToInt (.float :: stack) (.int :: stack)
  | compare {condition type stack}
      (ordered : condition.isOrdering = true → s.isNumeric type = true) (some : type ≠ .void) :
      Effect s (.compare condition) (type :: type :: stack) (.bool :: stack)
  | branch {target stack} : Effect s (.branch target) stack stack
  | branchIf {condition target type stack}
      (ordered : condition.isOrdering = true → s.isNumeric type = true) (some : type ≠ .void) :
      Effect s (.branchIf condition target) (type :: type :: stack) stack
  | call {callee f stack} (found : s.functions.get? callee = some f) :
      Effect s (.call callee) (f.definition.parameters.reverse ++ stack)
        (resultTypes f.definition ++ stack)
  | callInstance {callee f stack} (found : s.functions.get? callee = some f)
      (method : Scope.isInstanceMethod f.definition = true) :
      Effect s (.callInstance callee) (f.definition.parameters.reverse ++ stack)
        (resultTypes f.definition ++ stack)
  | ret {stack} : Effect s .ret (resultTypes s.function.definition ++ stack) stack
  | newArray {type element stack} (array : s.types.element? type = some element) :
      Effect s (.newArray type) (.int :: stack) (type :: stack)
  | loadElement {type element stack} (array : s.types.element? type = some element) :
      Effect s (.loadElement type) (.int :: type :: stack) (element :: stack)
  | storeElement {type element stack} (array : s.types.element? type = some element) :
      Effect s (.storeElement type) (element :: .int :: type :: stack) stack
  | arrayLength {type element stack} (array : s.types.element? type = some element) :
      Effect s .arrayLength (type :: stack) (.int :: stack)
  | newObject {type layout stack} (object : s.types.layout? type = some layout) :
      Effect s (.newObject type) stack (type :: stack)
  | loadField {r layout field stack} (object : s.types.layout? r.owner = some layout)
      (here : layout.fields[r.index]? = some field) (offset : field.offset = r.offset.toNat)
      (type : field.type = r.type) :
      Effect s (.loadField r) (r.owner :: stack) (r.type :: stack)
  | storeField {r layout field stack} (object : s.types.layout? r.owner = some layout)
      (here : layout.fields[r.index]? = some field) (offset : field.offset = r.offset.toNat)
      (type : field.type = r.type) :
      Effect s (.storeField r) (r.type :: r.owner :: stack) stack

section Inversion

variable {s : Scope} {stack after rest : OperandTypes}

variable {type : TypeId}

theorem pop_eq_ok (run : pop stack = .ok (type, rest)) : stack = type :: rest := by
  cases stack with
  | nil => cases run
  | cons top more =>
    cases run
    rfl

theorem expect_eq_ok {expected found : TypeId} (run : s.expect expected found = .ok ()) :
    expected = found := by
  unfold Scope.expect at run
  split at run
  · assumption
  · cases run

theorem popExpect_eq_ok (run : popExpect s type stack = .ok rest) : stack = type :: rest := by
  unfold popExpect at run
  obtain ⟨⟨found, more⟩, popped, run⟩ := except_bind_eq_ok_iff.mp run
  obtain ⟨_, same, run⟩ := except_bind_eq_ok_iff.mp run
  cases run
  rw [pop_eq_ok popped, expect_eq_ok same]

theorem popAll_eq_ok {types : List TypeId} (run : popAll s types stack = .ok rest) :
    stack = types ++ rest := by
  induction types generalizing stack with
  | nil =>
    cases run
    rfl
  | cons type more ih =>
    unfold popAll at run
    obtain ⟨mid, first, run⟩ := except_bind_eq_ok_iff.mp run
    rw [popExpect_eq_ok first, ih run]
    rfl

theorem popPair_eq_ok (run : popPair s stack = .ok (type, rest)) :
    stack = type :: type :: rest := by
  unfold popPair at run
  obtain ⟨⟨right, mid⟩, first, run⟩ := except_bind_eq_ok_iff.mp run
  obtain ⟨⟨left, low⟩, second, run⟩ := except_bind_eq_ok_iff.mp run
  obtain ⟨_, same, run⟩ := except_bind_eq_ok_iff.mp run
  cases run
  rw [pop_eq_ok first, pop_eq_ok second, expect_eq_ok same]

theorem popCompared_eq_ok {condition : Condition} (run : popCompared s condition stack = .ok rest) :
    ∃ type, stack = type :: type :: rest ∧
      (condition.isOrdering = true → s.isNumeric type = true) ∧ type ≠ .void := by
  unfold popCompared at run
  obtain ⟨⟨type, low⟩, pair, run⟩ := except_bind_eq_ok_iff.mp run
  dsimp only at run
  split at run
  · cases run
  · rename_i fine
    cases run
    simp only [Bool.or_eq_true, Bool.and_eq_true, Bool.not_eq_true', decide_eq_true_eq,
      not_or, not_and, Bool.not_eq_false] at fine
    exact ⟨type, popPair_eq_ok pair, fine.1, fine.2⟩

theorem element_eq_ok {array element : TypeId} (run : s.element array = .ok element) :
    s.types.element? array = some element := by
  unfold Scope.element at run
  obtain ⟨_, _, run⟩ := except_bind_eq_ok_iff.mp run
  split at run
  · rename_i found
    cases run
    exact found
  · cases run

theorem callee_eq_ok {id : FunctionId} {d : Definition} (run : s.callee id = .ok d) :
    ∃ f, s.functions.get? id = some f ∧ f.definition = d := by
  unfold Scope.callee at run
  split at run
  · rename_i f found
    cases run
    exact ⟨f, found, rfl⟩
  · cases run

theorem applyCall_eq_ok {d : Definition} (run : applyCall s d stack = .ok after) :
    ∃ low, stack = d.parameters.reverse ++ low ∧ after = resultTypes d ++ low := by
  unfold applyCall at run
  obtain ⟨_, _, run⟩ := except_bind_eq_ok_iff.mp run
  obtain ⟨low, popped, run⟩ := except_bind_eq_ok_iff.mp run
  cases run
  refine ⟨low, popAll_eq_ok popped, ?_⟩
  unfold resultTypes
  split <;> rfl

theorem checkField_eq_ok {r : FieldRef} (run : s.checkField r = .ok ()) :
    ∃ layout field, s.types.layout? r.owner = some layout ∧ layout.fields[r.index]? = some field ∧
      field.offset = r.offset.toNat ∧ field.type = r.type := by
  unfold Scope.checkField at run
  dsimp only at run
  split at run
  · rename_i matching
    obtain ⟨field, found⟩ := Option.isSome_iff_exists.mp matching
    obtain ⟨found, agrees⟩ := Option.filter_eq_some_iff.mp found
    obtain ⟨layout, object, here⟩ := Option.bind_eq_some_iff.mp found
    rw [Bool.and_eq_true, beq_iff_eq, beq_iff_eq] at agrees
    exact ⟨layout, field, object, here, agrees.1, agrees.2⟩
  · cases run

/-- A check that passes is one of the rules. -/
theorem effect_of_step {i : Instr} (run : step s i stack = .ok after) : Effect s i stack after := by
  unfold step at run
  cases i with
  | nop =>
    cases run
    exact .nop
  | pop =>
    obtain ⟨⟨type, rest⟩, popped, run⟩ := except_bind_eq_ok_iff.mp run
    cases run
    cases pop_eq_ok popped
    exact .pop
  | dup =>
    obtain ⟨⟨type, rest⟩, popped, run⟩ := except_bind_eq_ok_iff.mp run
    cases run
    cases pop_eq_ok popped
    exact .dup
  | loadInt value =>
    cases run
    exact .loadInt
  | loadFloat value =>
    cases run
    exact .loadFloat
  | loadBool value =>
    cases run
    exact .loadBool
  | loadNull type =>
    obtain ⟨shape, found, run⟩ := except_bind_eq_ok_iff.mp run
    split at run
    · rename_i reference
      cases run
      refine .loadNull ?_
      unfold Scope.resolve at found
      split at found
      · rename_i here
        cases found
        rw [TypeTable.isReference, here, Option.map_some, Option.getD_some, reference]
      · cases found
    · cases run
  | loadLocal n =>
    dsimp only at run
    split at run
    · rename_i here
      cases run
      exact .loadLocal here
    · cases run
  | storeLocal n =>
    dsimp only at run
    split at run
    · rename_i here
      cases popExpect_eq_ok run
      exact .storeLocal here
    · cases run
  | loadArgument n =>
    dsimp only at run
    split at run
    · rename_i here
      cases run
      exact .loadArgument here
    · cases run
  | arith op =>
    obtain ⟨⟨type, rest⟩, pair, run⟩ := except_bind_eq_ok_iff.mp run
    dsimp only at run
    split at run
    · rename_i numeric
      cases run
      cases popPair_eq_ok pair
      exact .arith numeric
    · cases run
  | and =>
    obtain ⟨⟨type, rest⟩, pair, run⟩ := except_bind_eq_ok_iff.mp run
    obtain ⟨_, same, run⟩ := except_bind_eq_ok_iff.mp run
    cases run
    cases popPair_eq_ok pair
    cases expect_eq_ok same
    exact .and
  | or =>
    obtain ⟨⟨type, rest⟩, pair, run⟩ := except_bind_eq_ok_iff.mp run
    obtain ⟨_, same, run⟩ := except_bind_eq_ok_iff.mp run
    cases run
    cases popPair_eq_ok pair
    cases expect_eq_ok same
    exact .or
  | not =>
    obtain ⟨rest, popped, run⟩ := except_bind_eq_ok_iff.mp run
    cases run
    cases popExpect_eq_ok popped
    exact .not
  | intToFloat =>
    obtain ⟨rest, popped, run⟩ := except_bind_eq_ok_iff.mp run
    cases run
    cases popExpect_eq_ok popped
    exact .intToFloat
  | floatToInt =>
    obtain ⟨rest, popped, run⟩ := except_bind_eq_ok_iff.mp run
    cases run
    cases popExpect_eq_ok popped
    exact .floatToInt
  | compare condition =>
    obtain ⟨rest, popped, run⟩ := except_bind_eq_ok_iff.mp run
    cases run
    obtain ⟨type, rfl, ordered, some⟩ := popCompared_eq_ok popped
    exact .compare ordered some
  | branch target =>
    cases run
    exact .branch
  | branchIf condition target =>
    obtain ⟨type, rfl, ordered, some⟩ := popCompared_eq_ok run
    exact .branchIf ordered some
  | call callee =>
    obtain ⟨d, known, run⟩ := except_bind_eq_ok_iff.mp run
    obtain ⟨f, found, rfl⟩ := callee_eq_ok known
    obtain ⟨low, rfl, rfl⟩ := applyCall_eq_ok run
    exact .call found
  | callInstance callee =>
    obtain ⟨d, known, run⟩ := except_bind_eq_ok_iff.mp run
    obtain ⟨f, found, rfl⟩ := callee_eq_ok known
    split at run
    · rename_i method
      obtain ⟨low, rfl, rfl⟩ := applyCall_eq_ok run
      exact .callInstance found method
    · cases run
  | ret =>
    dsimp only at run
    have rule : Effect s .ret (resultTypes s.function.definition ++ after) after := .ret
    unfold resultTypes at rule
    split at run
    · rename_i none
      cases run
      rwa [if_pos none] at rule
    · rename_i some
      rw [if_neg some] at rule
      rwa [popExpect_eq_ok run]
  | newArray type =>
    obtain ⟨_, found, run⟩ := except_bind_eq_ok_iff.mp run
    obtain ⟨rest, popped, run⟩ := except_bind_eq_ok_iff.mp run
    cases run
    cases popExpect_eq_ok popped
    cases element : s.element type with
    | error e =>
      rw [element] at found
      cases found
    | ok element' => exact .newArray (element_eq_ok element)
  | loadElement type =>
    obtain ⟨element, found, run⟩ := except_bind_eq_ok_iff.mp run
    obtain ⟨rest, popped, run⟩ := except_bind_eq_ok_iff.mp run
    cases run
    cases popAll_eq_ok popped
    exact .loadElement (element_eq_ok found)
  | storeElement type =>
    obtain ⟨element, found, run⟩ := except_bind_eq_ok_iff.mp run
    cases popAll_eq_ok run
    exact .storeElement (element_eq_ok found)
  | arrayLength =>
    obtain ⟨⟨type, rest⟩, popped, run⟩ := except_bind_eq_ok_iff.mp run
    obtain ⟨shape, found, run⟩ := except_bind_eq_ok_iff.mp run
    split at run
    · rename_i element
      cases run
      cases pop_eq_ok popped
      unfold Scope.resolve at found
      split at found
      · rename_i here
        cases found
        have array : s.types.element? type = some element := by
          rw [TypeTable.element?, here]
          rfl
        exact .arrayLength array
      · cases found
    · cases run
  | newObject type =>
    dsimp only at run
    split at run
    · rename_i object
      cases run
      obtain ⟨layout, object⟩ := Option.isSome_iff_exists.mp object
      exact .newObject object
    · cases run
  | loadField r =>
    obtain ⟨_, fine, run⟩ := except_bind_eq_ok_iff.mp run
    obtain ⟨rest, popped, run⟩ := except_bind_eq_ok_iff.mp run
    cases run
    cases popExpect_eq_ok popped
    obtain ⟨layout, field, object, here, offset, type⟩ := checkField_eq_ok fine
    exact .loadField object here offset type
  | storeField r =>
    obtain ⟨_, fine, run⟩ := except_bind_eq_ok_iff.mp run
    cases popAll_eq_ok run
    obtain ⟨layout, field, object, here, offset, type⟩ := checkField_eq_ok fine
    exact .storeField object here offset type

end Inversion

/-! ## Snapshots before and after -/

/-- A function that is called on an object takes the object first. -/
theorem receiver_of_isInstanceMethod {d : Definition} (method : Scope.isInstanceMethod d = true) :
    ∃ owner rest, d.owner = some owner ∧ d.parameters = owner :: rest := by
  unfold Scope.isInstanceMethod at method
  rw [Bool.and_eq_true, beq_iff_eq, Option.isSome_iff_exists] at method
  obtain ⟨⟨owner, belongs⟩, first⟩ := method
  obtain ⟨rest, parameters⟩ := List.head?_eq_some_iff.mp (first.trans belongs)
  exact ⟨owner, rest, belongs, parameters⟩

/-- What the snapshots of a checked body say about a reachable instruction: what it does to the
operand types, and that its successors are reachable with the types that it leaves. -/
structure Flows (s : Scope) (i : Nat) (instr : Instr) (after : OperandTypes) : Prop where
  code : s.function.code[i]? = some instr
  effect : Effect s instr (s.function.operandTypes i) after
  target : ∀ t, instr.target? = some t →
    s.function.isReachable t = true ∧ s.function.operandTypes t = after
  next : instr.endsBlock = false → i + 1 < s.function.code.size ∧
    s.function.isReachable (i + 1) = true ∧ s.function.operandTypes (i + 1) = after

theorem snapshot_of_reachable {f : Function} {i : Nat} (reachable : f.isReachable i = true) :
    f.snapshots[i]? = some (some (f.operandTypes i)) := by
  unfold Function.isReachable at reachable
  unfold Function.operandTypes
  cases noted : f.snapshots[i]? with
  | none =>
    rw [noted] at reachable
    cases reachable
  | some state =>
    rw [noted] at reachable
    cases state with
    | none => cases reachable
    | some stack => rfl

theorem reachable_of_snapshot {f : Function} {i : Nat} {stack : OperandTypes}
    (noted : f.snapshots[i]? = some (some stack)) :
    f.isReachable i = true ∧ f.operandTypes i = stack := by
  unfold Function.isReachable Function.operandTypes
  rw [noted]
  exact ⟨rfl, rfl⟩

theorem flows_of_checked {s : Scope} (checked : Checked s s.function.snapshots) {i : Nat}
    (reachable : s.function.isReachable i = true) : ∃ instr after, Flows s i instr after := by
  have noted := snapshot_of_reachable reachable
  have bound := (Array.getElem?_eq_some_iff.mp noted).1
  rw [checked.size] at bound
  have code : s.function.code[i]? = some s.function.code[i] := Array.getElem?_eq_getElem bound
  obtain ⟨after, next, run, successors, handed⟩ := checked.visited i _ noted _ code
  obtain ⟨targets, follows, same⟩ := Exploration.successors_eq_ok successors
  refine ⟨_, after, code, effect_of_step run, fun t target => ?_, fun goes => ⟨follows goes, ?_⟩⟩
  · exact reachable_of_snapshot (handed t (by rw [same, target]; exact List.mem_cons_self))
  · refine reachable_of_snapshot (handed _ ?_)
    rw [same, goes]
    exact List.mem_append_right _ (List.mem_singleton.mpr rfl)

/-- Control starts at the first instruction without operands. -/
theorem entry_of_checked {s : Scope} (checked : Checked s s.function.snapshots) :
    s.function.isReachable 0 = true ∧ s.function.operandTypes 0 = [] :=
  reachable_of_snapshot checked.entry

end ManagedCode.Typing
