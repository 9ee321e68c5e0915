import ManagedCode.Proofs.Machine.Walk

/-!
# Machine instructions and the bytecode they stand for

For every bytecode instruction that is lowered to a single machine instruction, executing the
latter on the view of some activations leads to the outcome of the former.

* `Outcome.Shown`, `Outcome.Stops`: the views and the stops that agree with an outcome.
* `Fixed.Exhausts`: the stops that a run out of stack or of room for calls leads to, which the
  bytecode knows nothing of.
-/

namespace ManagedCode

open Bytecode TypeSystem
open Machine (Stop toInt ofInt toSingle ofSingle ofBool Action Host displace elementAddress execute
  push)
open Target (Op Width)
open Words (allocating callRoutine load? loading onElement onObject perform storing)

/-- The stack or the table of calls is used up. A table whose size wraps around is too small for the
calls that it admits, and a call may find no place in it. -/
def Fixed.Exhausts (x : Fixed) (e : Stop) : Prop :=
  e.trapKind? = some .stackOverflow ∨ ¬ x.Roomy ∧ ∃ address reason, e = .fault address reason

namespace Outcome

/-- The views of machines that got where an outcome says. -/
def Shown (x : Fixed) (bottom : List UInt64) : Outcome UInt64 → View → Prop
  | .next c, v => ∃ ip result,
      x.program.addressOf? c.current.function c.current.index = some ip ∧
        v = c.view x bottom ip result
  | .finished value world, v =>
    v.ip = Machine.haltAddress ∧ (∀ w, value = some w → v.result = w) ∧ v.world = world
  | .stopped .., _ => False
  | .stuck, _ => False

/-- The stops that agree with an outcome. Nothing is said about instructions without a meaning. -/
def Stops (x : Fixed) : Outcome UInt64 → Stop → World → Prop
  | .next c, e, w => x.Exhausts e ∧ w = c.world
  | .finished .., _, _ => False
  | .stopped why world, e, w => e = why ∧ w = world
  | .stuck, _, _ => True

end Outcome

section Views

variable (x : Fixed) (bottom : List UInt64)

/-- The words above the operands of the innermost frame. -/
def Configuration.low (c : Configuration UInt64) : List UInt64 :=
  c.current.locals.reverse ++ (c.current.arguments.reverse ++
    baseOf x bottom c.callers :: spine x bottom c.callers)

/-- The view with other operands in the innermost frame. -/
def Configuration.showing (c : Configuration UInt64) (ip result : UInt64)
    (operands : List UInt64) : View where
  ip := ip
  bp := baseOf x bottom c.active
  result := result
  words := operands ++ c.low x bottom
  calls := c.callers.map Activation.site
  world := c.world

variable {x bottom} {c : Configuration UInt64} {ip result : UInt64}

theorem view_eq : c.view x bottom ip result = c.showing x bottom ip result c.operands := by
  unfold Configuration.view Configuration.showing Configuration.words
  rw [Activation.frame_eq]
  rfl

theorem view_goto (index : Nat) (operands : List UInt64) (world : World) :
    ((c.inWorld world).goto index operands).view x bottom ip result
      = { c.showing x bottom ip result operands with world } := by
  rw [view_eq]
  rfl

theorem low_eq : c.low x bottom = (c.current.arguments ++ c.current.locals).reverse
    ++ baseOf x bottom c.callers :: spine x bottom c.callers := by
  unfold Configuration.low
  rw [List.reverse_append, List.append_assoc]

/-- The slots of the innermost frame with other operands. -/
theorem showing_words (operands : List UInt64) :
    (c.showing x bottom ip result operands).words
      = (c.current.arguments ++ c.current.locals ++ operands.reverse).reverse
        ++ baseOf x bottom c.callers :: spine x bottom c.callers := by
  show operands ++ c.low x bottom = _
  have slots : (c.current.arguments ++ c.current.locals ++ operands.reverse).reverse
      = operands ++ (c.current.arguments ++ c.current.locals).reverse := by
    rw [List.reverse_append, List.reverse_reverse]
  rw [low_eq, slots, List.append_assoc]

theorem showing_base (operands : List UInt64) :
    (c.showing x bottom ip result operands).bp
      = x.place (baseOf x bottom c.callers :: spine x bottom c.callers).length := by
  rw [List.length_cons, length_spine]
  rfl

end Views

section Outcomes

variable {x : Fixed} {bottom : List UInt64} {c : Configuration UInt64} {v : View}
  {act : Action Vm Unit} {index : Nat} {ip result : UInt64} {operands : List UInt64}
variable {V : Type} {rest : List V}

/-- An action agrees with an outcome. -/
def Agrees (x : Fixed) (bottom : List UInt64) (v : View) (act : Action Vm Unit)
    (outcome : Outcome UInt64) : Prop :=
  Does x v act (fun _ => outcome.Shown x bottom) (outcome.Stops x)

theorem stops_overflow (address : UInt64) :
    (Outcome.next c).Stops x (.trap (.stackExhausted address)) c.world :=
  ⟨.inl rfl, rfl⟩

theorem agrees_next (world : World)
    (there : x.program.addressOf? c.current.function index = some ip)
    (gives : Gives x v act () { c.showing x bottom ip result operands with world }
      ((Outcome.next ((c.inWorld world).goto index operands)).Stops x)) :
    Agrees x bottom v act (.next ((c.inWorld world).goto index operands)) := by
  refine Gives.does gives ⟨ip, result, there, ?_⟩
  rw [view_goto]

theorem agrees_goto (there : x.program.addressOf? c.current.function index = some ip)
    (gives : Gives x v act () (c.showing x bottom ip result operands)
      ((Outcome.next (c.goto index operands)).Stops x)) :
    Agrees x bottom v act (.next (c.goto index operands)) :=
  agrees_next c.world there gives

variable {a : V}

theorem pop1_eq {c : Configuration V} (top : c.operands = a :: rest) (k : V → List V → Outcome V) :
    c.pop1 k = k a rest := by
  unfold Configuration.pop1
  rw [top]

theorem pop2_eq {c : Configuration V} {b : V} (top : c.operands = b :: a :: rest)
    (k : V → V → List V → Outcome V) : c.pop2 k = k a b rest := by
  unfold Configuration.pop2
  rw [top]

theorem pop3_eq {c : Configuration V} {b d : V} (top : c.operands = d :: b :: a :: rest)
    (k : V → V → V → List V → Outcome V) : c.pop3 k = k a b d rest := by
  unfold Configuration.pop3
  rw [top]

end Outcomes

section Instructions

variable {x : Fixed} {bottom : List UInt64} {c : Configuration UInt64} {f : Function}
  {next result w a b : UInt64} {rest : List UInt64}

/-! ## Operands -/

section Simple

variable (go : x.program.addressOf? c.current.function (c.current.index + 1) = some next)
variable {width : Width} {address : UInt64}

include go

theorem agrees_push (w : UInt64) :
    Agrees x bottom (c.showing x bottom next result c.operands) (push w)
      (.next (c.goOn (w :: c.operands))) :=
  agrees_goto go (gives_push stops_overflow)

theorem agrees_pop (top : c.operands = w :: rest) :
    Agrees x bottom (c.showing x bottom next result c.operands) (execute next .pop)
      (.next (c.goOn rest)) := by
  rw [top]
  exact agrees_goto go ((gives_pop rfl).bind (gives_pure ()))

theorem agrees_dup (top : c.operands = w :: rest) :
    Agrees x bottom (c.showing x bottom next result c.operands) (execute next .dup)
      (.next (c.goOn (w :: w :: rest))) := by
  rw [top]
  exact agrees_goto go ((gives_peek rfl).bind (gives_push stops_overflow))

theorem agrees_unary (g : UInt64 → UInt64) (top : c.operands = w :: rest) :
    Agrees x bottom (c.showing x bottom next result c.operands) (Machine.unary g)
      (.next (c.goOn (g w :: rest))) := by
  rw [top]
  exact agrees_goto go ((gives_pop rfl).bind (gives_push stops_overflow))

theorem agrees_binary (g : UInt64 → UInt64 → UInt64) (top : c.operands = b :: a :: rest) :
    Agrees x bottom (c.showing x bottom next result c.operands) (Machine.binary g)
      (.next (c.goOn (g a b :: rest))) := by
  rw [top]
  exact agrees_goto go ((gives_pop rfl).bind ((gives_pop rfl).bind (gives_push stops_overflow)))

/-! ## Slots -/

variable {n target : Nat} {distance : Int32} {k : UInt64 → Action Vm Unit} {type : TypeId}
  {offset : UInt32}

theorem agrees_loadSlot (near : 8 * (1 + n) ≤ 2 ^ 31)
    (here : (c.current.arguments ++ c.current.locals)[n]? = some w) :
    Agrees x bottom (c.showing x bottom next result c.operands)
      (execute next (.loadSlot (Stack.below n))) (.next (c.goOn (w :: c.operands))) := by
  have bound := (List.getElem?_eq_some_iff.mp here).1
  refine agrees_goto go (gives_registersOf.bind ((gives_loadSlot near (showing_words _)
    (showing_base _) ?_).bind (gives_push stops_overflow)))
  rw [List.getElem?_append_left bound]
  exact here

theorem agrees_storeLocal (near : 8 * (1 + (c.current.arguments.length + n)) ≤ 2 ^ 31)
    (bound : n < c.current.locals.length) (top : c.operands = w :: rest) :
    Agrees x bottom (c.showing x bottom next result c.operands)
      (execute next (.storeSlot (Stack.below (c.current.arguments.length + n))))
      (.next ((c.setLocal n w).goOn rest)) := by
  rw [top]
  have stored := gives_storeSlot (x := x) (v := c.showing x bottom next result rest)
    (E := (Outcome.next ((c.setLocal n w).goOn rest)).Stops x)
    (n := c.current.arguments.length + n) near (showing_words _) (showing_base _)
    (by simp; omega) w
  refine Gives.does ((gives_pop rfl).bind (gives_registersOf.bind stored)) ⟨next, result, go, ?_⟩
  rw [view_eq]
  have words : ((c.current.arguments ++ c.current.locals ++ rest.reverse).set
      (c.current.arguments.length + n) w).reverse
        ++ baseOf x bottom c.callers :: spine x bottom c.callers
      = rest ++ (c.setLocal n w).low x bottom := by
    rw [List.append_assoc, List.set_append_right _ _ (by omega), Nat.add_sub_cancel_left,
      List.set_append_left _ _ bound]
    simp [Configuration.low, Configuration.setLocal]
  rw [words]
  rfl

/-! ## Arithmetic and control -/

theorem agrees_arith (types : TypeTable) (functions : FunctionTable) (op : ArithOp)
    (top : c.operands = b :: a :: rest) :
    Agrees x bottom (c.showing x bottom next result c.operands)
      (execute next (.arith (Compile.Source.numericKind
        ⟨types, functions, c.current.function, f⟩ (f.operandTypes c.current.index).head?) op))
      (perform types functions f c (.arith op)) := by
  unfold perform
  dsimp only
  rw [pop2_eq top]
  cases Compile.Source.numericKind ⟨types, functions, c.current.function, f⟩
    (f.operandTypes c.current.index).head? with
  | int =>
    rw [top]
    refine (gives_pop rfl).bind ((gives_pop rfl).bind ?_)
    cases Machine.arithInt? op (toInt a) (toInt b) with
    | some value => exact agrees_goto go (gives_push stops_overflow)
    | none => exact does_trap ⟨rfl, rfl⟩
  | float => exact agrees_binary go _ top

omit go in
theorem agrees_jump
    (there : x.program.addressOf? c.current.function target = some (displace next distance)) :
    Agrees x bottom (c.showing x bottom next result c.operands)
      (execute next (.jump distance)) (.next (c.goto target c.operands)) :=
  agrees_goto there (gives_goto _)

theorem agrees_jumpIf
    (there : x.program.addressOf? c.current.function target = some (displace next distance))
    (kind : Target.CompareKind) (condition : Condition) (top : c.operands = b :: a :: rest) :
    Agrees x bottom (c.showing x bottom next result c.operands)
      (execute next (.jumpIf kind condition distance))
      (if Machine.compare kind condition a b then .next (c.goto target rest)
        else .next (c.goOn rest)) := by
  rw [top]
  refine (gives_pop rfl).bind ((gives_pop rfl).bind ?_)
  split
  · exact agrees_goto there (gives_goto _)
  · exact agrees_goto go (gives_pure ())

/-! ## The heap -/

theorem agrees_loading :
    Agrees x bottom (c.showing x bottom next result rest)
      (do push (← Machine.load address width)) (loading c rest address width) := by
  unfold loading
  cases found : load? c.world address width with
  | some value => exact agrees_goto go ((gives_load found).bind (gives_push stops_overflow))
  | none =>
    refine Does.stop (does_load_none found fun _ => ?_)
    trivial

theorem agrees_storing :
    Agrees x bottom (c.showing x bottom next result rest) (Machine.store address width w)
      (storing c rest address width w) := by
  unfold storing
  cases stored : Words.store? c.world address width w with
  | some world => exact agrees_next world go (gives_store stored)
  | none =>
    refine does_store_none stored fun _ => ?_
    trivial

omit go in
theorem agrees_onObject {use : Machine.NullUse} {outcome : Outcome UInt64}
    (good : Agrees x bottom (c.showing x bottom next result rest) (k a) outcome) :
    Agrees x bottom (c.showing x bottom next result (a :: rest)) (Machine.popObject use >>= k)
      (onObject c.world a use outcome) := by
  unfold onObject
  refine Does.bind (P := fun object v => a ≠ 0 ∧ object = a ∧
    v = c.showing x bottom next result rest) (does_popObject rfl ?_ ?_) ?_
  · intro null
    rw [if_pos null]
    exact ⟨rfl, rfl⟩
  · exact fun some => ⟨some, rfl, rfl⟩
  · rintro _ _ ⟨some, rfl, rfl⟩
    rw [if_neg some]
    exact good

omit go in
theorem agrees_onElement {array : UInt64} {index : Int32} {outcome : UInt64 → Outcome UInt64}
    (good : ∀ address, Agrees x bottom (c.showing x bottom next result rest) (k address)
      (outcome address)) :
    Agrees x bottom (c.showing x bottom next result rest)
      (elementAddress array index width >>= k)
      (onElement c.world array index width outcome) := by
  unfold onElement elementAddress
  cases found : load? c.world array .dword with
  | none =>
    refine Does.stop (Does.stop (does_load_none found fun _ => ?_))
    trivial
  | some length =>
    dsimp only
    rw [bind_assoc]
    refine (gives_load found).bind ?_
    by_cases outside : index < 0 ∨ toInt length ≤ index
    · rw [if_pos outside, if_pos outside]
      exact Does.stop (does_trap ⟨rfl, rfl⟩)
    · rw [if_neg outside, if_neg outside]
      exact (gives_pure _).bind (good _)

theorem agrees_newObject :
    Agrees x bottom (c.showing x bottom next result c.operands)
      (execute next (.newObject type.raw))
      (allocating c c.operands (Heap.Collector.newObject x.program.types type)) := by
  unfold allocating
  cases ran : c.world.effect (Heap.Collector.newObject x.program.types type) with
  | ok object world =>
    exact agrees_next world go ((gives_newObject ran).bind (gives_push stops_overflow))
  | error e world =>
    exact Does.stop (does_newObject_error ran ⟨rfl, rfl⟩)

theorem agrees_newArray (top : c.operands = w :: rest) :
    Agrees x bottom (c.showing x bottom next result c.operands)
      (execute next (.newArray type.raw))
      (if toInt w < 0 then
        .stopped (.trap (.negativeLength (x.program.types.name type) (toInt w))) c.world
      else allocating c rest
        (Heap.Collector.newArray x.program.types type (toInt w).toInt)) := by
  rw [top]
  refine (gives_pop rfl).bind ?_
  dsimp only
  split
  · rename_i negative
    exact Does.stop (does_newArray_negative negative ⟨rfl, rfl⟩)
  · rename_i natural
    unfold allocating
    cases ran : c.world.effect
        (Heap.Collector.newArray x.program.types type (toInt w).toInt) with
    | ok object world =>
      exact agrees_next world go ((gives_newArray natural ran).bind (gives_push stops_overflow))
    | error e world =>
      exact Does.stop (does_newArray_error natural ran ⟨rfl, rfl⟩)

theorem agrees_loadField (top : c.operands = a :: rest) :
    Agrees x bottom (c.showing x bottom next result c.operands)
      (execute next (.loadField width offset))
      (onObject c.world a .fieldLoad
        (loading c rest (a + offset.toUInt64) width)) := by
  rw [top]
  exact agrees_onObject (agrees_loading go)

theorem agrees_storeField (top : c.operands = w :: a :: rest) :
    Agrees x bottom (c.showing x bottom next result c.operands)
      (execute next (.storeField width offset))
      (onObject c.world a .fieldStore
        (storing c rest (a + offset.toUInt64) width w)) := by
  rw [top]
  exact (gives_pop rfl).bind (agrees_onObject (agrees_storing go))

theorem agrees_loadElement (top : c.operands = b :: a :: rest) :
    Agrees x bottom (c.showing x bottom next result c.operands)
      (execute next (.loadElement width))
      (onObject c.world a .elementLoad (onElement c.world a (toInt b) width fun address =>
        loading c rest address width)) := by
  rw [top]
  exact (gives_pop rfl).bind (agrees_onObject (agrees_onElement fun _ => agrees_loading go))

theorem agrees_storeElement (top : c.operands = w :: b :: a :: rest) :
    Agrees x bottom (c.showing x bottom next result c.operands)
      (execute next (.storeElement width))
      (onObject c.world a .elementStore
        (onElement c.world a (toInt b) width fun address =>
          storing c rest address width w)) := by
  rw [top]
  exact (gives_pop rfl).bind ((gives_pop rfl).bind
    (agrees_onObject (agrees_onElement fun _ => agrees_storing go)))

theorem agrees_arrayLength (top : c.operands = a :: rest) :
    Agrees x bottom (c.showing x bottom next result c.operands)
      (execute next .arrayLength)
      (onObject c.world a .arrayLength (loading c rest a .dword)) := by
  rw [top]
  exact agrees_onObject (agrees_loading go)

/-! ## The runtime -/

theorem agrees_pushConst {value : Number.Single}
    (readable : x.program.image.store.readConstant address = .ok value) :
    Agrees x bottom (c.showing x bottom next result c.operands)
      (execute next (.pushConst address))
      (.next (c.goOn (ofSingle value :: c.operands))) := by
  have read : Gives x (c.showing x bottom next result c.operands)
      (Machine.look (Host.readConstant · address)) value.bits
      (c.showing x bottom next result c.operands)
      ((Outcome.next (c.goOn (ofSingle value :: c.operands))).Stops x) := by
    intro m shows_
    have image : m.host.image = x.program.image := congrArg Program.image shows_.program
    have answer : Host.readConstant m.host address = .ok value.bits := by
      show Vm.readConstant m.host address = _
      unfold Vm.readConstant
      rw [image, readable]
    rw [look_eq answer]
    exact ⟨_, shows_, rfl, rfl⟩
  exact agrees_goto go (read.bind (gives_push stops_overflow))

theorem agrees_print {routine : Native} (top : c.operands = w :: rest)
    (arity : routine.arity = 1) {line : String} (printed : Vm.printed? routine [w] = some line)
    (here : Native.atAddress? routine.address = some routine) :
    Agrees x bottom (c.showing x bottom next result c.operands)
      (execute next (.callAbsolute routine.address))
      (.next ((c.inWorld ((c.world.say line).say "\n")).goOn rest)) := by
  have taken : Gives x (c.showing x bottom next result c.operands)
      (Machine.popMany routine.arity []) [w] (c.showing x bottom next result rest)
      ((Outcome.next ((c.inWorld ((c.world.say line).say "\n")).goOn rest)).Stops x) := by
    rw [arity, top]
    exact (gives_pop rfl).bind (gives_pure _)
  unfold execute
  dsimp only
  rw [here]
  exact agrees_next ((c.world.say line).say "\n") go (taken.bind (gives_callNative printed))

theorem agrees_collect (small : x.stackSize ≤ 2 ^ 31) {R : TypeId → UInt64 → Prop}
    (fits : ∀ a ∈ c.active, ∃ f, a.Fits x.program.functions R f)
    (short : ∀ a ∈ c.active, a.index < 2 ^ 32) :
    Agrees x bottom (c.showing x bottom next result c.operands)
      (execute next (.collect c.current.function.toBits (UInt32.ofNat c.current.index)))
      (callRoutine x.program.types x.program.functions .collect c) := by
  unfold callRoutine
  dsimp only
  cases ran : c.world.effect (discard (Heap.Collector.collect x.program.types
    (Words.roots x.program.types x.program.functions c.active))) with
  | ok done world =>
    have collected : Gives x (c.view x bottom next result) _ ()
        { c.view x bottom next result with world }
        ((Outcome.next ((c.inWorld world).goOn c.operands)).Stops x) :=
      gives_collect small fits short ran
    rw [view_eq] at collected
    exact agrees_next world go (gives_registersOf.bind collected)
  | error e world =>
    refine gives_registersOf.bind ?_
    rw [← view_eq]
    exact does_collect_error small fits short ran ⟨rfl, rfl⟩

theorem agrees_printCallStack
    (known : ∀ a ∈ c.active, (∃ f, x.program.functions.get? a.function = some f) ∧
      a.index < 2 ^ 32) :
    Agrees x bottom (c.showing x bottom next result c.operands)
      (execute next
        (.printCallStack c.current.function.toBits (UInt32.ofNat c.current.index)))
      (callRoutine x.program.types x.program.functions .printCallStack c) := by
  have listed : Gives x (c.view x bottom next result) _ () _
      ((callRoutine x.program.types x.program.functions .printCallStack c).Stops x) :=
    gives_printCallStack known
  rw [view_eq] at listed
  exact agrees_next _ go (gives_registersOf.bind listed)

end Simple

end Instructions

end ManagedCode
