import ManagedCode.Proofs.Semantics.Activation
import ManagedCode.Vm.Run

/-!
# The bytecode on words

`Words.step` executes one instruction where every value is a word of 64 bits, whatever it stands
for. How a word is read follows from the operand types that were found when the function was
checked, as it does in compiled code. No promise is made about the words: a reference may lead
nowhere, which leaves the instruction without a meaning.
-/

namespace ManagedCode.Words

open Bytecode TypeSystem
open Compile (Source)
open Heap (Collector)
open Machine (Stop Trap NullUse toInt ofInt toSingle ofSingle ofBool)
open Target (Width NumericKind CompareKind)

def load? (w : World) (address : UInt64) (width : Width) : Option UInt64 :=
  Machine.loadFrom? w.heap.region address width

/-- The world after a value is put at an address of the heap. -/
def store? (w : World) (address : UInt64) (width : Width) (value : UInt64) : Option World :=
  if w.heap.region.contains address width.bytes then
    some { w with heap := { w.heap with
      region := Machine.storeTo w.heap.region address width value } }
  else none

/-- Goes on if an object is not null. -/
def onObject (w : World) (object : UInt64) (use : NullUse) (k : Outcome UInt64) : Outcome UInt64 :=
  if object = 0 then .stopped (.trap (.null use)) w else k

/-- The address of an element, when the index is inside the array. -/
def onElement (w : World) (array : UInt64) (index : Int32) (width : Width)
    (k : UInt64 → Outcome UInt64) : Outcome UInt64 :=
  match load? w array .dword with
  | none => .stuck
  | some length =>
    if index < 0 ∨ toInt length ≤ index then
      .stopped (.trap (.indexOutside index (toInt length))) w
    else
      k (array + UInt64.ofNat Heap.lengthSize
        + index.toInt64.toUInt64 * UInt64.ofNat width.bytes)

def loading (c : Configuration UInt64) (rest : List UInt64) (address : UInt64) (width : Width) :
    Outcome UInt64 :=
  match load? c.world address width with
  | some value => .next (c.goOn (value :: rest))
  | none => .stuck

def storing (c : Configuration UInt64) (rest : List UInt64) (address : UInt64) (width : Width)
    (value : UInt64) : Outcome UInt64 :=
  match store? c.world address width value with
  | some world => .next ((c.inWorld world).goOn rest)
  | none => .stuck

def allocating (c : Configuration UInt64) (rest : List UInt64)
    (act : EStateM Heap.AllocationError Collector UInt64) : Outcome UInt64 :=
  match c.world.effect act with
  | .ok object world => .next ((c.inWorld world).goOn (object :: rest))
  | .error e world => .stopped (Vm.allocationFailed e) world

variable (types : TypeTable) (functions : FunctionTable)

/-- The words of an activation with their types: arguments, locals and operands, the deepest one
first. -/
def slots (f : Function) (a : Activation UInt64) : List (TypeId × UInt64) :=
  f.definition.parameters.zip a.arguments ++ f.locals.zip a.locals
    ++ ((f.operandTypes a.index).zip a.operands).reverse

/-- The references that the activations hold. -/
def roots (active : List (Activation UInt64)) : List UInt64 :=
  active.flatMap fun a =>
    match functions.get? a.function with
    | some f => ((slots f a).filter fun slot => types.isReference slot.1).map (·.2)
    | none => []

def listing (active : List (Activation UInt64)) : List String :=
  active.map fun a =>
    match functions.get? a.function with
    | some f => s!"  at {f.signature types} [{Text.position a.index}]\n"
    | none => ""

def callRoutine (routine : Native) (c : Configuration UInt64) : Outcome UInt64 :=
  match routine with
  | .collect =>
    match c.world.effect (discard (Collector.collect types (roots types functions c.active))) with
    | .ok _ world => .next ((c.inWorld world).goOn c.operands)
    | .error e world => .stopped (.gc e) world
  | .printCallStack =>
    .next ((c.inWorld { c.world with
      output := (listing types functions c.active).foldl (· ++ ·) c.world.output }).goOn c.operands)
  | _ =>
    c.pop1 fun value rest =>
      match Vm.printed? routine [value] with
      | some line => .next ((c.inWorld ((c.world.say line).say "\n")).goOn rest)
      | none => .stuck

/-- Calls a function, on an object if `onObject` says so. -/
def call (c : Configuration UInt64) (callee : FunctionId) (onObject : Bool) : Outcome UInt64 :=
  match functions.get? callee with
  | none => .stuck
  | some g =>
    match g.native? with
    | some routine => callRoutine types functions routine c
    | none =>
      if onObject ∧ c.operands[g.argumentCount - 1]? = some 0 then
        .stopped (.trap (.null .instanceCall)) c.world
      else c.enter callee g.argumentCount (List.replicate g.locals.length 0)

def ret (f : Function) (c : Configuration UInt64) : Outcome UInt64 :=
  if f.definition.returnType = .void then c.leave f.argumentCount none
  else c.pop1 fun value _ => c.leave f.argumentCount (some value)

def perform (f : Function) (c : Configuration UInt64) : Instr → Outcome UInt64
  | .nop => .next (c.goOn c.operands)
  | .pop => c.pop1 fun _ rest => .next (c.goOn rest)
  | .dup => c.pop1 fun value rest => .next (c.goOn (value :: value :: rest))
  | .loadInt value => .next (c.goOn (ofInt value :: c.operands))
  | .loadFloat value => .next (c.goOn (ofSingle value :: c.operands))
  | .loadBool value => .next (c.goOn (ofBool value :: c.operands))
  | .loadNull _ => .next (c.goOn (0 :: c.operands))
  | .loadLocal n =>
    match c.current.locals[n.toNat]? with
    | some value => .next (c.goOn (value :: c.operands))
    | none => .stuck
  | .storeLocal n =>
    c.pop1 fun value rest => .next ((c.setLocal n.toNat value).goOn rest)
  | .loadArgument n =>
    match c.current.arguments[n.toNat]? with
    | some value => .next (c.goOn (value :: c.operands))
    | none => .stuck
  | .arith op =>
    c.pop2 fun left right rest =>
      match Source.numericKind ⟨types, functions, c.current.function, f⟩
        (f.operandTypes c.current.index).head? with
      | .int =>
        match Machine.arithInt? op (toInt left) (toInt right) with
        | some value => .next (c.goOn (ofInt value :: rest))
        | none => .stopped (.trap (.divideByZero (toInt left))) c.world
      | .float =>
        .next (c.goOn
          (ofSingle (Machine.arithSingle op (toSingle left) (toSingle right)) :: rest))
  | .and => c.pop2 fun left right rest => .next (c.goOn (ofBool (left != 0 && right != 0) :: rest))
  | .or => c.pop2 fun left right rest => .next (c.goOn (ofBool (left != 0 || right != 0) :: rest))
  | .not => c.pop1 fun value rest => .next (c.goOn (ofBool (value == 0) :: rest))
  | .intToFloat => c.pop1 fun value rest => .next (c.goOn (ofSingle (.ofInt (toInt value)) :: rest))
  | .floatToInt => c.pop1 fun value rest => .next (c.goOn (ofInt (toSingle value).toInt :: rest))
  | .compare condition =>
    c.pop2 fun left right rest =>
      .next (c.goOn (ofBool (Machine.compare (kind f c) condition left right) :: rest))
  | .branch target => .next (c.goto target c.operands)
  | .branchIf condition target =>
    c.pop2 fun left right rest =>
      if Machine.compare (kind f c) condition left right then .next (c.goto target rest)
      else .next (c.goOn rest)
  | .call callee => call types functions c callee false
  | .callInstance callee => call types functions c callee true
  | .ret => ret f c
  | .newArray type =>
    c.pop1 fun length rest =>
      if toInt length < 0 then
        .stopped (.trap (.negativeLength (types.name type) (toInt length))) c.world
      else allocating c rest (Collector.newArray types type (toInt length).toInt)
  | .loadElement type =>
    c.pop2 fun array index rest =>
      onObject c.world array .elementLoad <|
        onWidth ((types.element? type).bind (Width.ofSize? <| types.size ·)) fun width =>
          onElement c.world array (toInt index) width fun address => loading c rest address width
  | .storeElement type =>
    c.pop3 fun array index value rest =>
      onObject c.world array .elementStore <|
        onWidth ((types.element? type).bind (Width.ofSize? <| types.size ·)) fun width =>
          onElement c.world array (toInt index) width fun address =>
            storing c rest address width value
  | .arrayLength =>
    c.pop1 fun array rest =>
      onObject c.world array .arrayLength (loading c rest array .dword)
  | .newObject type => allocating c c.operands (Collector.newObject types type)
  | .loadField r =>
    c.pop1 fun object rest =>
      onObject c.world object .fieldLoad <|
        onWidth (Width.ofSize? (types.size r.type)) fun width =>
          loading c rest (object + r.offset.toUInt64) width
  | .storeField r =>
    c.pop2 fun object value rest =>
      onObject c.world object .fieldStore <|
        onWidth (Width.ofSize? (types.size r.type)) fun width =>
          storing c rest (object + r.offset.toUInt64) width value
where
  kind (f : Function) (c : Configuration UInt64) : CompareKind :=
    Source.compareKind ⟨types, functions, c.current.function, f⟩
      (f.operandTypes c.current.index).head?
  onWidth (width? : Option Width) (k : Width → Outcome UInt64) : Outcome UInt64 :=
    match width? with
    | some width => k width
    | none => .stuck

def step (c : Configuration UInt64) : Outcome UInt64 :=
  match functions.get? c.current.function with
  | none => .stuck
  | some f =>
    match f.code[c.current.index]? with
    | none => .stuck
    | some instr => perform types functions f c instr

def entered (id : FunctionId) (f : Function) (arguments : List UInt64)
    (callers : List (Activation UInt64)) (world : World) : Configuration UInt64 :=
  ⟨⟨id, 0, arguments, List.replicate f.locals.length 0, []⟩, callers, world⟩

def start (id : FunctionId) (f : Function) (arguments : List UInt64) (world : World) :
    Configuration UInt64 :=
  entered id f arguments [] world

end ManagedCode.Words
