import ManagedCode.Proofs.Semantics.Activation

/-!
# The bytecode read directly

What a program means, without words, frames in memory or addresses of code. Values are numbers,
truth values and names of objects; every call under way has its own operands; objects are lists of
values.
Types are looked at only where an instruction names one.

* `Value`, `Object`, `Store`, `State`: what a program works on.
* `Action`, `End`: what an instruction does, and the ways in which a run is over.
* `step`: one instruction. `Reaches`, `Ends`: whole runs.
-/

namespace ManagedCode.Direct

open Bytecode TypeSystem
open Machine (NullUse Stop Trap)
open Number (Single)

/-! ## States -/

inductive Value where
  | int (value : Int32)
  | float (value : Single)
  | bool (value : Bool)
  /-- The name of an object. Zero is the name of none. -/
  | ref (name : UInt64)
  deriving DecidableEq, Repr

def Value.null : Value := .ref 0

/-- What a local, a field or an element of a type starts with. -/
def Value.initial (types : TypeTable) (type : TypeId) : Value :=
  if types.isReference type then .null
  else if type = .float then .float ⟨0⟩
  else if type = .bool then .bool false
  else .int 0

structure Object where
  type : TypeId
  /-- The values of the fields or elements, in order. -/
  values : List Value

/-- The objects that were made so far. An object is named by the address that it was given; it takes
up room for as long as the program runs. -/
structure Store where
  base : UInt64
  capacity : Nat
  used : Nat
  objects : UInt64 → Option Object

namespace Store

def available (s : Store) : Nat := s.capacity - s.used

/-- The bytes that an object with so much data takes up, if they are left. -/
def room? (s : Store) (dataSize : Nat) : Option Nat :=
  (Heap.totalSize? dataSize).filter (· ≤ s.available)

def next (s : Store) : UInt64 := s.base + UInt64.ofNat s.used + UInt64.ofNat Heap.headerSize

def set (s : Store) (name : UInt64) (o : Object) : Store :=
  { s with objects := fun other => if other = name then some o else s.objects other }

/-- Makes an object that takes up so many bytes. -/
def add (s : Store) (total : Nat) (o : Object) : Store :=
  { s.set s.next o with used := s.used + total }

end Store

/-- The calls under way, the objects and what was printed. A caller has taken the arguments off its
operands and stays at its call instruction. -/
structure State where
  current : Activation Value
  /-- The innermost one first. -/
  callers : List (Activation Value)
  store : Store
  output : String

/-- Why a run is over. -/
inductive End where
  /-- The outermost function returned, with a value unless it returns none. -/
  | finished (value : Option Value)
  | stopped (why : Stop)
  /-- The next instruction has no meaning. -/
  | stuck

abbrev Action := EStateM End State

/-! ## Operands -/

def State.withOperands (s : State) (operands : List Value) : State :=
  { s with current := { s.current with operands } }

def trap {α : Type} (t : Trap) : Action α := throw (.stopped (.trap t))

def pop : Action Value := fun s =>
  match s.current.operands with
  | value :: rest => .ok value (s.withOperands rest)
  | [] => .error .stuck s

/-- Takes operands off; the one pushed first comes first. -/
def popMany (n : Nat) : Action (List Value) := fun s =>
  let operands := s.current.operands
  if n ≤ operands.length then
    .ok (operands.take n).reverse (s.withOperands (operands.drop n))
  else .error .stuck s

def push (value : Value) : Action Unit :=
  modify fun s => s.withOperands (value :: s.current.operands)

def popInt : Action Int32 := do
  match ← pop with
  | .int value => return value
  | _ => throw .stuck

def popFloat : Action Single := do
  match ← pop with
  | .float value => return value
  | _ => throw .stuck

def popBool : Action Bool := do
  match ← pop with
  | .bool value => return value
  | _ => throw .stuck

/-- Takes the name of an object off, which must not be null. -/
def popName (use : NullUse) : Action UInt64 := do
  match ← pop with
  | .ref name => if name = 0 then trap (.null use) else return name
  | _ => throw .stuck

/-- Goes on with what there is. -/
def expect {α : Type} : Option α → Action α
  | some a => return a
  | none => throw .stuck

def object (name : UInt64) : Action Object := do expect ((← get).store.objects name)

def goto (index : Nat) : Action Unit :=
  modify fun s => { s with current := { s.current with index } }

def advance : Action Unit :=
  modify fun s => { s with current := { s.current with index := s.current.index + 1 } }

def say (text : String) : Action Unit :=
  modify fun s => { s with output := s.output ++ text }

/-! ## Numbers and conditions -/

/-- Integers wrap around; only an integer cannot be divided by zero. -/
def arith (op : ArithOp) : Value → Value → Action Value
  | .int a, .int b =>
    match op with
    | .add => return .int (a + b)
    | .sub => return .int (a - b)
    | .mul => return .int (a * b)
    | .div => if b = 0 then trap (.divideByZero a) else return .int (a / b)
  | .float a, .float b =>
    match op with
    | .add => return .float (a.add b)
    | .sub => return .float (a.sub b)
    | .mul => return .float (a.mul b)
    | .div => return .float (a.div b)
  | _, _ => throw .stuck

/-- A condition on things that have no order. -/
def equates? (condition : Condition) (same : Bool) : Option Bool :=
  match condition with
  | .equal => some same
  | .notEqual => some !same
  | _ => none

/-- A condition on two values of one kind. -/
def holds? (condition : Condition) : Value → Value → Option Bool
  | .int a, .int b => some (condition.evalInt a b)
  | .float a, .float b => some (condition.evalSingle a b)
  | .bool a, .bool b => equates? condition (a == b)
  | .ref a, .ref b => equates? condition (a == b)
  | _, _ => none

def test (condition : Condition) : Action Bool := do
  let right ← pop
  let left ← pop
  expect (holds? condition left right)

/-! ## Objects -/

variable (types : TypeTable) (functions : FunctionTable)

/-- Pushes a new object, unless the heap is full. -/
def allocate (dataSize : Nat) (o : Object) : Action Unit := do
  let store := (← get).store
  match store.room? dataSize with
  | none => throw (.stopped (.heapExhausted dataSize store.available))
  | some total =>
    modify ({ · with store := store.add total o })
    push (.ref store.next)

def newObject (type : TypeId) : Action Unit := do
  let layout ← expect (types.layout? type)
  allocate (max layout.size Heap.minDataSize)
    ⟨type, layout.fields.map fun f => .initial types f.type⟩

def newArray (type : TypeId) (length : Int32) : Action Unit := do
  if length < 0 then trap (.negativeLength (types.name type) length)
  let element ← expect (types.element? type)
  let length := length.toInt.toNat
  allocate (Heap.arrayDataSize (types.size element) length)
    ⟨type, List.replicate length (.initial types element)⟩

/-- An index must be one of an element. -/
def position (o : Object) (index : Int32) : Action Nat :=
  if 0 ≤ index.toInt ∧ index.toInt < o.values.length then return index.toInt.toNat
  else trap (.indexOutside index (Int32.ofNat o.values.length))

def assign (name : UInt64) (o : Object) (n : Nat) (value : Value) : Action Unit :=
  modify fun s => { s with store := s.store.set name { o with values := o.values.set n value } }

/-! ## Calls -/

def listing (active : List (Activation Value)) : List String :=
  active.map fun a =>
    match functions.get? a.function with
    | some f => s!"  at {f.signature types} [{Text.position a.index}]\n"
    | none => ""

/-- Calls a routine of the runtime. A collection does nothing. -/
def callRoutine : Native → Action Unit
  | .collect => return ()
  | .printCallStack => do
      let s ← get
      (listing types functions (s.current :: s.callers)).forM say
  | .printInt => do
      say (toString (← popInt).toInt)
      say "\n"
  | .printFloat => do
      say (← popFloat).text
      say "\n"
  | .printBool => do
      say (if ← popBool then "true" else "false")
      say "\n"

def enter (callee : FunctionId) (g : Function) (arguments : List Value) : Action Unit :=
  modify fun s => { s with
    current := ⟨callee, 0, arguments, g.locals.map (.initial types), []⟩
    callers := s.current :: s.callers }

/-- Calls a function, on an object if `onObject` says so. -/
def call (callee : FunctionId) (onObject : Bool) : Action Unit := do
  let g ← expect (functions.get? callee)
  match g.native? with
  | some routine =>
    callRoutine types functions routine
    advance
  | none =>
    let arguments ← popMany g.argumentCount
    if onObject ∧ arguments.head? = some .null then trap (.null .instanceCall)
    enter types callee g arguments

/-- Goes back to the caller with a value, if there is one. -/
def leave (value : Option Value) : Action Unit := fun s =>
  match s.callers with
  | [] => .error (.finished value) s
  | a :: rest =>
    .ok () { s with
      current := { a with index := a.index + 1, operands := value.toList ++ a.operands }
      callers := rest }

def ret (f : Function) : Action Unit := do
  if f.definition.returnType = .void then leave none else leave (some (← pop))

/-! ## Instructions -/

/-- Executes an instruction that control goes on behind. -/
def compute : Instr → Action Unit
  | .nop => return ()
  | .pop => discard pop
  | .dup => do
      let value ← pop
      push value
      push value
  | .loadInt value => push (.int value)
  | .loadFloat value => push (.float value)
  | .loadBool value => push (.bool value)
  | .loadNull _ => push .null
  | .loadLocal n => do push (← expect (← get).current.locals[n.toNat]?)
  | .storeLocal n => do
      let value ← pop
      modify fun s => { s with current :=
        { s.current with locals := s.current.locals.set n.toNat value } }
  | .loadArgument n => do push (← expect (← get).current.arguments[n.toNat]?)
  | .arith op => do
      let right ← pop
      let left ← pop
      push (← arith op left right)
  | .and => do
      let right ← popBool
      let left ← popBool
      push (.bool (left && right))
  | .or => do
      let right ← popBool
      let left ← popBool
      push (.bool (left || right))
  | .not => do push (.bool !(← popBool))
  | .intToFloat => do push (.float (.ofInt (← popInt)))
  | .floatToInt => do push (.int (← popFloat).toInt)
  | .compare condition => do push (.bool (← test condition))
  | .newArray type => do newArray types type (← popInt)
  | .loadElement _ => do
      let index ← popInt
      let o ← object (← popName .elementLoad)
      push (← expect o.values[← position o index]?)
  | .storeElement _ => do
      let value ← pop
      let index ← popInt
      let name ← popName .elementStore
      let o ← object name
      assign name o (← position o index) value
  | .arrayLength => do
      let o ← object (← popName .arrayLength)
      push (.int (Int32.ofNat o.values.length))
  | .newObject type => newObject types type
  | .loadField r => do
      let o ← object (← popName .fieldLoad)
      push (← expect o.values[r.index]?)
  | .storeField r => do
      let value ← pop
      let name ← popName .fieldStore
      assign name (← object name) r.index value
  | _ => throw .stuck

def perform (f : Function) : Instr → Action Unit
  | .branch target => goto target
  | .branchIf condition target => do if ← test condition then goto target else advance
  | .call callee => call types functions callee false
  | .callInstance callee => call types functions callee true
  | .ret => ret f
  | instr => do
      compute types instr
      advance

def step : Action Unit := do
  let a := (← get).current
  let f ← expect (functions.get? a.function)
  perform types functions f (← expect f.code[a.index]?)

/-! ## Runs -/

def start (id : FunctionId) (f : Function) (arguments : List Value) (store : Store)
    (output : String) : State :=
  ⟨⟨id, 0, arguments, f.locals.map (.initial types), []⟩, [], store, output⟩

inductive Reaches (s : State) : State → Prop where
  | refl : Reaches s s
  | tail {t u : State} (before : Reaches s t) (stepped : step types functions t = .ok () u) :
      Reaches s u

/-- How a run is over, and the state that it leaves. -/
def Ends (s : State) (e : End) (left : State) : Prop :=
  ∃ last, Reaches types functions s last ∧ step types functions last = .error e left

end ManagedCode.Direct
