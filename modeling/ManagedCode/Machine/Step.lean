import ManagedCode.Machine.Basic

/-!
# Running machine code

`Machine.step` fetches, decodes and executes one instruction; `Machine.run` calls a function
and steps until it returns to the halt address. A slot holds an integer sign-extended from 32
bits, a single-precision number zero-extended from its 32 bits, a truth value as zero or one,
or a reference as an address.
-/

namespace ManagedCode.Machine

open Bytecode (ArithOp Condition Native)
open Number (Single)
open Target (Op Width NumericKind CompareKind)

/-! ## Slots -/

/-- The integer in a slot. -/
def toInt (word : UInt64) : Int32 := word.toUInt32.toInt32

def ofInt (value : Int32) : UInt64 := value.toInt64.toUInt64

/-- The single-precision number in a slot. -/
def toSingle (word : UInt64) : Single := ⟨word.toUInt32⟩

def ofSingle (value : Single) : UInt64 := value.bits.toUInt64

def ofBool (value : Bool) : UInt64 := if value then 1 else 0

/-- Integer arithmetic wraps; there is no quotient by zero. -/
def arithInt? (op : ArithOp) (left right : Int32) : Option Int32 :=
  match op with
  | .add => some (left + right)
  | .sub => some (left - right)
  | .mul => some (left * right)
  | .div => if right = 0 then none else some (left / right)

def arithSingle (op : ArithOp) (left right : Single) : Single :=
  match op with
  | .add => left.add right
  | .sub => left.sub right
  | .mul => left.mul right
  | .div => left.div right

def compare (kind : CompareKind) (condition : Condition) (left right : UInt64) : Bool :=
  match kind with
  | .int => condition.evalInt (toInt left) (toInt right)
  | .float => condition.evalSingle (toSingle left) (toSingle right)
  | .reference => condition.evalWord left right

/-- The address at a distance from another. -/
def displace (address : UInt64) (distance : Int32) : UInt64 :=
  address + distance.toInt64.toUInt64

/-! ## Instructions -/

variable {σ : Type} [Host σ]

/-- Copies the arguments that the caller pushed, the last `left` of them. -/
def copyArguments (arguments : Nat) : Nat → Action σ Unit
  | 0 => return ()
  | left + 1 => do
      let distance := Stack.callerArgumentOffset arguments (arguments - (left + 1))
      push (← readSlot (Stack.slotAddress (← registersOf).bp distance))
      copyArguments arguments left

def pushZeros : Nat → Action σ Unit
  | 0 => return ()
  | n + 1 => do
      push 0
      pushZeros n

/-- Pops two operands and pushes what they give. -/
@[inline] def binary (f : UInt64 → UInt64 → UInt64) : Action σ Unit := do
  let right ← pop
  let left ← pop
  push (f left right)

/-- Pops an operand and pushes what it gives. -/
@[inline] def unary (f : UInt64 → UInt64) : Action σ Unit := do
  push (f (← pop))

/-- The address of an element, when the index is inside the array. -/
def elementAddress (array : UInt64) (index : Int32) (width : Width) : Action σ UInt64 := do
  let length := toInt (← load array .dword)
  if index < 0 ∨ length ≤ index then trap (.indexOutside index length)
  else
    return array + UInt64.ofNat Heap.lengthSize
      + index.toInt64.toUInt64 * UInt64.ofNat width.bytes

/-- Executes an instruction. `next` is the address after it, where the instruction pointer
already is. -/
def execute (next : UInt64) : Op → Action σ Unit
  | .enter arguments locals => do
      push (← registersOf).bp
      setRegisters fun r => { r with bp := r.sp }
      copyArguments arguments.toNat arguments.toNat
      pushZeros locals.toNat
  | .leave => do
      setRegisters fun r => { r with sp := r.bp }
      let saved ← pop
      setRegisters ({ · with bp := saved })
  | .ret slots => do
      let address ← pop
      setRegisters fun r => { r with sp := r.sp + slots.toUInt64 * Stack.slotSize, ip := address }
  | .pushImm value => push value
  | .pushConst address => do
      let bits ← look (Host.readConstant · address)
      push bits.toUInt64
  | .loadSlot distance => do
      push (← readSlot (Stack.slotAddress (← registersOf).bp distance))
  | .storeSlot distance => do
      let value ← pop
      writeSlot (Stack.slotAddress (← registersOf).bp distance) value
  | .pop => discard pop
  | .dup => do push (← peek 0)
  | .pushResult => do push (← registersOf).result
  | .popResult => do
      let value ← pop
      setRegisters ({ · with result := value })
  | .arith .int op => do
      let right ← pop
      let left ← pop
      match arithInt? op (toInt left) (toInt right) with
      | some value => push (ofInt value)
      | none => trap (.divideByZero (toInt left))
  | .arith .float op =>
      binary fun left right => ofSingle (arithSingle op (toSingle left) (toSingle right))
  | .and => binary fun left right => ofBool (left != 0 && right != 0)
  | .or => binary fun left right => ofBool (left != 0 || right != 0)
  | .not => unary fun value => ofBool (value == 0)
  | .intToFloat => unary fun value => ofSingle (.ofInt (toInt value))
  | .floatToInt => unary fun value => ofInt (toSingle value).toInt
  | .compare kind condition =>
      binary fun left right => ofBool (compare kind condition left right)
  | .jump distance => goto (displace next distance)
  | .jumpIf kind condition distance => do
      let right ← pop
      let left ← pop
      if compare kind condition left right then goto (displace next distance)
  | .callRelative distance => do
      push next
      goto (displace next distance)
  | .callAbsolute address =>
      match Native.atAddress? address with
      | some routine => do
          let arguments ← popMany routine.arity []
          ask (Host.callNative routine arguments)
      | none => do
          push next
          goto address
  | .nullCheck depth => do
      if (← peek depth) = 0 then trap (.null .instanceCall)
  | .newObject type => do
      let object ← ask (Host.newObject type)
      push object
  | .newArray type => do
      let length := toInt (← pop)
      let array ← ask (Host.newArray type length)
      push array
  | .loadField width offset => do
      let object ← popObject .fieldLoad
      push (← load (object + offset.toUInt64) width)
  | .storeField width offset => do
      let value ← pop
      let object ← popObject .fieldStore
      store (object + offset.toUInt64) width value
  | .loadElement width => do
      let index := toInt (← pop)
      let array ← popObject .elementLoad
      let address ← elementAddress array index width
      push (← load address width)
  | .storeElement width => do
      let value ← pop
      let index := toInt (← pop)
      let array ← popObject .elementStore
      let address ← elementAddress array index width
      store address width value
  | .arrayLength => do
      let array ← popObject .arrayLength
      push (← load array .dword)
  | .pushFrame function instruction => ask (Host.pushFrame function instruction)
  | .popFrame => ask Host.popFrame
  | .collect function instruction => do
      let bp := (← registersOf).bp
      ask (Host.collect bp function instruction)
  | .printCallStack function instruction => do
      let bp := (← registersOf).bp
      ask (Host.printCallStack bp function instruction)

/-- Makes the instruction at the instruction pointer the one under way. -/
def begin : Action σ UInt64 := fun ⟨registers, _, host⟩ =>
  .ok registers.ip ⟨registers, registers.ip, host⟩

def step : Action σ Unit := do
  let address ← begin
  let bytes ← ask (Host.fetch address)
  match Target.decode bytes with
  | .error e => fault e.message
  | .ok (op, _) =>
      let next := address + UInt64.ofNat op.length
      goto next
      execute next op

/-! ## Runs -/

/-- Steps until the halt address is reached, at most `fuel` times. Gives the result, or nothing
if the run is not over. -/
def resume : Nat → Action σ (Option UInt64)
  | 0 => do
      let r ← registersOf
      return if r.ip = haltAddress then some r.result else none
  | fuel + 1 => do
      let r ← registersOf
      if r.ip = haltAddress then return some r.result
      step
      resume fuel

def pushAll : List UInt64 → Action σ Unit
  | [] => return ()
  | value :: rest => do
      push value
      pushAll rest

/-- Sets the registers for a call of the function at `entry`. -/
def start (host : σ) (entry : UInt64) : Machine σ :=
  { registers := { ip := entry, sp := Host.stackTop host, bp := 0, result := 0 }
    current := haltAddress
    host }

/-- Calls a function with arguments and runs it, at most `fuel` steps. -/
def run (fuel : Nat) (arguments : List UInt64) : Action σ (Option UInt64) := do
  pushAll arguments
  push haltAddress
  resume fuel

end ManagedCode.Machine
