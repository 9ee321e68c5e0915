import ManagedCode.Bytes
import ManagedCode.Target.Op

/-!
# The bytes of machine instructions

An instruction is one opcode byte followed by its operands, words in little-endian order.

* `Op.encode` gives the bytes of an instruction and `Op.length` counts them.
* `decode` reads one instruction off the front of a byte string and returns what follows.
  Operands are read from left to right, so a bad operand is reported before a missing one.
* `patchOffset?` tells where the operand that linking fills in lies.
-/

namespace ManagedCode.Target

open Bytecode (Condition)

inductive DecodeError where
  | invalidOpcode (opcode : UInt8)
  | invalidOperand (opcode byte : UInt8)
  | truncated
  deriving DecidableEq, Repr

namespace DecodeError

def kind : DecodeError → String
  | invalidOpcode _ => "InvalidOpcode"
  | invalidOperand .. => "InvalidOperand"
  | truncated => "Truncated"

def message : DecodeError → String
  | invalidOpcode opcode => s!"invalid opcode byte {Text.hexByte opcode}"
  | invalidOperand opcode byte =>
      s!"invalid operand byte {Text.hexByte byte} for opcode {Text.hexByte opcode}"
  | truncated => "instruction truncated"

end DecodeError

namespace Op

def word16 (w : UInt16) : List UInt8 := encodeLE 2 w.toUInt64
def word32 (w : UInt32) : List UInt8 := encodeLE 4 w.toUInt64
def word64 (w : UInt64) : List UInt8 := encodeLE 8 w
def signed32 (i : Int32) : List UInt8 := word32 i.toUInt32

def encode : Op → List UInt8
  | enter arguments locals => 0x01 :: word16 arguments ++ word16 locals
  | leave => [0x02]
  | ret slots => 0x03 :: word16 slots
  | pushImm value => 0x04 :: word64 value
  | pushConst address => 0x05 :: word64 address
  | loadSlot distance => 0x06 :: signed32 distance
  | storeSlot distance => 0x07 :: signed32 distance
  | pop => [0x08]
  | dup => [0x09]
  | pushResult => [0x0A]
  | popResult => [0x0B]
  | arith kind op => [0x10, kind.toByte, arithByte op]
  | and => [0x11]
  | or => [0x12]
  | not => [0x13]
  | intToFloat => [0x14]
  | floatToInt => [0x15]
  | compare kind condition => [0x16, kind.toByte, condition.toByte]
  | jump distance => 0x20 :: signed32 distance
  | jumpIf kind condition distance =>
      0x21 :: kind.toByte :: condition.toByte :: signed32 distance
  | callRelative distance => 0x22 :: signed32 distance
  | callAbsolute address => 0x23 :: word64 address
  | nullCheck depth => 0x24 :: word16 depth
  | newObject type => 0x30 :: word32 type
  | newArray type => 0x31 :: word32 type
  | loadField width offset => 0x32 :: width.toByte :: word32 offset
  | storeField width offset => 0x33 :: width.toByte :: word32 offset
  | loadElement width => [0x34, width.toByte]
  | storeElement width => [0x35, width.toByte]
  | arrayLength => [0x36]
  | pushFrame function instruction => 0x40 :: word64 function ++ word32 instruction
  | popFrame => [0x41]
  | collect function instruction => 0x42 :: word64 function ++ word32 instruction
  | printCallStack function instruction => 0x43 :: word64 function ++ word32 instruction

def length : Op → Nat
  | enter .. => 5
  | ret _ | nullCheck _ | arith .. | compare .. => 3
  | pushImm _ | pushConst _ | callAbsolute _ => 9
  | loadSlot _ | storeSlot _ | jump _ | callRelative _ | newObject _ | newArray _ => 5
  | jumpIf .. => 7
  | loadField .. | storeField .. => 6
  | loadElement _ | storeElement _ => 2
  | pushFrame .. | collect .. | printCallStack .. => 13
  | leave | pop | dup | pushResult | popResult | and | or | not | intToFloat | floatToInt
  | arrayLength | popFrame => 1

/-- No instruction takes more bytes than this. -/
def maxLength : Nat := 13

@[simp] theorem length_encode (op : Op) : op.encode.length = op.length := by
  cases op <;> rfl

theorem length_le_maxLength (op : Op) : op.length ≤ maxLength := by
  cases op <;> simp [length, maxLength]

/-- Where the operand of a jump or a call lies in the instruction. -/
def patchOffset? : Op → Option Nat
  | jump _ => some 1
  | jumpIf .. => some 3
  | callRelative _ => some 1
  | callAbsolute _ => some 1
  | _ => none

end Op

/-- Reads from the front of a byte string. -/
abbrev Decoder := StateT (List UInt8) (Except DecodeError)

namespace Decoder

def byte : Decoder UInt8 := fun
  | b :: rest => .ok (b, rest)
  | [] => .error .truncated

/-- A little-endian word of `n` bytes. -/
def word (n : Nat) : Decoder UInt64 := fun bytes =>
  if n ≤ bytes.length then .ok (decodeLE (bytes.take n), bytes.drop n) else .error .truncated

def word16 : Decoder UInt16 := return (← word 2).toUInt16
def word32 : Decoder UInt32 := return (← word 4).toUInt32
def word64 : Decoder UInt64 := word 8
def signed32 : Decoder Int32 := return (← word32).toInt32

/-- An operand of one byte, not all of which need have a meaning. -/
def operand {α : Type} (opcode : UInt8) (read : UInt8 → Option α) : Decoder α := do
  let b ← byte
  match read b with
  | some a => return a
  | none => throw (.invalidOperand opcode b)

end Decoder

open Decoder in
def decodeOperands (opcode : UInt8) : Decoder Op := do
  match opcode with
  | 0x01 => return .enter (← word16) (← word16)
  | 0x02 => return .leave
  | 0x03 => return .ret (← word16)
  | 0x04 => return .pushImm (← word64)
  | 0x05 => return .pushConst (← word64)
  | 0x06 => return .loadSlot (← signed32)
  | 0x07 => return .storeSlot (← signed32)
  | 0x08 => return .pop
  | 0x09 => return .dup
  | 0x0A => return .pushResult
  | 0x0B => return .popResult
  | 0x10 => return .arith (← operand opcode NumericKind.ofByte?) (← operand opcode arithOfByte?)
  | 0x11 => return .and
  | 0x12 => return .or
  | 0x13 => return .not
  | 0x14 => return .intToFloat
  | 0x15 => return .floatToInt
  | 0x16 =>
      return .compare (← operand opcode CompareKind.ofByte?) (← operand opcode Condition.ofByte?)
  | 0x20 => return .jump (← signed32)
  | 0x21 =>
      return .jumpIf (← operand opcode CompareKind.ofByte?) (← operand opcode Condition.ofByte?)
        (← signed32)
  | 0x22 => return .callRelative (← signed32)
  | 0x23 => return .callAbsolute (← word64)
  | 0x24 => return .nullCheck (← word16)
  | 0x30 => return .newObject (← word32)
  | 0x31 => return .newArray (← word32)
  | 0x32 => return .loadField (← operand opcode Width.ofByte?) (← word32)
  | 0x33 => return .storeField (← operand opcode Width.ofByte?) (← word32)
  | 0x34 => return .loadElement (← operand opcode Width.ofByte?)
  | 0x35 => return .storeElement (← operand opcode Width.ofByte?)
  | 0x36 => return .arrayLength
  | 0x40 => return .pushFrame (← word64) (← word32)
  | 0x41 => return .popFrame
  | 0x42 => return .collect (← word64) (← word32)
  | 0x43 => return .printCallStack (← word64) (← word32)
  | _ => throw (.invalidOpcode opcode)

/-- The instruction at the front of a byte string, and the bytes after it. -/
def decode : Decoder Op := do
  decodeOperands (← Decoder.byte)

/-- Decodes instructions one after the other, at least one, until the bytes are used up. Gives
each with its offset, the offset reached, and why decoding stopped if it did so early. Every
instruction takes at least a byte, so as many rounds as there are bytes suffice. -/
def decodeStream : Nat → Nat → List UInt8 → Array (Nat × Op) →
    Array (Nat × Op) × Nat × Option DecodeError
  | 0, offset, _, found => (found, offset, none)
  | fuel + 1, offset, bytes, found =>
      match decode bytes with
      | .error e => (found, offset, some e)
      | .ok (op, []) => (found.push (offset, op), offset + op.length, none)
      | .ok (op, rest) => decodeStream fuel (offset + op.length) rest (found.push (offset, op))

/-- Every instruction of a byte string, as far as it can be decoded. -/
def decodeAll (bytes : List UInt8) : Array (Nat × Op) × Nat × Option DecodeError :=
  decodeStream (bytes.length + 1) 0 bytes #[]

end ManagedCode.Target
