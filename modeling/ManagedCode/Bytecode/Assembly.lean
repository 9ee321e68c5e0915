import ManagedCode.Bytecode.Body
import ManagedCode.Text.Written

/-!
# Written bytecode

An instruction is written as its mnemonic with an operand. Types are written by name or number,
functions by signature or handle, and branch targets as positions or labels. A draft collects
the lines of a body and numbers its labels in order of first appearance.
-/

namespace ManagedCode.Bytecode

open TypeSystem (TypeId TypeTable FieldRef)
open Text (Written)

/-- What written names refer to. -/
structure Names where
  types : TypeTable
  function? : String → Option FunctionId

namespace Names

/-- A type by its name or its number. -/
def readType? (n : Names) : Written → Option TypeId
  | .text name => n.types.lookup name
  | w => w.word32?.bind TypeId.ofRaw?

/-- A function by its handle or its signature. -/
def readFunction? (n : Names) (w : Written) : Option FunctionId :=
  match w with
  | .text s => if s.startsWith "0x" then w.word64?.map Handle.ofBits else n.function? s
  | .int _ => w.word64?.map Handle.ofBits

/-- An instruction whose operand is a number, a type or a function. -/
def readInstr? (n : Names) (mnemonic : String) (operand : Written) : Option Instr :=
  match mnemonic with
  | "ldc.i4" => operand.signed32?.map .loadInt
  | "ldc.r4" => operand.pattern32?.map (.loadFloat ⟨·⟩)
  | "ldloc" | "stloc" | "ldarg" => operand.word16?.bind (Instr.ofSlot? mnemonic)
  | "call" | "callinst" => (n.readFunction? operand).bind (Instr.ofCallee? mnemonic)
  | "br" | "beq" | "bne" | "bgt" | "bge" | "blt" | "ble" =>
      (operand.nat? 64).bind (Instr.ofTarget? mnemonic)
  | _ => (n.readType? operand).bind (Instr.ofType? mnemonic)

end Names

/-- The lines of a body so far, and its labels in order of first appearance. -/
structure Draft where
  items : Array Item
  labels : Array String

namespace Draft

def empty : Draft := ⟨#[], #[]⟩

def push (d : Draft) (i : Instr) : Draft :=
  { d with items := d.items.push (.instr i) }

/-- Adds a line that names a label. -/
def pushLabelled (d : Draft) (label : String) (item : Label → Item) : Draft :=
  match d.labels.idxOf? label with
  | some number => { d with items := d.items.push (item number) }
  | none => ⟨d.items.push (item d.labels.size), d.labels.push label⟩

def bind (d : Draft) (label : String) : Draft := d.pushLabelled label .bind

def jump (d : Draft) (i : Instr) (label : String) : Draft := d.pushLabelled label (.jump i)

/-- Adds an instruction with its operand. Only a branch takes a label, which is written after
an `@`; elsewhere that sign is part of a name. -/
def instr? (d : Draft) (n : Names) (mnemonic : String) (operand : Written) : Option Draft :=
  match operand, Instr.ofTarget? mnemonic 0 with
  | .text s, some branch =>
      if s.startsWith "@" then some (d.jump branch (s.drop 1).toString) else none
  | _, _ => (n.readInstr? mnemonic operand).map d.push

def assemble (d : Draft) (locals : List TypeId) : Except BuildError Body :=
  Body.assemble locals d.items.toList

end Draft

end ManagedCode.Bytecode
