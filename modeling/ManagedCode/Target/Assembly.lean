import ManagedCode.Target.Codec
import ManagedCode.Text.Written

/-!
# Written machine instructions

A machine instruction is written as a name and its operands.
-/

namespace ManagedCode.Target

open Bytecode (Condition ArithOp)
open Text (Written)

def NumericKind.read? : Written → Option NumericKind
  | .text "int" => some .int
  | .text "float" => some .float
  | _ => none

def CompareKind.read? : Written → Option CompareKind
  | .text "int" => some .int
  | .text "float" => some .float
  | .text "ref" => some .reference
  | _ => none

def readCondition? : Written → Option Condition
  | .text s => Condition.all.find? (·.suffix == s)
  | .int _ => none

def readArith? : Written → Option ArithOp
  | .text s => [ArithOp.add, .sub, .mul, .div].find? (·.name == s)
  | .int _ => none

def Width.read? (w : Written) : Option Width :=
  (w.nat? 64).bind Width.ofSize?

namespace Op

/-- The instruction with a name and operands. -/
def read? (name : String) (operands : List Written) : Option Op :=
  match name, operands with
  | "enter", [a, l] => return enter (← a.word16?) (← l.word16?)
  | "leave", [] => some leave
  | "ret", [n] => return ret (← n.word16?)
  | "pushimm", [w] => return pushImm (← w.word64?)
  | "pushconst", [w] => return pushConst (← w.word64?)
  | "loadslot", [d] => return loadSlot (← d.signed32?)
  | "storeslot", [d] => return storeSlot (← d.signed32?)
  | "pop", [] => some pop
  | "dup", [] => some dup
  | "pushrax", [] => some pushResult
  | "poprax", [] => some popResult
  | "arith", [k, o] => return arith (← NumericKind.read? k) (← readArith? o)
  | "and", [] => some and
  | "or", [] => some or
  | "not", [] => some not
  | "i2f", [] => some intToFloat
  | "f2i", [] => some floatToInt
  | "cmp", [k, c] => return compare (← CompareKind.read? k) (← readCondition? c)
  | "jmp", [d] => return jump (← d.signed32?)
  | "jif", [k, c, d] =>
      return jumpIf (← CompareKind.read? k) (← readCondition? c) (← d.signed32?)
  | "callrel", [d] => return callRelative (← d.signed32?)
  | "callabs", [w] => return callAbsolute (← w.word64?)
  | "nullcheck", [n] => return nullCheck (← n.word16?)
  | "newobj", [t] => return newObject (← t.word32?)
  | "newarr", [t] => return newArray (← t.word32?)
  | "ldfld", [w, o] => return loadField (← Width.read? w) (← o.word32?)
  | "stfld", [w, o] => return storeField (← Width.read? w) (← o.word32?)
  | "ldelem", [w] => return loadElement (← Width.read? w)
  | "stelem", [w] => return storeElement (← Width.read? w)
  | "len", [] => some arrayLength
  | "pushframe", [f, i] => return pushFrame (← f.word64?) (← i.word32?)
  | "popframe", [] => some popFrame
  | "collect", [f, i] => return collect (← f.word64?) (← i.word32?)
  | "printstack", [f, i] => return printCallStack (← f.word64?) (← i.word32?)
  | _, _ => none

end Op

end ManagedCode.Target
