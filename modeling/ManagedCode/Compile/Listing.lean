import ManagedCode.Compile.Image
import ManagedCode.Text.Lines

/-!
# Listings

A listing shows each bytecode instruction of a compiled function above the machine instructions
that were made of it, read back from the code store.
-/

namespace ManagedCode.Compile

open Bytecode TypeSystem
open Memory (CodeStore)
open Target (Op)

/-- A machine instruction with its offset in the function. -/
abbrev Line := Nat × Op

/-- Decodes bytes that hold whole instructions, the first one at `offset`. Every instruction
takes at least a byte, so as many rounds as there are bytes suffice. -/
def decodeAll : Nat → Nat → List UInt8 → Except CompileError (List Line)
  | _, _, [] => .ok []
  | 0, _, _ :: _ => .ok []
  | fuel + 1, offset, bytes =>
      match Target.decode bytes with
      | .error e => .error (.decode e)
      | .ok (op, rest) => do
          return (offset, op) :: (← decodeAll fuel (offset + op.length) rest)

/-- A bytecode instruction with its machine instructions. -/
structure ListingEntry where
  index : Nat
  instr : Instr
  code : List Line

structure Listing where
  signature : String
  entry : UInt64
  prologue : List Line
  entries : List ListingEntry

def decodeRange (bytes : ByteArray) (start stop : Nat) : Except CompileError (List Line) :=
  decodeAll (stop - start) start (bytes.extract start stop).toList

def listing (types : TypeTable) (store : CodeStore) (function : Function)
    (compiled : CompiledFunction) : Except CompileError Listing := do
  let read ← (store.read compiled.entry compiled.size).mapError .memory
  let bytes := ByteArray.mk read.toArray
  let prologue ← decodeRange bytes 0 compiled.prologueSize
  let entries ← function.code.toList.zipIdx.filterMapM fun (instr, index) =>
    match compiled.range? index with
    | none => pure none
    | some (start, stop) => return some ⟨index, instr, ← decodeRange bytes start stop⟩
  return ⟨function.signature types, compiled.entry, prologue, entries⟩

namespace Listing

def lineText (line : Line) : String :=
  "           " ++ Text.offset line.1 ++ "  " ++ line.2.text

/-- The lines of a listing: the signature with the entry address, the prologue, and each
instruction with its position. A signature takes several lines if a name in it does. -/
def lines (l : Listing) : List String :=
  Text.lines s!"; {l.signature} @ {Text.hexWord l.entry}" ++ l.prologue.map lineText ++
    l.entries.flatMap fun e =>
      (Text.position e.index ++ "  " ++ e.instr.text) :: e.code.map lineText

end Listing

end ManagedCode.Compile
