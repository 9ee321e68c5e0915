import ManagedCode.Compile.Lower
import ManagedCode.Memory.CodeStore
import ManagedCode.Target.Buffer

/-!
# Compiled functions

`compile` lowers every reachable instruction of a checked function, places the machine
instructions one after the other behind the prologue, fills in the branch distances and writes
the bytes to the code store. What is left open are the calls of other functions, which it
returns as call sites.
-/

namespace ManagedCode.Compile

open Bytecode TypeSystem
open Memory (CodeStore)
open Target (Op Buffer)

/-- Where the code of a function lies. `offsets` holds the offset of each bytecode
instruction. -/
structure CompiledFunction where
  function : FunctionId
  entry : UInt64
  size : Nat
  offsets : Array Nat

namespace CompiledFunction

def addressOf? (c : CompiledFunction) (index : Nat) : Option UInt64 :=
  (c.offsets[index]?).map fun offset => c.entry + UInt64.ofNat offset

/-- The offset after the code. Offsets have 32 bits, so it wraps for a larger size. -/
def endOffset (c : CompiledFunction) : Nat :=
  c.size % 0x100000000

/-- The offsets where the code of an instruction starts and ends. -/
def range? (c : CompiledFunction) (index : Nat) : Option (Nat × Nat) :=
  (c.offsets[index]?).map fun start => (start, (c.offsets[index + 1]?).getD c.endOffset)

def prologueSize (c : CompiledFunction) : Nat :=
  (c.offsets[0]?).getD c.endOffset

def contains (c : CompiledFunction) (address : UInt64) : Bool :=
  c.entry ≤ address && address < c.entry + UInt64.ofNat c.size

end CompiledFunction

/-- A call whose target is filled in by linking. -/
structure CallSite where
  caller : FunctionId
  callee : FunctionId
  /-- The address of the operand. -/
  patchAddress : UInt64
  /-- The address that a distance counts from. -/
  next : UInt64
  mode : CallMode
  deriving DecidableEq

/-- A piece with its offset in the code of the function. -/
structure Placed where
  offset : Nat
  piece : Piece

namespace Placed

def next (p : Placed) : Nat := p.offset + p.piece.op.length

/-- The offset of the open operand. -/
def operand (p : Placed) : Nat := p.offset + (p.piece.op.patchOffset?.getD 0)

/-- Pieces one after the other from an offset on. -/
def row : Nat → List Piece → List Placed
  | _, [] => []
  | offset, piece :: rest => ⟨offset, piece⟩ :: row (offset + piece.op.length) rest

end Placed

/-- A distance that must fit in 32 bits. -/
def distance? (d : Int) : Option Int32 :=
  if -0x80000000 ≤ d ∧ d < 0x80000000 then some (Int32.ofInt d) else none

def withDistance (op : Op) (distance : Int32) : Op :=
  match op with
  | .jump _ => .jump distance
  | .jumpIf kind condition _ => .jumpIf kind condition distance
  | .callRelative _ => .callRelative distance
  | other => other

/-- Fills in the distance of a branch. -/
def settleBranch (offsets : Array Nat) (p : Placed) : Except CompileError Placed :=
  match p.piece.fixup with
  | .branch target =>
      match (offsets[target]?).bind fun offset => distance? ((offset : Int) - p.next) with
      | some d => .ok { p with piece := ⟨withDistance p.piece.op d, .none⟩ }
      | none => .error (.branchOutOfRange p.operand)
  | _ => .ok p

/-- Fills in the distance of a call that a function makes to itself. -/
def settleCall (self : FunctionId) (entry : UInt64) (p : Placed) : Except CompileError Placed :=
  if p.piece.fixup = .call self .relative then
    if p.next < 0x80000000 then
      .ok { p with piece := ⟨withDistance p.piece.op (Int32.ofInt (-p.next)), .none⟩ }
    else .error (.callOutOfRange (entry + UInt64.ofNat p.operand) entry)
  else .ok p

/-- The call that is still open in a piece. -/
def openCall? (self : FunctionId) (entry : UInt64) (p : Placed) : Option CallSite :=
  match p.piece.fixup with
  | .call callee mode =>
      some ⟨self, callee, entry + UInt64.ofNat p.operand, entry + UInt64.ofNat p.next, mode⟩
  | _ => none

def codeLength (pieces : List Piece) : Nat :=
  pieces.foldr (fun piece total => piece.op.length + total) 0

/-- The offset of each group of pieces and the offset after the last, when the first group
starts at `start`. -/
def placeGroups (start : Nat) (groups : List (List Piece)) : Array Nat × Nat :=
  groups.foldl (fun (offsets, next) group => (offsets.push next, next + codeLength group))
    (#[], start)

namespace Source

/-- The machine instructions of an instruction. A constant that it loads is stored first. -/
def lowerInstr (s : Source) (index : Nat) (i : Instr) :
    EStateM CompileError CodeStore (List Piece) := do
  match i with
  | .loadFloat value =>
      let address ← (CodeStore.constant value).adaptExcept .memory
      MonadExcept.ofExcept (s.lower index address i)
  | _ => MonadExcept.ofExcept (s.lower index 0 i)

/-- The machine instructions of every instruction; none where control never comes. -/
def lowerBody (s : Source) : EStateM CompileError CodeStore (List (List Piece)) :=
  s.function.code.toList.zipIdx.mapM fun (i, index) =>
    if s.function.isReachable index then s.lowerInstr index i else pure []

def compileBody (s : Source) : EStateM CompileError CodeStore (CompiledFunction × List CallSite) := do
  let arguments ← MonadExcept.ofExcept (s.small s.function.argumentCount)
  let locals ← MonadExcept.ofExcept (s.small s.function.locals.length)
  let enter := Op.enter arguments locals
  let groups ← s.lowerBody
  let (offsets, size) := placeGroups enter.length groups
  let placed := (offsets.toList.zip groups).flatMap fun (offset, group) => Placed.row offset group
  let placed ← MonadExcept.ofExcept (placed.mapM (settleBranch offsets))
  let entry ← (CodeStore.allocateCode size).adaptExcept .memory
  let placed ← MonadExcept.ofExcept (placed.mapM (settleCall s.id entry))
  let calls := placed.filterMap (openCall? s.id entry)
  let buffer := Buffer.empty.emitAll (enter :: placed.map (·.piece.op))
  (CodeStore.writeCode entry buffer.bytes.toList).adaptExcept .memory
  return (⟨s.id, entry, size, offsets⟩, calls)

end Source

def compile (types : TypeTable) (functions : FunctionTable) (id : FunctionId) :
    EStateM CompileError CodeStore (CompiledFunction × List CallSite) :=
  match functions.get? id with
  | none => throw (.unknownFunction id)
  | some function =>
      let signature := function.signature types
      if function.isNative then throw (.nativeFunction signature)
      else if !function.isVerified then throw (.notVerified signature)
      else Source.compileBody ⟨types, functions, id, function⟩

end ManagedCode.Compile
