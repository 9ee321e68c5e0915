import ManagedCode.Compile.Function

/-!
# Images

An image is the compiled code of a program: the store that holds the bytes, the functions
compiled so far and the calls between them that are still open. Functions are compiled one at a
time, `Image.link` fills in the calls and `Image.finish` closes the store for running, which it
refuses while a call is open.
-/

namespace ManagedCode.Compile

open Bytecode TypeSystem
open Memory (CodeStore)

/-- The compiled functions and the open calls among them. -/
structure CodeCache where
  entries : List CompiledFunction
  pending : List CallSite
  deriving Inhabited

namespace CodeCache

def empty : CodeCache := ⟨[], []⟩

def get? (c : CodeCache) (function : FunctionId) : Option CompiledFunction :=
  c.entries.find? (·.function == function)

def contains (c : CodeCache) (function : FunctionId) : Bool :=
  (c.get? function).isSome

def entryOf? (c : CodeCache) (function : FunctionId) : Option UInt64 :=
  (c.get? function).map CompiledFunction.entry

/-- The function whose code holds an address. -/
def find? (c : CodeCache) (address : UInt64) : Option CompiledFunction :=
  c.entries.find? (·.contains address)

/-- The bytes of all code, counted in a word of 64 bits. -/
def totalSize (c : CodeCache) : Nat :=
  c.entries.foldr (fun compiled total => compiled.size + total) 0 % 0x10000000000000000

/-- Adds a function with its open calls. Code that it had before is forgotten together with the
calls that were open in it. -/
def insert (c : CodeCache) (compiled : CompiledFunction) (calls : List CallSite) : CodeCache :=
  let kept :=
    if c.contains compiled.function then
      c.pending.filter (·.caller != compiled.function)
    else c.pending
  { entries := c.entries.filter (·.function != compiled.function) ++ [compiled]
    pending := kept ++ calls }

/-- Where a call lands: at a runtime routine's address or at the entry of compiled code. -/
def target? (c : CodeCache) (functions : FunctionTable) (callee : FunctionId) : Option UInt64 :=
  match functions.get? callee with
  | none => none
  | some f =>
      match f.native? with
      | some routine => some routine.address
      | none => c.entryOf? callee

def operand (c : CodeCache) (functions : FunctionTable) (call : CallSite) :
    Except CompileError (List UInt8) :=
  match c.target? functions call.callee with
  | none => .error (.unresolvedCall call.caller call.callee)
  | some target =>
      match call.mode with
      | .absolute => .ok (encodeLE 8 target)
      | .relative =>
          match distance? (target.toInt64.toInt - call.next.toInt64.toInt) with
          | some d => .ok (encodeLE 4 d.toUInt32.toUInt64)
          | none => .error (.callOutOfRange call.patchAddress target)

end CodeCache

structure Image where
  store : CodeStore
  cache : CodeCache
  finished : Bool
  deriving Inhabited

namespace Image

def empty (codePageSize : Nat) : Image :=
  ⟨.empty codePageSize, .empty, false⟩

def onStore {α : Type} (act : EStateM CompileError CodeStore α) : EStateM CompileError Image α :=
  fun ⟨store, cache, finished⟩ =>
    match act store with
    | .ok a store => .ok a ⟨store, cache, finished⟩
    | .error e store => .error e ⟨store, cache, finished⟩

/-- Runs an action with another cache in place of the image's own, which is kept. -/
def withCache {α : Type} (act : EStateM CompileError Image α) :
    EStateM CompileError (Image × CodeCache) α :=
  fun (⟨store, own, finished⟩, other) =>
    match act ⟨store, other, finished⟩ with
    | .ok a ⟨store, other, finished⟩ => .ok a (⟨store, own, finished⟩, other)
    | .error e ⟨store, other, finished⟩ => .error e (⟨store, own, finished⟩, other)

def compile (types : TypeTable) (functions : FunctionTable) (id : FunctionId) :
    EStateM CompileError Image UInt64 := do
  let (compiled, calls) ← onStore (Compile.compile types functions id)
  modify fun image => { image with cache := image.cache.insert compiled calls }
  return compiled.entry

def patch (functions : FunctionTable) (call : CallSite) : EStateM CompileError Image Unit := do
  let bytes ← MonadExcept.ofExcept ((← get).cache.operand functions call)
  onStore ((CodeStore.writeCode call.patchAddress bytes).adaptExcept .memory)

/-- Fills in calls in order and counts them. The first one that fails stays open together with
those after it. -/
def linkAll (functions : FunctionTable) : List CallSite → Nat → EStateM CompileError Image Nat
  | [], count => return count
  | call :: rest, count => fun image =>
      match patch functions call image with
      | .ok () image => linkAll functions rest (count + 1) image
      | .error e image =>
          .error e { image with cache := { image.cache with pending := call :: rest } }

def link (functions : FunctionTable) : EStateM CompileError Image Nat := do
  let calls := (← get).cache.pending
  modify fun image => { image with cache := { image.cache with pending := [] } }
  linkAll functions calls 0

/-- Closes the store, unless a call is open. -/
def finish : EStateM CompileError Image Unit := do
  let count := (← get).cache.pending.length
  if 0 < count then throw (.unpatched count)
  onStore (CodeStore.makeExecutable.adaptExcept .memory)
  modify fun image => { image with finished := true }

end Image

end ManagedCode.Compile
