import ManagedCode.Handle
import ManagedCode.Memory.Page
import ManagedCode.Target.Codec

/-!
# Why code could not be produced
-/

namespace ManagedCode.Compile

open Memory (MemoryError)
open Target (DecodeError)

inductive CompileError where
  | memory (e : MemoryError)
  | unknownFunction (function : Handle)
  | notVerified (signature : String)
  | nativeFunction (signature : String)
  | frameTooLarge (signature : String)
  | unsupportedWidth (raw : UInt32)
  | unresolvedCall (caller callee : Handle)
  | callOutOfRange (patchAddress target : UInt64)
  | branchOutOfRange (offset : Nat)
  | patchOutOfRange (offset : Nat)
  | unpatched (count : Nat)
  | decode (e : DecodeError)
  deriving DecidableEq, Repr

namespace CompileError

def kind : CompileError → String
  | memory e => "Memory." ++ e.kind
  | unknownFunction _ => "UnknownFunction"
  | notVerified _ => "NotVerified"
  | nativeFunction _ => "NativeFunction"
  | frameTooLarge _ => "FrameTooLarge"
  | unsupportedWidth _ => "UnsupportedWidth"
  | unresolvedCall .. => "UnresolvedCall"
  | callOutOfRange .. => "CallOutOfRange"
  | branchOutOfRange _ => "BranchOutOfRange"
  | patchOutOfRange _ => "PatchOutOfRange"
  | unpatched _ => "Unpatched"
  | decode e => "Decode." ++ e.kind

def message : CompileError → String
  | memory e => e.message
  | unknownFunction function => s!"unknown function {function.text}"
  | notVerified signature => s!"function {signature} has not been verified"
  | nativeFunction signature => s!"native routine {signature} has no compiled body"
  | frameTooLarge signature =>
      s!"function {signature} has more arguments or locals than a frame can hold"
  | unsupportedWidth raw => s!"type #{raw} has no load/store width"
  | unresolvedCall caller callee =>
      s!"call from {caller.text} to {callee.text} cannot be resolved"
  | callOutOfRange patchAddress target =>
      s!"call at {Text.hexWord patchAddress} cannot reach {Text.hexWord target} " ++
        "with a rel32 operand"
  | branchOutOfRange offset =>
      s!"branch at native offset {Text.hex offset} cannot reach its target"
  | patchOutOfRange offset => s!"patch at offset {Text.hex offset} lies outside the emitted code"
  | unpatched count => s!"{count} call sites are still unpatched"
  | decode e => s!"cannot decode emitted code: {e.message}"

end CompileError

end ManagedCode.Compile
