import ManagedCode.Compile.Error
import ManagedCode.Machine.Stop
import ManagedCode.Settings.Basic
import ManagedCode.Typing.Error

/-!
# What can go wrong in a virtual machine
-/

namespace ManagedCode

open Bytecode (BuildError)
open Compile (CompileError)
open Machine (Stop TrapKind)
open Memory (MemoryError)
open TypeSystem (TypeError)
open Typing (VerifyError)

inductive LoadError where
  | duplicateFunction (signature : String)
  | missingMain
  | malformedMain (found : String)
  | unresolvedCallee (caller callee : String)
  | alreadyLoaded
  | notLoaded
  | unknownFunction
  | bodyAlreadyDefined (signature : String)
  | nativeBody (signature : String)
  | argumentCount (signature : String) (expected found : Nat)
  deriving DecidableEq, Repr

namespace LoadError

def kind : LoadError → String
  | duplicateFunction _ => "DuplicateFunction"
  | missingMain => "MissingMain"
  | malformedMain _ => "MalformedMain"
  | unresolvedCallee .. => "UnresolvedCallee"
  | alreadyLoaded => "AlreadyLoaded"
  | notLoaded => "NotLoaded"
  | unknownFunction => "UnknownFunction"
  | bodyAlreadyDefined _ => "BodyAlreadyDefined"
  | nativeBody _ => "NativeBody"
  | argumentCount .. => "ArgumentCount"

def message : LoadError → String
  | duplicateFunction signature => s!"function {signature} is declared twice"
  | missingMain => "no main function declared"
  | malformedMain found => s!"main must take no arguments and return Int, found {found}"
  | unresolvedCallee caller callee => s!"{caller} calls {callee}, which has no body"
  | alreadyLoaded => "a load unit has already been loaded"
  | notLoaded => "no load unit has been loaded"
  | unknownFunction => "unknown function id"
  | bodyAlreadyDefined signature => s!"function {signature} already has a body"
  | nativeBody signature => s!"function {signature} is implemented by the runtime"
  | argumentCount signature expected found =>
      s!"{signature} takes {expected} arguments, {found} given"

end LoadError

inductive VmError where
  | memory (e : MemoryError)
  | type (e : TypeError)
  | build (e : BuildError)
  | verify (e : VerifyError)
  | compile (e : CompileError)
  | load (e : LoadError)
  | settings (e : SettingsError)
  | stopped (s : Stop)

namespace VmError

def kind : VmError → String
  | memory e => "Memory." ++ e.kind
  | type e => "Type." ++ e.kind
  | build e => "Build." ++ e.kind
  | verify e => "Verify." ++ e.kind
  | compile e => "Compile." ++ e.kind
  | load e => "Load." ++ e.kind
  | settings e => "Config." ++ e.kind
  | stopped s => s.kind

def message : VmError → String
  | memory e => e.message
  | type e => e.message
  | build e => e.message
  | verify e => e.message
  | compile e => e.message
  | load e => e.message
  | settings e => e.message
  | stopped s => s.message

/-- The exit status to report: two if the program was refused, and that of the stopped run
otherwise. -/
def exitCode : VmError → Nat
  | memory _ => 1
  | stopped s => s.exitCode
  | _ => 2

def trapKind? : VmError → Option TrapKind
  | stopped s => s.trapKind?
  | _ => none

end VmError

end ManagedCode
