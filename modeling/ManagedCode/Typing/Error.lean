import ManagedCode.Text.Quoted

/-!
# Why a body is refused

`Cause` says what is wrong at an instruction, `VerifyError` where it was found.
-/

namespace ManagedCode.Typing

inductive Cause where
  | emptyBody
  | stackUnderflow
  | typeMismatch (expected found : String)
  | unsupportedOperand (type : String)
  | badLocal (index : UInt16)
  | badArgument (index : UInt16)
  | voidLocal (index : Nat)
  | unresolvedFunction
  | unresolvedType (raw : UInt32)
  | unresolvedField (owner : String) (index : Nat)
  | branchOutOfRange (target : Nat)
  /-- Two paths reach an instruction with different operands, listed deepest first. -/
  | stackMismatch (existing incoming : List String)
  | fallsOffEnd
  | constructorReturnType
  | missingReceiver
  | notAnInstanceMethod
  deriving DecidableEq, Repr

namespace Cause

def kind : Cause → String
  | emptyBody => "EmptyBody"
  | stackUnderflow => "StackUnderflow"
  | typeMismatch .. => "TypeMismatch"
  | unsupportedOperand _ => "UnsupportedOperand"
  | badLocal _ => "BadLocal"
  | badArgument _ => "BadArgument"
  | voidLocal _ => "VoidLocal"
  | unresolvedFunction => "UnresolvedFunction"
  | unresolvedType _ => "UnresolvedType"
  | unresolvedField .. => "UnresolvedField"
  | branchOutOfRange _ => "BranchOutOfRange"
  | stackMismatch .. => "StackMismatch"
  | fallsOffEnd => "FallsOffEnd"
  | constructorReturnType => "ConstructorReturnType"
  | missingReceiver => "MissingReceiver"
  | notAnInstanceMethod => "NotAnInstanceMethod"

def message : Cause → String
  | emptyBody => "function has no instructions"
  | stackUnderflow => "evaluation stack underflow"
  | typeMismatch expected found => s!"expected {expected}, found {found}"
  | unsupportedOperand type => s!"operation is not defined for {type}"
  | badLocal index => s!"local {index} is not declared"
  | badArgument index => s!"argument {index} is not declared"
  | voidLocal index => s!"local {index} has type Void"
  | unresolvedFunction => "unresolved function reference"
  | unresolvedType raw => s!"unresolved type reference #{raw}"
  | unresolvedField owner index => s!"field #{index} does not match the layout of {owner}"
  | branchOutOfRange target => s!"branch target {target} is out of range"
  | stackMismatch existing incoming =>
      s!"stack shape differs where control flow merges: {Text.quoteList existing} vs " ++
        Text.quoteList incoming
  | fallsOffEnd => "control falls off the end of the function"
  | constructorReturnType => "constructors must return Void"
  | missingReceiver => "member functions must take their class as first parameter"
  | notAnInstanceMethod => "instance call target is not an instance method"

end Cause

/-- A cause with the signature of the function and the position of the instruction. -/
structure VerifyError where
  function : String
  index : Nat
  cause : Cause
  deriving DecidableEq, Repr

namespace VerifyError

def kind (e : VerifyError) : String := e.cause.kind

def message (e : VerifyError) : String :=
  s!"verification of {e.function} failed at instruction {e.index}: " ++ e.cause.message

end VerifyError

end ManagedCode.Typing
