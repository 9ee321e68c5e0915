import ManagedCode.Proofs.TypeTable
import ManagedCode.Vm.Run

/-!
# What is asked of a virtual machine

A program is assembled, loaded and run by requests, which may fail. A history is a list of them.

* `Vm.Request`, `Vm.Answer`: requests and what they are answered with.
* `Vm.answers`, `Vm.after`: the answers to a list of requests and the machine that it leads to.
-/

namespace ManagedCode.Vm

open Bytecode (Body Definition FunctionId)
open TypeSystem (TypeId TypeTable)

inductive Request where
  | type (command : TypeTable.Command)
  | declare (d : Definition)
  | define (id : FunctionId) (body : Body)
  | add (d : Definition) (body : Body)
  | load
  | invoke (fuel : Nat) (id : FunctionId) (arguments : List UInt64)
  | runMain (fuel : Nat)

inductive Answer where
  | done
  | type (id : Option TypeId)
  | function (id : FunctionId)
  /-- The result register, or nothing if the call has not returned. -/
  | result (word : Option UInt64)
  | number (value : Option Int32)

def Request.perform : Request → EStateM VmError Vm Answer
  | .type command => .type <$> (onTypes command.perform).adaptExcept .type
  | .declare d => .function <$> Vm.declare d
  | .define id body => (fun _ => .done) <$> Vm.define id body
  | .add d body => .function <$> Vm.add d body
  | .load => (fun _ => .done) <$> Vm.load
  | .invoke fuel id arguments => .result <$> Vm.invoke fuel id arguments
  | .runMain fuel => .number <$> Vm.runMain fuel

def answerOf {α : Type} : EStateM.Result VmError Vm α → Except VmError α
  | .ok a _ => .ok a
  | .error e _ => .error e

/-- The machine that a sequence of requests leads to. A request may fail. -/
def after (vm : Vm) (requests : List Request) : Vm :=
  requests.foldl (fun vm request => leaves (request.perform vm)) vm

def answers (vm : Vm) : List Request → List (Except VmError Answer)
  | [] => []
  | request :: rest =>
    answerOf (request.perform vm) :: answers (leaves (request.perform vm)) rest

end ManagedCode.Vm
