import ManagedCode.Bytecode.Assembly
import ManagedCode.Heap.Contents
import ManagedCode.Machine.Rig
import ManagedCode.Proofs.CodeRanges
import ManagedCode.Proofs.ConstantPool
import ManagedCode.Proofs.Diagnostics
import ManagedCode.Proofs.Direct.Slots
import ManagedCode.Proofs.Heap.Allocation
import ManagedCode.Proofs.Heap.Traversal
import ManagedCode.Proofs.LeastSnapshots
import ManagedCode.Proofs.Loadable
import ManagedCode.Proofs.Machine.Leftovers
import ManagedCode.Proofs.Machine.Lockstep
import ManagedCode.Proofs.Machine.NullTraps
import ManagedCode.Proofs.Patching
import ManagedCode.Proofs.Registry
import ManagedCode.Proofs.StaleHandles
import ManagedCode.Proofs.TypeOperations
import ManagedCode.Settings.Document
import ManagedCode.Target.Assembly
