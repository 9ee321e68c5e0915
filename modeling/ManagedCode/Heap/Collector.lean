import ManagedCode.Heap.Mark
import ManagedCode.Number.Single

/-!
# The collected heap

A collector is an arena with its statistics, the journal of what was allocated and freed, and
the switches that say what the journal records.

* `Collector.newObject` and `Collector.newArray` allocate zeroed objects.
* `Collector.collect` marks what the roots lead to and puts a tombstone over every other
  object. Objects that stay count one more survived collection.
-/

namespace ManagedCode.Heap

open Memory (Region MemoryError)
open TypeSystem (TypeId TypeTable Layout)

inductive AllocationError where
  | heapExhausted (requested available : Nat)
  | invalidLength (length : Int)
  | notAClass (type : UInt32)
  | notAnArray (type : UInt32)
  deriving DecidableEq, Repr

namespace AllocationError

def kind : AllocationError → String
  | heapExhausted .. => "HeapExhausted"
  | invalidLength _ => "InvalidLength"
  | notAClass _ => "NotAClass"
  | notAnArray _ => "NotAnArray"

def message : AllocationError → String
  | heapExhausted requested available =>
      s!"heap exhausted: requested {requested} bytes, {available} available"
  | invalidLength length => s!"invalid array length {length}"
  | notAClass type => s!"type #{type} is not a defined class"
  | notAnArray type => s!"type #{type} is not an array type"

end AllocationError

structure Report where
  /-- The number of the collection, from one on. -/
  collection : Nat
  roots : Nat
  marked : Nat
  /-- The addresses of the freed objects, in order. -/
  deallocated : Array UInt64
  freedBytes : Nat
  liveObjects : Nat
  liveBytes : Nat

/-- Totals over all collections, and the figures of the last one. -/
structure Stats where
  collections : Nat := 0
  objectsFreed : Nat := 0
  bytesFreed : Nat := 0
  objectsAllocated : Nat := 0
  lastMarked : Nat := 0
  lastFreed : Nat := 0
  lastFreedBytes : Nat := 0
  liveObjects : Nat := 0
  liveBytes : Nat := 0
  deriving DecidableEq

namespace Stats

def record (s : Stats) (r : Report) : Stats :=
  { s with
    collections := s.collections + 1
    objectsFreed := s.objectsFreed + r.deallocated.size
    bytesFreed := s.bytesFreed + r.freedBytes
    lastMarked := r.marked
    lastFreed := r.deallocated.size
    lastFreedBytes := r.freedBytes
    liveObjects := r.liveObjects
    liveBytes := r.liveBytes }

/-- The bit pattern of the fraction of objects that stayed in the last collection. -/
def survivalRate (s : Stats) : UInt64 :=
  Number.ratioBits s.liveObjects (s.liveObjects + s.lastFreed)

end Stats

structure JournalOptions where
  logAllocation : Bool
  logDeallocation : Bool
  printAllocation : Bool
  printDeallocation : Bool
  deriving DecidableEq

/-- Addresses allocated, addresses freed with the number of the collection, and messages. -/
structure Journal where
  allocations : Array UInt64 := #[]
  deallocations : Array (Nat × UInt64) := #[]
  messages : Array String := #[]
  deriving Inhabited

namespace Journal

def deallocatedIn (j : Journal) (collection : Nat) : Array UInt64 :=
  (j.deallocations.filter (·.1 == collection)).map (·.2)

def say (j : Journal) (message : String) : Journal :=
  { j with messages := j.messages.push message }

def noteAllocation (j : Journal) (options : JournalOptions) (name : String) (data : UInt64)
    (dataSize : Nat) : Journal :=
  let j :=
    if options.logAllocation then { j with allocations := j.allocations.push data } else j
  if options.printAllocation then
    j.say s!"allocated {name} at {Text.hexWord data} ({dataSize} data bytes)"
  else j

def noteDeallocation (j : Journal) (options : JournalOptions) (name : String)
    (collection : Nat) (data : UInt64) : Journal :=
  let j :=
    if options.logDeallocation then
      { j with deallocations := j.deallocations.push (collection, data) }
    else j
  if options.printDeallocation then j.say s!"deallocated {name} at {Text.hexWord data}" else j

end Journal

structure Collector where
  heap : Arena
  stats : Stats
  journal : Journal
  options : JournalOptions

namespace Collector

def commit (heapSize : Nat) (options : JournalOptions) : Except MemoryError Collector :=
  (Arena.commit heapSize).map (⟨·, {}, {}, options⟩)

def takeMessages (c : Collector) : Array String × Collector :=
  (c.journal.messages, { c with journal := { c.journal with messages := #[] } })

def allocate (types : TypeTable) (type : TypeId) (dataSize : Nat) :
    EStateM AllocationError Collector UInt64 := fun ⟨heap, stats, journal, options⟩ =>
  match heap.fit? dataSize with
  | none => .error (.heapExhausted dataSize heap.available) ⟨heap, stats, journal, options⟩
  | some total =>
      let data := heap.nextData
      .ok data
        { heap := (heap.reserve total).setHeader data ⟨type.raw, .fresh⟩
          stats := { stats with objectsAllocated := stats.objectsAllocated + 1 }
          journal := journal.noteAllocation options (types.name type) data dataSize
          options }

def newObject (types : TypeTable) (type : TypeId) : EStateM AllocationError Collector UInt64 :=
  match types.layout? type with
  | none => throw (.notAClass type.raw)
  | some layout => allocate types type (max layout.size minDataSize)

def setLength (data : UInt64) (length : Nat) (c : Collector) : Collector :=
  { c with heap :=
      { c.heap with region := c.heap.region.writeWord data 4 (UInt64.ofNat length) } }

def newArray (types : TypeTable) (type : TypeId) (length : Int) :
    EStateM AllocationError Collector UInt64 :=
  match types.element? type with
  | none => throw (.notAnArray type.raw)
  | some element =>
      if 0 ≤ length ∧ length < 0x80000000 then do
        let data ← allocate types type (arrayDataSize (types.size element) length.toNat)
        modify (setLength data length.toNat)
        return data
      else throw (.invalidLength length)

/-- Sweeps one object: unmarks it, or frees it if it is not marked. -/
def sweepOne (types : TypeTable) (report : Report) (o : HeapObject) :
    EStateM GcError Collector Report := fun ⟨heap, stats, journal, options⟩ =>
  if o.info.isMarked then
    .ok
      { report with
        liveObjects := report.liveObjects + 1
        liveBytes := report.liveBytes + o.size }
      ⟨heap.setInfo o.address o.info.unmarked.survived, stats, journal, options⟩
  else if heap.canBury o.address o.size then
    .ok
      { report with
        deallocated := report.deallocated.push o.address
        freedBytes := report.freedBytes + o.size }
      { heap := heap.bury o.address o.size
        stats
        journal :=
          journal.noteDeallocation options (types.name o.type) report.collection o.address
        options }
  else .error (.corruptHeap o.address) ⟨heap, stats, journal, options⟩

def sweepAll (types : TypeTable) : List HeapObject → Report → EStateM GcError Collector Report
  | [], report => return report
  | o :: rest, report => do
      let report ← sweepOne types report o
      sweepAll types rest report

/-- Marks from the roots, of which the last is followed first, and counts what was marked. -/
def mark (types : TypeTable) (roots : List UInt64) : EStateM GcError Collector Nat :=
  fun ⟨heap, stats, journal, options⟩ =>
    match Arena.mark types heap roots.reverse 0 with
    | .ok count heap => .ok count ⟨heap, stats, journal, options⟩
    | .error e heap => .error e ⟨heap, stats, journal, options⟩

def objects (types : TypeTable) : EStateM GcError Collector (List HeapObject) := fun c =>
  match c.heap.walk types with
  | (_, some e) => .error e c
  | (found, none) => .ok found.toList c

/-- Frees every object that the roots do not lead to. Null roots do not count. The statistics
change only if the collection succeeds. -/
def collect (types : TypeTable) (roots : List UInt64) : EStateM GcError Collector Report := do
  let roots := roots.filter (· != 0)
  let marked ← mark types roots
  let objects ← objects types
  let report ← sweepAll types objects
    { collection := (← get).stats.collections + 1
      roots := roots.length
      marked
      deallocated := #[]
      freedBytes := 0
      liveObjects := 0
      liveBytes := 0 }
  modify fun c => { c with stats := c.stats.record report }
  return report

end Collector

end ManagedCode.Heap
