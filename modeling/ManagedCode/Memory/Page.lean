import ManagedCode.Memory.Region
import ManagedCode.Text.Hex

/-!
# Pages

A page is a region with an access mode. Writing to a page that is not writable is refused, so
what was written before the mode changed stays.
-/

namespace ManagedCode.Memory

inductive MemoryError where
  /-- A region of this many bytes cannot be had. -/
  | commitFailed (size : Nat)
  /-- Code pages no longer change. -/
  | sealed
  /-- Code pages cannot be run yet. -/
  | notExecutable
  | unmapped (address : UInt64)
  /-- The page at this base is not writable. -/
  | writeDenied (base : UInt64)
  deriving DecidableEq, Repr

namespace MemoryError

def kind : MemoryError → String
  | commitFailed _ => "CommitFailed"
  | sealed => "Sealed"
  | notExecutable => "NotExecutable"
  | unmapped _ => "Unmapped"
  | writeDenied _ => "WriteDenied"

def message : MemoryError → String
  | commitFailed size =>
      s!"failed to commit {size} bytes: Cannot allocate memory (os error 12)"
  | sealed => "code pages are sealed; no further code can be allocated or patched"
  | notExecutable => "code pages have not been made executable yet"
  | unmapped address => s!"address {Text.hexWord address} is not mapped by this manager"
  | writeDenied base => s!"page at {Text.hexWord base} is not writable"

end MemoryError

/-- A fresh region of at least `minSize` bytes, in whole pages. -/
def Region.commit (base : UInt64) (minSize : Nat) : Except MemoryError Region :=
  let size := roundToPages minSize
  if size < addressSpace then .ok (Region.zeroed base size) else .error (.commitFailed size)

inductive Protection where
  | readWrite
  | readOnly
  | readExecute
  deriving DecidableEq, Repr, Inhabited

def Protection.text : Protection → String
  | readWrite => "ReadWrite"
  | readOnly => "ReadOnly"
  | readExecute => "ReadExecute"

structure Page where
  region : Region
  protection : Protection
  deriving Inhabited

namespace Page

/-- A fresh writable page of at least `minSize` bytes. -/
def commit (base : UInt64) (minSize : Nat) : Except MemoryError Page :=
  (Region.commit base minSize).map (⟨·, .readWrite⟩)

def base (p : Page) : UInt64 := p.region.base

def size (p : Page) : Nat := p.region.size

def contains (p : Page) (address : UInt64) : Bool := p.region.contains address 1

/-- How many bytes lie between an address in the page and its end. The end itself counts as
an address with none. -/
def tailLength? (p : Page) (address : UInt64) : Option Nat :=
  (p.region.offset? address 0).map (p.size - ·)

/-- The bytes from an address in the page to its end, at most `limit` of them. -/
def tail? (p : Page) (address : UInt64) (limit : Nat) : Option (List UInt8) :=
  (p.tailLength? address).bind fun len => p.region.read? address (min len limit)

/-- Puts bytes at an address; only while the page is writable. -/
def write (address : UInt64) (data : List UInt8) : EStateM MemoryError Page Unit := fun p =>
  if p.protection ≠ .readWrite then .error (.writeDenied p.base) p
  else if p.region.contains address data.length then
    .ok () { p with region := p.region.write address data }
  else .error (.unmapped address) p

def protect (p : Page) (protection : Protection) : Page := { p with protection }

end Page

end ManagedCode.Memory
