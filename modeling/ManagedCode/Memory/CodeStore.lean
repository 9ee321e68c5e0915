import ManagedCode.Memory.Page
import ManagedCode.Number.Single
import Std.Data.HashMap

/-!
# The code store

Machine code and the constants it reads live in pages that pass once from being written to
being run. While the store is open, code is allocated, written and patched; `makeExecutable`
turns every code page to run-only and every constant page to read-only, and from then on
nothing changes.

* `PagePool` hands out ranges from pages of its own, none of which crosses a page.
* `CodeStore` has one pool for code and one for single-precision constants, which are stored
  once per bit pattern.
-/

namespace ManagedCode.Memory

open Number (Single)

/-- Pages that ranges are cut from in order. The pages lie `stride` apart from `origin` on;
`cursor` is the first free offset of the last one. -/
structure PagePool where
  origin : UInt64
  stride : UInt64
  minPageSize : Nat
  pages : Array Page
  cursor : Nat
  deriving Inhabited

namespace PagePool

def empty (origin stride : UInt64) (minPageSize : Nat) : PagePool :=
  ⟨origin, stride, minPageSize, #[], 0⟩

/-- Where the next page goes. -/
def nextBase (pool : PagePool) : UInt64 :=
  pool.origin + UInt64.ofNat pool.pages.size * pool.stride

def alignUp (n alignment : Nat) : Nat :=
  (n + (alignment - 1)) / alignment * alignment

/-- Cuts `size` bytes from the last page, or from a new one when they do not fit there. -/
def allocate (size alignment : Nat) : EStateM MemoryError PagePool UInt64 := fun pool =>
  let aligned := alignUp pool.cursor alignment
  let fitting := pool.pages.back?.filter fun page => aligned + size ≤ page.size
  match fitting with
  | some page => .ok (page.base + UInt64.ofNat aligned) { pool with cursor := aligned + size }
  | none =>
      match Page.commit pool.nextBase (max size pool.minPageSize) with
      | .ok page => .ok page.base { pool with pages := pool.pages.push page, cursor := size }
      | .error e => .error e pool

def page? (pool : PagePool) (address : UInt64) : Option Page :=
  pool.pages.find? (·.contains address)

/-- Puts bytes into the page that holds the address. -/
def write (address : UInt64) (data : List UInt8) : EStateM MemoryError PagePool Unit := fun pool =>
  match pool.pages.findIdx? (·.contains address) with
  | none => .error (.unmapped address) pool
  | some index =>
      match Page.write address data (pool.pages.getD index default) with
      | .ok () page => .ok () { pool with pages := pool.pages.setIfInBounds index page }
      | .error e _ => .error e pool

def protectAll (pool : PagePool) (protection : Protection) : PagePool :=
  { pool with pages := pool.pages.map (·.protect protection) }

end PagePool

def codeOrigin : UInt64 := 0x100000000

def codeStride : UInt64 := 0x10000000

def constantOrigin : UInt64 := 0x80000000

def constantStride : UInt64 := 0x10000

/-- Every piece of code starts at a multiple of this. -/
def codeAlignment : Nat := 16

def constantSize : Nat := 4

/-- Code pages, constant pages, the address of every constant by its pattern, and whether the
store has been closed for running. -/
structure CodeStore where
  code : PagePool
  constants : PagePool
  addresses : Std.HashMap Single UInt64
  executable : Bool
  deriving Inhabited

namespace CodeStore

/-- An open store whose code pages have at least the given size. -/
def empty (codePageSize : Nat) : CodeStore :=
  { code := .empty codeOrigin codeStride codePageSize
    constants := .empty constantOrigin constantStride pageSize
    addresses := ∅
    executable := false }

def onCode {α : Type} (act : EStateM MemoryError PagePool α) : EStateM MemoryError CodeStore α :=
  fun ⟨code, constants, addresses, executable⟩ =>
    match act code with
    | .ok a code => .ok a ⟨code, constants, addresses, executable⟩
    | .error e code => .error e ⟨code, constants, addresses, executable⟩

def onConstants {α : Type} (act : EStateM MemoryError PagePool α) :
    EStateM MemoryError CodeStore α :=
  fun ⟨code, constants, addresses, executable⟩ =>
    match act constants with
    | .ok a constants => .ok a ⟨code, constants, addresses, executable⟩
    | .error e constants => .error e ⟨code, constants, addresses, executable⟩

def requireOpen : EStateM MemoryError CodeStore Unit := do
  if (← get).executable then throw .sealed

/-- Reserves room for code, in one page and at an aligned address. -/
def allocateCode (size : Nat) : EStateM MemoryError CodeStore UInt64 := do
  requireOpen
  onCode (PagePool.allocate size codeAlignment)

def writeCode (address : UInt64) (data : List UInt8) : EStateM MemoryError CodeStore Unit := do
  requireOpen
  onCode (PagePool.write address data)

/-- The address of a constant, which is stored the first time it is asked for. -/
def constant (value : Single) : EStateM MemoryError CodeStore UInt64 := do
  match (← get).addresses[value]? with
  | some address => return address
  | none =>
      requireOpen
      let address ← onConstants (PagePool.allocate constantSize constantSize)
      onConstants (PagePool.write address (encodeLE constantSize value.bits.toUInt64))
      modify fun store => { store with addresses := store.addresses.insert value address }
      return address

/-- Closes the store: code pages can be run, constant pages can be read, and neither can be
written. -/
def makeExecutable : EStateM MemoryError CodeStore Unit := do
  requireOpen
  modify fun store =>
    { store with
      code := store.code.protectAll .readExecute
      constants := store.constants.protectAll .readOnly
      executable := true }

/-- The page of code that an address lies in, once the store is closed. -/
def codePage (store : CodeStore) (address : UInt64) : Except MemoryError Page :=
  if store.executable then
    match store.code.page? address with
    | some page => .ok page
    | none => .error (.unmapped address)
  else .error .notExecutable

/-- The bytes to run from an address on, at most `limit` of them, up to the end of the page. -/
def fetch (store : CodeStore) (address : UInt64) (limit : Nat) :
    Except MemoryError (List UInt8) := do
  let page ← store.codePage address
  match page.tail? address limit with
  | some bytes => .ok bytes
  | none => .error (.unmapped address)

/-- Bytes of code or of constants, in either phase. -/
def read (store : CodeStore) (address : UInt64) (len : Nat) :
    Except MemoryError (List UInt8) :=
  let page? := store.code.page? address <|> store.constants.page? address
  match page?.bind (·.region.read? address len) with
  | some bytes => .ok bytes
  | none => .error (.unmapped address)

def readConstant (store : CodeStore) (address : UInt64) : Except MemoryError Single :=
  match (store.constants.page? address).bind (·.region.read32? address) with
  | some bits => .ok ⟨bits⟩
  | none => .error (.unmapped address)

def isCode (store : CodeStore) (address : UInt64) : Bool :=
  (store.code.page? address).isSome

end CodeStore

end ManagedCode.Memory
