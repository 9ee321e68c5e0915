import ManagedCode.Bytes

/-!
# Regions

A region is a range of addresses with a byte at each. Every access names an absolute address
and a length and is answered only if the whole range lies inside the region.

A region starts out as zeros. Only the bytes up to the highest one ever written are kept;
the rest of the region reads as zero (`Region.byte`). `Region.byte_setByte` is the law of a
changed byte.
-/

namespace ManagedCode.Memory

/-- Regions are made of whole units of this many bytes. -/
def pageSize : Nat := 4096

/-- No region can be as large as this; more than that many addresses do not exist. -/
def addressSpace : Nat := 0x800000000000

/-- A size rounded up to whole pages, at least one. -/
def roundToPages (n : Nat) : Nat :=
  (max n 1 + (pageSize - 1)) / pageSize * pageSize

/-- A range of addresses with its bytes. -/
structure Region where
  base : UInt64
  size : Nat
  bytes : ByteArray

def zeros (n : Nat) : ByteArray :=
  if n ≤ 64 then n.fold (fun _ _ bytes => bytes.push 0) (ByteArray.emptyWithCapacity n)
  else
    let half := zeros (n / 2)
    if n % 2 = 0 then half ++ half else (half ++ half).push 0

theorem fold_push_zero (n : Nat) (bytes : ByteArray) :
    (n.fold (fun _ _ bytes => bytes.push 0) bytes).data
      = bytes.data ++ Array.replicate n (0 : UInt8) := by
  induction n with
  | zero => simp
  | succ n ih => rw [Nat.fold_succ, ByteArray.data_push, ih, Array.replicate_succ]; simp

theorem data_zeros (n : Nat) : (zeros n).data = Array.replicate n 0 := by
  fun_induction zeros n with
  | case1 n h => rw [fold_push_zero]; exact Array.empty_append
  | case2 n h half even ih =>
      rw [ByteArray.data_append, ih, Array.replicate_append_replicate]
      congr 1; omega
  | case3 n h half odd ih =>
      rw [ByteArray.data_push, ByteArray.data_append, ih, Array.replicate_append_replicate,
        ← Array.replicate_succ]
      congr 1; omega

namespace Region

/-- A region of zeros with exactly the given size. -/
def zeroed (base : UInt64) (size : Nat) : Region :=
  ⟨base, size, ByteArray.empty⟩

instance : Inhabited Region := ⟨zeroed 0 0⟩

/-- A region of zeros with the given bytes at its start. -/
def ofBytes (base : UInt64) (bytes : ByteArray) : Region :=
  ⟨base, bytes.size, bytes⟩

/-- The first address after the region. -/
def stop (r : Region) : UInt64 :=
  r.base + UInt64.ofNat r.size

/-- How far an address lies after the base, if `len` bytes from there are inside. -/
def offset? (r : Region) (address : UInt64) (len : Nat) : Option Nat :=
  if r.base ≤ address ∧ (address - r.base).toNat + len ≤ r.size then
    some (address - r.base).toNat
  else none

def contains (r : Region) (address : UInt64) (len : Nat) : Bool :=
  (r.offset? address len).isSome

def byte (r : Region) (offset : Nat) : UInt8 :=
  if h : offset < r.bytes.size then r.bytes[offset] else 0

def setByte (r : Region) (offset : Nat) (value : UInt8) : Region :=
  if h : offset < r.bytes.size then { r with bytes := r.bytes.set offset value }
  else { r with bytes := (r.bytes ++ zeros (offset - r.bytes.size)).push value }

theorem byte_eq (r : Region) (i : Nat) : r.byte i = (r.bytes.data[i]?).getD 0 := by
  unfold byte
  split
  · rename_i h
    rw [Array.getElem?_eq_getElem h, ByteArray.getElem_eq_getElem_data]
    rfl
  · rename_i h
    rw [Array.getElem?_eq_none (Nat.not_lt.mp h)]
    rfl

@[simp] theorem byte_zeroed (base : UInt64) (size i : Nat) : (zeroed base size).byte i = 0 := by
  unfold byte zeroed
  split
  · rename_i h
    exact absurd h (Nat.not_lt_zero i)
  · rfl

/-- A changed byte reads as its new value and every other byte as before. -/
theorem byte_setByte (r : Region) (i j : Nat) (value : UInt8) :
    (r.setByte i value).byte j = if j = i then value else r.byte j := by
  rw [byte_eq, byte_eq]
  unfold setByte
  split
  · rename_i h
    simp only [ByteArray.data_set]
    rw [Array.getElem?_set]
    by_cases e : i = j
    · simp [e]
    · simp [e, Ne.symm e]
  · rename_i h
    have h : r.bytes.data.size ≤ i := Nat.not_lt.mp h
    have size : r.bytes.size = r.bytes.data.size := rfl
    simp only [ByteArray.data_push, ByteArray.data_append, data_zeros]
    rw [Array.getElem?_push, Array.getElem?_append]
    simp only [Array.size_append, Array.size_replicate]
    by_cases e : j = i
    · subst e
      rw [if_pos (by omega), if_pos rfl]
      rfl
    · rw [if_neg (by omega), if_neg e]
      split
      · rfl
      · have past : r.bytes.data[j]? = none := Array.getElem?_eq_none (by omega)
        rw [past]
        by_cases e' : j - r.bytes.data.size < i - r.bytes.size
        · rw [Array.getElem?_replicate, if_pos e']
          rfl
        · rw [Array.getElem?_replicate, if_neg e']

def bytesAt (r : Region) (offset : Nat) : Nat → List UInt8
  | 0 => []
  | n + 1 => r.byte offset :: r.bytesAt (offset + 1) n

def setBytes (r : Region) (offset : Nat) : List UInt8 → Region
  | [] => r
  | b :: rest => (r.setByte offset b).setBytes (offset + 1) rest

/-- Zeroes `n` bytes from an offset on. Bytes past the kept ones are zero already. -/
def clearAt (r : Region) (offset n : Nat) : Region :=
  let stop := min (offset + n) r.bytes.size
  (stop - offset).fold (fun i _ r => r.setByte (offset + i) 0) r

/-- The bytes at an address, if they all lie inside. -/
def read? (r : Region) (address : UInt64) (len : Nat) : Option (List UInt8) :=
  (r.offset? address len).map (r.bytesAt · len)

/-- The little-endian word of `width` bytes at an address. -/
def readWord? (r : Region) (address : UInt64) (width : Nat) : Option UInt64 :=
  (r.read? address width).map decodeLE

def read8? (r : Region) (address : UInt64) : Option UInt8 :=
  (r.readWord? address 1).map UInt64.toUInt8

def read32? (r : Region) (address : UInt64) : Option UInt32 :=
  (r.readWord? address 4).map UInt64.toUInt32

def read64? (r : Region) (address : UInt64) : Option UInt64 :=
  r.readWord? address 8

/-- Puts bytes at an address; nothing changes unless they all fit. -/
def write (r : Region) (address : UInt64) (data : List UInt8) : Region :=
  match r.offset? address data.length with
  | some offset => r.setBytes offset data
  | none => r

/-- Puts the lowest `width` bytes of a word at an address. -/
def writeWord (r : Region) (address : UInt64) (width : Nat) (value : UInt64) : Region :=
  r.write address (encodeLE width value)

/-- Zeroes a range; nothing changes unless it lies inside. -/
def clear (r : Region) (address : UInt64) (len : Nat) : Region :=
  match r.offset? address len with
  | some offset => r.clearAt offset len
  | none => r

end Region

end ManagedCode.Memory
