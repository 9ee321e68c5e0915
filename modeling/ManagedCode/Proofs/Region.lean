import ManagedCode.Memory.Region
import ManagedCode.Proofs.LittleEndian

/-!
# Reading and writing regions

Every access to a region is described by what it does to the bytes at their offsets.

* `offset?_eq_some_iff`: an access is answered exactly if its range lies inside.
* `byte_setBytes`, `byte_clearAt`: what a change does to each byte.
* `readWord?_writeWord_self`, `readWord?_writeWord_apart`: a written word reads back, and a word
  apart from it reads as before.
-/

namespace ManagedCode.Memory.Region

variable {r r' : Region} {address : UInt64} {j len offset width : Nat} {data : List UInt8}

/-! ## Places -/

theorem offset?_eq_some_iff :
    r.offset? address len = some offset ↔
      address.toNat = r.base.toNat + offset ∧ offset + len ≤ r.size := by
  unfold offset?
  constructor
  · intro h
    split at h
    · rename_i inside
      obtain ⟨low, high⟩ := inside
      rw [UInt64.toNat_sub_of_le _ _ low] at h high
      rw [UInt64.le_iff_toNat_le] at low
      simp only [Option.some.injEq] at h
      omega
    · cases h
  · rintro ⟨place, bound⟩
    have le : r.base ≤ address := UInt64.le_iff_toNat_le.mpr (by omega)
    have distance : (address - r.base).toNat = offset := by
      rw [UInt64.toNat_sub_of_le _ _ le]
      omega
    rw [distance, if_pos ⟨le, bound⟩]

/-- Where a range inside the region lies. -/
theorem offset?_of_inside (place : address.toNat = r.base.toNat + offset)
    (bound : offset + len ≤ r.size) : r.offset? address len = some offset :=
  offset?_eq_some_iff.mpr ⟨place, bound⟩

theorem contains_iff :
    r.contains address len = true ↔
      r.base.toNat ≤ address.toNat ∧ address.toNat + len ≤ r.base.toNat + r.size := by
  unfold contains
  rw [Option.isSome_iff_exists]
  constructor
  · rintro ⟨offset, place⟩
    have := offset?_eq_some_iff.mp place
    omega
  · rintro ⟨low, high⟩
    exact ⟨address.toNat - r.base.toNat, offset?_of_inside (by omega) (by omega)⟩

/-! ## Bytes -/

@[simp] theorem length_bytesAt (r : Region) (offset n : Nat) : (r.bytesAt offset n).length = n := by
  induction n generalizing offset with
  | zero => rfl
  | succ n ih => simp [bytesAt, ih]

theorem getElem?_bytesAt (r : Region) (offset n i : Nat) (h : i < n) :
    (r.bytesAt offset n)[i]? = some (r.byte (offset + i)) := by
  induction n generalizing offset i with
  | zero => omega
  | succ n ih =>
    cases i with
    | zero => rfl
    | succ i =>
      rw [bytesAt, List.getElem?_cons_succ, ih (offset + 1) i (by omega)]
      congr 2
      omega

/-- The bytes of a range are those that stand at its offsets. -/
theorem bytesAt_eq_iff {bytes : List UInt8} :
    r.bytesAt offset bytes.length = bytes ↔
      ∀ i (h : i < bytes.length), r.byte (offset + i) = bytes[i] := by
  constructor
  · intro whole i h
    have at_i := getElem?_bytesAt r offset bytes.length i h
    rw [whole, List.getElem?_eq_getElem h] at at_i
    exact (Option.some.inj at_i).symm
  · intro each
    apply List.ext_getElem? fun i => ?_
    by_cases h : i < bytes.length
    · rw [getElem?_bytesAt _ _ _ _ h, List.getElem?_eq_getElem h, each i h]
    · rw [List.getElem?_eq_none (by simpa using h), List.getElem?_eq_none (by simpa using h)]

theorem bytesAt_congr {n : Nat} (same : ∀ i, offset ≤ i → i < offset + n → r.byte i = r'.byte i) :
    r.bytesAt offset n = r'.bytesAt offset n := by
  induction n generalizing offset with
  | zero => rfl
  | succ n ih =>
    rw [bytesAt, bytesAt, same offset (by omega) (by omega),
      ih fun i low high => same i (by omega) (by omega)]

theorem bytesAt_append (r : Region) (offset m n : Nat) :
    r.bytesAt offset (m + n) = r.bytesAt offset m ++ r.bytesAt (offset + m) n := by
  induction m generalizing offset with
  | zero => simp [bytesAt]
  | succ m ih =>
    rw [Nat.add_right_comm, bytesAt, ih, bytesAt, List.cons_append]
    congr 3
    omega

@[simp] theorem base_setByte (r : Region) (i : Nat) (value : UInt8) :
    (r.setByte i value).base = r.base := by
  unfold setByte
  split <;> rfl

@[simp] theorem size_setByte (r : Region) (i : Nat) (value : UInt8) :
    (r.setByte i value).size = r.size := by
  unfold setByte
  split <;> rfl

@[simp] theorem base_setBytes (r : Region) (offset : Nat) (data : List UInt8) :
    (r.setBytes offset data).base = r.base := by
  induction data generalizing r offset with
  | nil => rfl
  | cons b rest ih => rw [setBytes, ih, base_setByte]

@[simp] theorem size_setBytes (r : Region) (offset : Nat) (data : List UInt8) :
    (r.setBytes offset data).size = r.size := by
  induction data generalizing r offset with
  | nil => rfl
  | cons b rest ih => rw [setBytes, ih, size_setByte]

/-- Changed bytes read as the new ones and every other byte as before. -/
theorem byte_setBytes (r : Region) (offset j : Nat) (data : List UInt8) :
    (r.setBytes offset data).byte j =
      if offset ≤ j then (data[j - offset]?).getD (r.byte j) else r.byte j := by
  induction data generalizing r offset with
  | nil => simp [setBytes]
  | cons b rest ih =>
    rw [setBytes, ih, byte_setByte]
    by_cases low : offset + 1 ≤ j
    · have next : j - offset = (j - (offset + 1)) + 1 := by omega
      have later : ¬ j = offset := by omega
      have from_here : offset ≤ j := by omega
      rw [if_pos low, if_neg later, if_pos from_here, next, List.getElem?_cons_succ]
    · rw [if_neg low]
      by_cases here : j = offset
      · simp [here]
      · rw [if_neg here, if_neg (by omega)]

theorem byte_setBytes_apart (apart : j < offset ∨ offset + data.length ≤ j) :
    (r.setBytes offset data).byte j = r.byte j := by
  rw [byte_setBytes]
  split
  · rw [List.getElem?_eq_none (by omega)]
    rfl
  · rfl

theorem bytesAt_setBytes_self (r : Region) (offset : Nat) (data : List UInt8) :
    (r.setBytes offset data).bytesAt offset data.length = data := by
  rw [bytesAt_eq_iff]
  intro i h
  rw [byte_setBytes, if_pos (by omega), Nat.add_sub_cancel_left, List.getElem?_eq_getElem h]
  rfl

theorem fold_setByte_zero (r : Region) (offset n : Nat) :
    let cleared := n.fold (fun i _ (r : Region) => r.setByte (offset + i) 0) r
    cleared.base = r.base ∧ cleared.size = r.size ∧
      ∀ j, cleared.byte j = if offset ≤ j ∧ j < offset + n then 0 else r.byte j := by
  induction n with
  | zero => exact ⟨rfl, rfl, fun j => by rw [if_neg (by omega)]; rfl⟩
  | succ n ih =>
    obtain ⟨base, size, bytes⟩ := ih
    simp only [Nat.fold_succ]
    refine ⟨by rw [base_setByte, base], by rw [size_setByte, size], fun j => ?_⟩
    rw [byte_setByte, bytes]
    by_cases here : j = offset + n
    · rw [if_pos here, if_pos (by omega)]
    · rw [if_neg here]
      by_cases inside : offset ≤ j ∧ j < offset + n
      · rw [if_pos inside, if_pos (by omega)]
      · rw [if_neg inside, if_neg (by omega)]

@[simp] theorem base_clearAt (r : Region) (offset n : Nat) : (r.clearAt offset n).base = r.base :=
  (fold_setByte_zero r offset _).1

@[simp] theorem size_clearAt (r : Region) (offset n : Nat) : (r.clearAt offset n).size = r.size :=
  (fold_setByte_zero r offset _).2.1

theorem byte_eq_zero_of_size_le (past : r.bytes.size ≤ j) : r.byte j = 0 := by
  unfold byte
  rw [dif_neg (by omega)]

/-- Cleared bytes read as zero and every other byte as before. -/
theorem byte_clearAt (r : Region) (offset n j : Nat) :
    (r.clearAt offset n).byte j = if offset ≤ j ∧ j < offset + n then 0 else r.byte j := by
  unfold clearAt
  rw [(fold_setByte_zero r offset _).2.2]
  by_cases inside : offset ≤ j ∧ j < offset + n
  · rw [if_pos inside]
    split
    · rfl
    · -- The clearing stops where the kept bytes end, and past them every byte is zero.
      exact byte_eq_zero_of_size_le (by omega)
  · rw [if_neg inside, if_neg (by omega)]

/-! ## Words -/

def wordAt (r : Region) (offset width : Nat) : UInt64 :=
  decodeLE (r.bytesAt offset width)

theorem wordAt_congr (same : ∀ i, offset ≤ i → i < offset + width → r.byte i = r'.byte i) :
    r.wordAt offset width = r'.wordAt offset width := by
  rw [wordAt, wordAt, bytesAt_congr same]

theorem toNat_wordAt_lt (r : Region) (offset : Nat) (h : width ≤ 8) :
    (r.wordAt offset width).toNat < 256 ^ width := by
  have bound := toNat_decodeLE_lt (r.bytesAt offset width) (by simpa using h)
  rwa [length_bytesAt] at bound

theorem wordAt_one (r : Region) (offset : Nat) : (r.wordAt offset 1).toUInt8 = r.byte offset := by
  simp [wordAt, bytesAt, decodeLE]

/-- Zeros read as the word zero. -/
theorem wordAt_eq_zero (zero : ∀ i, offset ≤ i → i < offset + width → r.byte i = 0) :
    r.wordAt offset width = 0 := by
  induction width generalizing offset with
  | zero => rfl
  | succ width ih =>
    have rest : r.wordAt (offset + 1) width = 0 :=
      ih fun i low high => zero i (by omega) (by omega)
    simp only [wordAt] at rest
    simp [wordAt, bytesAt, decodeLE, rest, zero offset (by omega) (by omega)]

theorem readWord?_of_offset? (place : r.offset? address width = some offset) :
    r.readWord? address width = some (r.wordAt offset width) := by
  simp [readWord?, read?, place, wordAt]

theorem readWord?_isSome_iff : (r.readWord? address width).isSome = r.contains address width := by
  unfold readWord? read? contains
  cases r.offset? address width <;> rfl

theorem offset?_congr (base : r.base = r'.base) (size : r.size = r'.size) (address : UInt64)
    (len : Nat) : r.offset? address len = r'.offset? address len := by
  unfold offset?
  rw [base, size]

theorem offset?_setBytes (r : Region) (offset : Nat) (bytes : List UInt8) (address : UInt64)
    (len : Nat) : (r.setBytes offset bytes).offset? address len = r.offset? address len :=
  offset?_congr (base_setBytes ..) (size_setBytes ..) address len

theorem offset?_clearAt (r : Region) (offset count : Nat) (address : UInt64) (len : Nat) :
    (r.clearAt offset count).offset? address len = r.offset? address len :=
  offset?_congr (base_clearAt ..) (size_clearAt ..) address len

theorem read?_of_offset? (place : r.offset? address len = some offset) :
    r.read? address len = some (r.bytesAt offset len) := by
  rw [read?, place, Option.map_some]

/-- A read depends on the bytes of its range only. -/
theorem read?_congr (base : r.base = r'.base) (size : r.size = r'.size)
    (same : ∀ i, address.toNat ≤ r.base.toNat + i → r.base.toNat + i < address.toNat + len →
      r.byte i = r'.byte i) : r.read? address len = r'.read? address len := by
  unfold read?
  rw [offset?_congr base size]
  cases place : r'.offset? address len with
  | none => rfl
  | some offset =>
    have here := (offset?_eq_some_iff.mp place).1
    rw [← base] at here
    simp only [Option.map_some]
    rw [bytesAt_congr fun i low high => same i (by omega) (by omega)]

theorem readWord?_congr (base : r.base = r'.base) (size : r.size = r'.size)
    (same : ∀ i, address.toNat ≤ r.base.toNat + i → r.base.toNat + i < address.toNat + width →
      r.byte i = r'.byte i) : r.readWord? address width = r'.readWord? address width := by
  rw [readWord?, readWord?, read?_congr base size same]

@[simp] theorem base_write (r : Region) (address : UInt64) (data : List UInt8) :
    (r.write address data).base = r.base := by
  unfold write
  split
  · exact base_setBytes ..
  · rfl

@[simp] theorem size_write (r : Region) (address : UInt64) (data : List UInt8) :
    (r.write address data).size = r.size := by
  unfold write
  split
  · exact size_setBytes ..
  · rfl

@[simp] theorem base_writeWord (r : Region) (address : UInt64) (width : Nat) (value : UInt64) :
    (r.writeWord address width value).base = r.base :=
  base_write ..

@[simp] theorem size_writeWord (r : Region) (address : UInt64) (width : Nat) (value : UInt64) :
    (r.writeWord address width value).size = r.size :=
  size_write ..

@[simp] theorem base_clear (r : Region) (address : UInt64) (len : Nat) :
    (r.clear address len).base = r.base := by
  unfold clear
  split
  · exact base_clearAt ..
  · rfl

@[simp] theorem size_clear (r : Region) (address : UInt64) (len : Nat) :
    (r.clear address len).size = r.size := by
  unfold clear
  split
  · exact size_clearAt ..
  · rfl

theorem write_of_offset? (place : r.offset? address data.length = some offset) :
    r.write address data = r.setBytes offset data := by
  simp [write, place]

theorem writeWord_of_offset? (value : UInt64) (place : r.offset? address width = some offset) :
    r.writeWord address width value = r.setBytes offset (encodeLE width value) :=
  write_of_offset? (by simpa using place)

theorem clear_of_offset? (place : r.offset? address len = some offset) :
    r.clear address len = r.clearAt offset len := by
  simp [clear, place]

section Alongside

variable {r r' : Region} {j : Nat}

section

variable (base : r.base = r'.base) (size : r.size = r'.size)

include base size

/-- The same write changes a byte in the same way wherever it is done. -/
theorem byte_write_congr (address : UInt64) (data : List UInt8) (same : r.byte j = r'.byte j) :
    (r.write address data).byte j = (r'.write address data).byte j := by
  unfold write
  rw [offset?_congr base size]
  split
  · rw [byte_setBytes, byte_setBytes, same]
  · exact same

theorem byte_writeWord_congr (address : UInt64) (width : Nat) (value : UInt64)
    (same : r.byte j = r'.byte j) :
    (r.writeWord address width value).byte j = (r'.writeWord address width value).byte j :=
  byte_write_congr base size address _ same

theorem byte_clear_congr (address : UInt64) (len : Nat) (same : r.byte j = r'.byte j) :
    (r.clear address len).byte j = (r'.clear address len).byte j := by
  unfold clear
  rw [offset?_congr base size]
  split
  · rw [byte_clearAt, byte_clearAt, same]
  · exact same

end

end Alongside

/-- A write changes the bytes of its range only. -/
theorem byte_write_apart
    (apart : r.base.toNat + j < address.toNat ∨ address.toNat + data.length ≤ r.base.toNat + j) :
    (r.write address data).byte j = r.byte j := by
  unfold write
  split
  · rename_i offset place
    have here := (offset?_eq_some_iff.mp place).1
    exact byte_setBytes_apart (by omega)
  · rfl

variable {other : UInt64} {front back : List UInt8}

/-- What is read apart from a write is what was there before. -/
theorem read?_write_apart
    (apart : other.toNat + len ≤ address.toNat ∨ address.toNat + data.length ≤ other.toNat) :
    (r.write address data).read? other len = r.read? other len := by
  apply read?_congr (base_write ..) (size_write ..)
  intro i low high
  rw [base_write] at low high
  exact byte_write_apart (by omega)

theorem readWord?_writeWord_apart {width' : Nat} (value : UInt64)
    (apart : other.toNat + width' ≤ address.toNat ∨ address.toNat + width ≤ other.toNat) :
    (r.writeWord address width value).readWord? other width' = r.readWord? other width' := by
  rw [readWord?, readWord?, writeWord, read?_write_apart (by simpa using apart)]

theorem read?_write_self (inside : r.contains address data.length = true) :
    (r.write address data).read? address data.length = some data := by
  obtain ⟨offset, place⟩ := Option.isSome_iff_exists.mp inside
  rw [write_of_offset? place,
    read?_of_offset? ((r.offset?_setBytes offset data address data.length).trans place),
    bytesAt_setBytes_self]

/-- What is read of two ranges that follow one another. -/
theorem read?_append (below : r.base.toNat + r.size < 2 ^ 64)
    (read : r.read? address (front ++ back).length = some (front ++ back)) :
    r.read? address front.length = some front ∧
      r.read? (address + UInt64.ofNat front.length) back.length = some back := by
  obtain ⟨offset, place, bytes⟩ := Option.map_eq_some_iff.mp read
  obtain ⟨here, inside⟩ := offset?_eq_some_iff.mp place
  rw [List.length_append] at bytes inside
  rw [bytesAt_append] at bytes
  obtain ⟨first, second⟩ := List.append_inj bytes (length_bytesAt ..)
  have next : (address + UInt64.ofNat front.length).toNat
      = r.base.toNat + (offset + front.length) := by
    rw [UInt64.toNat_add, UInt64.toNat_ofNat']
    omega
  rw [read?_of_offset? (offset?_of_inside here (by omega)),
    read?_of_offset? (offset?_of_inside next (by omega)), first, second]
  exact ⟨rfl, rfl⟩

theorem read?_join (below : r.base.toNat + r.size < 2 ^ 64)
    (first : r.read? address front.length = some front)
    (second : r.read? (address + UInt64.ofNat front.length) back.length = some back) :
    r.read? address (front ++ back).length = some (front ++ back) := by
  obtain ⟨offset, place, bytes⟩ := Option.map_eq_some_iff.mp first
  obtain ⟨here, inside⟩ := offset?_eq_some_iff.mp place
  obtain ⟨offset', place', bytes'⟩ := Option.map_eq_some_iff.mp second
  obtain ⟨here', inside'⟩ := offset?_eq_some_iff.mp place'
  have next : offset' = offset + front.length := by
    rw [UInt64.toNat_add, UInt64.toNat_ofNat'] at here'
    omega
  subst next
  rw [List.length_append, read?_of_offset? (offset?_of_inside here (by omega)), bytesAt_append,
    bytes, bytes']

theorem wordAt_setBytes_self (r : Region) (offset width : Nat) (value : UInt64) :
    (r.setBytes offset (encodeLE width value)).wordAt offset width
      = decodeLE (encodeLE width value) := by
  have whole := bytesAt_setBytes_self r offset (encodeLE width value)
  rw [length_encodeLE] at whole
  rw [wordAt, whole]

theorem wordAt_setBytes_apart {place : Nat}
    (apart : place + width ≤ offset ∨ offset + data.length ≤ place) :
    (r.setBytes offset data).wordAt place width = r.wordAt place width :=
  wordAt_congr fun i low high => byte_setBytes_apart (by omega)

/-- A written word reads back, cut to its width. -/
theorem readWord?_writeWord_self (value : UInt64) (inside : r.contains address width = true) :
    (r.writeWord address width value).readWord? address width
      = some (decodeLE (encodeLE width value)) := by
  obtain ⟨offset, place⟩ := Option.isSome_iff_exists.mp inside
  have still := (r.offset?_setBytes offset (encodeLE width value) address width).trans place
  rw [writeWord_of_offset? value place, readWord?_of_offset? still, wordAt_setBytes_self]

theorem read64?_writeWord_self (value : UInt64) (inside : r.contains address 8 = true) :
    (r.writeWord address 8 value).read64? address = some value := by
  rw [read64?, readWord?_writeWord_self value inside, decodeLE_encodeLE_eight]

end ManagedCode.Memory.Region
