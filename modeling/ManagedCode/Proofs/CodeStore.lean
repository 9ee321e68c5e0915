import ManagedCode.Memory.CodeStore
import ManagedCode.Proofs.Action
import ManagedCode.Proofs.Codec
import ManagedCode.Proofs.Region

/-!
# What a code store keeps

Ranges are cut from the pages of a pool one after the other, so that two of them never meet; what is
written to one stays there while others are written. Where the pages lie is not the pool's own
choice: `PagePool.Apart` says that they do not meet and do not wrap around.

* `PagePool.Holds`: some page has these bytes at this address.
* `PagePool.Taken`: the range has been handed out.
* `PagePool.allocate_spec`, `PagePool.write_spec`: what an allocation and a write do to both.
* `CodeStore.constant_spec`: a constant can be read where it was put.
* `CodeStore.fetch_of_holds`: an instruction in a closed store is fetched as it was written.
-/

namespace ManagedCode.Memory

open Number (Single)

variable {bytes : List UInt8} {len : Nat}

namespace PagePool

/-! ## Definitions -/

/-- The pages do not wrap around and do not meet. -/
structure Apart (pool : PagePool) : Prop where
  below : ∀ {k : Nat} {page : Page}, pool.pages[k]? = some page → page.base.toNat + page.size < 2 ^ 64
  disjoint : ∀ {j k : Nat} {p q : Page}, pool.pages[j]? = some p → pool.pages[k]? = some q → j ≠ k →
    p.base.toNat + p.size ≤ q.base.toNat ∨ q.base.toNat + q.size ≤ p.base.toNat

/-- Whether pages do not meet is a question about finitely many of them. -/
theorem apart_iff {pool : PagePool} :
    pool.Apart ↔ (∀ k : Fin pool.pages.size, pool.pages[k].base.toNat + pool.pages[k].size < 2 ^ 64) ∧
      ∀ j k : Fin pool.pages.size, j ≠ k →
        pool.pages[j].base.toNat + pool.pages[j].size ≤ pool.pages[k].base.toNat ∨
          pool.pages[k].base.toNat + pool.pages[k].size ≤ pool.pages[j].base.toNat := by
  constructor
  · intro apart
    refine ⟨fun k => apart.below (Array.getElem?_eq_getElem k.isLt), fun j k ne => ?_⟩
    exact apart.disjoint (Array.getElem?_eq_getElem j.isLt) (Array.getElem?_eq_getElem k.isLt)
      fun same => ne (Fin.ext same)
  · rintro ⟨below, disjoint⟩
    refine ⟨fun {k page} at_ => ?_, fun {j k p q} atP atQ ne => ?_⟩
    · obtain ⟨bound, rfl⟩ := Array.getElem?_eq_some_iff.mp at_
      exact below ⟨k, bound⟩
    · obtain ⟨boundP, rfl⟩ := Array.getElem?_eq_some_iff.mp atP
      obtain ⟨boundQ, rfl⟩ := Array.getElem?_eq_some_iff.mp atQ
      exact disjoint ⟨j, boundP⟩ ⟨k, boundQ⟩ fun same => ne (congrArg Fin.val same)

instance (pool : PagePool) : Decidable pool.Apart :=
  decidable_of_iff' _ apart_iff

/-- Every page of the first pool is one of the second, perhaps with other bytes. -/
def Grows (pool pool' : PagePool) : Prop :=
  ∀ (k : Nat) (page : Page), pool.pages[k]? = some page →
    ∃ page', pool'.pages[k]? = some page' ∧ page'.base = page.base ∧ page'.size = page.size

/-- A page has these bytes at this address. -/
def Holds (pool : PagePool) (address : UInt64) (bytes : List UInt8) : Prop :=
  ∃ (k : Nat) (page : Page), pool.pages[k]? = some page ∧
    page.region.read? address bytes.length = some bytes

/-- How much of a page has been handed out. -/
def room (pool : PagePool) (k : Nat) (page : Page) : Nat :=
  if k + 1 = pool.pages.size then pool.cursor else page.size

/-- The range has been handed out. -/
def Taken (pool : PagePool) (address : UInt64) (len : Nat) : Prop :=
  ∃ (k : Nat) (page : Page) (offset : Nat), pool.pages[k]? = some page ∧
    address.toNat = page.base.toNat + offset ∧ offset + len ≤ pool.room k page

/-- No more than the pages have been handed out. -/
def Sound (pool : PagePool) : Prop :=
  ∀ (k : Nat) (page : Page), pool.pages[k]? = some page → pool.room k page ≤ page.size

/-- Two ranges of addresses that do not meet. -/
def Clear (a : UInt64) (m : Nat) (b : UInt64) (n : Nat) : Prop :=
  a.toNat + m ≤ b.toNat ∨ b.toNat + n ≤ a.toNat

/-! ## Pages -/

variable {back : List UInt8}

section Pages

variable {pool pool' : PagePool}
variable {address : UInt64} {page : Page} {k : Nat}

theorem Grows.refl (pool : PagePool) : Grows pool pool :=
  fun _ page at_ => ⟨page, at_, rfl, rfl⟩

theorem Grows.trans {pool'' : PagePool} (first : Grows pool pool') (second : Grows pool' pool'') :
    Grows pool pool'' := by
  intro k page at_
  obtain ⟨page', at', base', size'⟩ := first _ _ at_
  obtain ⟨page'', at'', base'', size''⟩ := second _ _ at'
  exact ⟨page'', at'', base''.trans base', size''.trans size'⟩

theorem Apart.of_grows (grows : Grows pool pool') (apart : Apart pool') : Apart pool := by
  constructor
  · intro k page at_
    obtain ⟨page', at', base, size⟩ := grows _ _ at_
    rw [← base, ← size]
    exact apart.below at'
  · intro j k p q atP atQ ne
    obtain ⟨p', atP', baseP, sizeP⟩ := grows _ _ atP
    obtain ⟨q', atQ', baseQ, sizeQ⟩ := grows _ _ atQ
    rw [← baseP, ← sizeP, ← baseQ, ← sizeQ]
    exact apart.disjoint atP' atQ' ne

theorem contains_iff :
    page.contains address = true ↔
      page.base.toNat ≤ address.toNat ∧ address.toNat < page.base.toNat + page.size := by
  rw [Page.contains, Region.contains_iff]
  exact Iff.rfl

theorem Apart.unique (apart : Apart pool) {j : Nat} {p q : Page} (atP : pool.pages[j]? = some p)
    (atQ : pool.pages[k]? = some q) (inP : p.contains address = true)
    (inQ : q.contains address = true) : j = k := by
  by_cases same : j = k
  · exact same
  · rw [contains_iff] at inP inQ
    rcases apart.disjoint atP atQ same with before | after <;> omega

section

variable (apart : Apart pool) (at_ : pool.pages[k]? = some page)
  (inside : page.contains address = true)

include apart at_ inside

theorem Apart.findIdx? : pool.pages.findIdx? (·.contains address) = some k := by
  obtain ⟨bound, here⟩ := Array.getElem?_eq_some_iff.mp at_
  rw [Array.findIdx?_eq_some_iff_getElem]
  refine ⟨bound, by rw [here]; exact inside, ?_⟩
  intro j before meets
  have same := apart.unique (Array.getElem?_eq_getElem (by omega)) at_ meets inside
  omega

theorem Apart.page? : pool.page? address = some page := by
  obtain ⟨bound, here⟩ := Array.getElem?_eq_some_iff.mp at_
  rw [PagePool.page?, Array.find?_eq_some_iff_getElem]
  refine ⟨inside, k, bound, here, ?_⟩
  intro j before
  rw [Bool.not_eq_true', Bool.eq_false_iff]
  intro meets
  have same := apart.unique (Array.getElem?_eq_getElem (by omega)) at_ meets inside
  omega

end

theorem inside_of_read? (read : page.region.read? address bytes.length = some bytes) :
    page.base.toNat ≤ address.toNat ∧
      address.toNat + bytes.length ≤ page.base.toNat + page.size := by
  obtain ⟨offset, place, _⟩ := Option.map_eq_some_iff.mp read
  obtain ⟨here, bound⟩ := Region.offset?_eq_some_iff.mp place
  unfold Page.base Page.size
  omega

/-- Two ranges of bytes that follow one another. -/
theorem Holds.append (front : List UInt8) (apart : Apart pool)
    (holds : pool.Holds address (front ++ back)) :
    pool.Holds address front ∧ pool.Holds (address + UInt64.ofNat front.length) back := by
  obtain ⟨k, page, at_, read⟩ := holds
  obtain ⟨first, second⟩ := Region.read?_append (apart.below at_) read
  exact ⟨⟨k, page, at_, first⟩, ⟨k, page, at_, second⟩⟩

/-- Bytes that follow one another in one page. -/
theorem Holds.join (front : List UInt8) (apart : Apart pool) (at_ : pool.pages[k]? = some page)
    (inside : page.contains address = true)
    (inside' : page.contains (address + UInt64.ofNat front.length) = true)
    (someFront : 0 < front.length) (someBack : 0 < back.length) (first : pool.Holds address front)
    (second : pool.Holds (address + UInt64.ofNat front.length) back) :
    pool.Holds address (front ++ back) := by
  have here : ∀ {a : UInt64} {bytes : List UInt8}, page.contains a = true → 0 < bytes.length →
      pool.Holds a bytes → page.region.read? a bytes.length = some bytes := by
    rintro a bytes inside some_ ⟨j, q, atQ, read⟩
    obtain ⟨low, high⟩ := inside_of_read? read
    have same := apart.unique atQ at_ (contains_iff.mpr ⟨low, by omega⟩) inside
    subst same
    cases at_.symm.trans atQ
    exact read
  exact ⟨k, page, at_, Region.read?_join (apart.below at_) (here inside someFront first)
    (here inside' someBack second)⟩

end Pages

/-! ## Allocations -/

variable {e : MemoryError}

section Allocations

variable {pool pool' : PagePool}
variable {alignment size : Nat} {page : Page}

/-- What an allocation does: the range is handed out, and it does not meet any other. -/
structure Allocated (pool : PagePool) (address : UInt64) (size : Nat) (pool' : PagePool) : Prop where
  grows : Grows pool pool'
  sound : pool'.Sound
  taken : pool'.Taken address size
  kept : ∀ {b : UInt64} {len : Nat}, pool.Taken b len → pool'.Taken b len
  fresh : ∀ {b : UInt64} {len : Nat}, pool.Taken b len → Clear b len address size
  holds : ∀ {b : UInt64} {bytes : List UInt8}, pool.Holds b bytes → pool'.Holds b bytes

theorem le_alignUp (n : Nat) (positive : 0 < alignment) : n ≤ alignUp n alignment := by
  unfold alignUp
  have := Nat.div_add_mod (n + (alignment - 1)) alignment
  have small := Nat.mod_lt (n + (alignment - 1)) positive
  rw [Nat.mul_comm] at this
  omega

theorem allocated_last {offset : Nat} (sound : pool.Sound) (apart : Apart pool)
    (last : pool.pages.back? = some page) (free : pool.cursor ≤ offset)
    (fits : offset + size ≤ page.size) :
    Allocated pool (page.base + UInt64.ofNat offset) size { pool with cursor := offset + size } := by
  rw [Array.back?_eq_getElem?] at last
  obtain ⟨bound, _⟩ := Array.getElem?_eq_some_iff.mp last
  have below := apart.below last
  have place : (page.base + UInt64.ofNat offset).toNat = page.base.toNat + offset := by
    rw [UInt64.toNat_add, UInt64.toNat_ofNat']
    omega
  have more : ∀ {k : Nat} {q : Page}, pool.pages[k]? = some q →
      pool.room k q ≤ room { pool with cursor := offset + size } k q := by
    intro k q _
    simp only [room]
    split <;> omega
  refine ⟨Grows.refl pool, ?_, ⟨pool.pages.size - 1, page, offset, last, place, ?_⟩, ?_, ?_, id⟩
  · intro k q at_
    simp only [room]
    split
    · rename_i here
      have same : k = pool.pages.size - 1 := by omega
      subst same
      cases last.symm.trans at_
      exact fits
    · exact Nat.le_refl _
  · simp only [room]
    exact Nat.le_of_eq (if_pos (by omega)).symm
  · rintro b len ⟨k, q, o, at_, here, high⟩
    exact ⟨k, q, o, at_, here, Nat.le_trans high (more at_)⟩
  · rintro b len ⟨k, q, o, at_, here, high⟩
    have inside := sound _ _ at_
    unfold Clear
    rw [here, place]
    by_cases same : k = pool.pages.size - 1
    · subst same
      cases last.symm.trans at_
      rw [room, if_pos (by omega)] at high
      omega
    · rcases apart.disjoint at_ last same with before | after <;> omega

theorem allocated_new (sound : pool.Sound) (fits : size ≤ page.size)
    (apart : Apart { pool with pages := pool.pages.push page, cursor := size }) :
    Allocated pool page.base size { pool with pages := pool.pages.push page, cursor := size } := by
  have older : ∀ {k : Nat} {q : Page}, pool.pages[k]? = some q →
      k < pool.pages.size ∧ (pool.pages.push page)[k]? = some q := by
    intro k q at_
    obtain ⟨bound, here⟩ := Array.getElem?_eq_some_iff.mp at_
    refine ⟨bound, ?_⟩
    rw [Array.getElem?_push, if_neg (by omega)]
    exact at_
  have new : (pool.pages.push page)[pool.pages.size]? = some page := Array.getElem?_push_size
  refine ⟨?_, ?_, ⟨pool.pages.size, page, 0, new, rfl, ?_⟩, ?_, ?_, ?_⟩
  · intro k q at_
    exact ⟨q, (older at_).2, rfl, rfl⟩
  · intro k q at_
    unfold room
    split
    · rename_i here
      rw [Array.size_push] at here
      have same : k = pool.pages.size := by omega
      subst same
      cases new.symm.trans at_
      exact fits
    · exact Nat.le_refl _
  · rw [room, if_pos (by rw [Array.size_push])]
    simp only
    omega
  · rintro b len ⟨k, q, o, at_, here, high⟩
    obtain ⟨bound, still⟩ := older at_
    refine ⟨k, q, o, still, here, ?_⟩
    rw [room, if_neg (by rw [Array.size_push]; omega)]
    exact Nat.le_trans high (sound _ _ at_)
  · rintro b len ⟨k, q, o, at_, here, high⟩
    obtain ⟨bound, still⟩ := older at_
    have inside := sound _ _ at_
    unfold Clear
    rcases apart.disjoint still new (by omega) with before | after <;> omega
  · rintro b bytes ⟨k, q, at_, read⟩
    exact ⟨k, q, (older at_).2, read⟩

theorem le_roundToPages (n : Nat) : n ≤ roundToPages n := by
  unfold roundToPages pageSize
  omega

theorem size_of_commit {base : UInt64} {minSize : Nat}
    (made : Page.commit base minSize = .ok page) :
    page.base = base ∧ minSize ≤ page.size ∧ page.protection = .readWrite := by
  unfold Page.commit Region.commit at made
  dsimp only at made
  split at made
  · cases made
    exact ⟨rfl, le_roundToPages minSize, rfl⟩
  · cases made

theorem grows_allocate (pool : PagePool) (size alignment : Nat) :
    Grows pool (leaves (allocate size alignment pool)) := by
  unfold allocate
  dsimp only
  split
  · exact fun _ page at_ => ⟨page, at_, rfl, rfl⟩
  · split
    · intro k page at_
      obtain ⟨bound, _⟩ := Array.getElem?_eq_some_iff.mp at_
      refine ⟨page, ?_, rfl, rfl⟩
      show (pool.pages.push _)[k]? = some page
      rw [Array.getElem?_push, if_neg (by omega)]
      exact at_
    · exact Grows.refl pool

/-- An allocation adds no page but one at the next place, which can be written. -/
theorem allocate_places (pool : PagePool) (size alignment : Nat) :
    (leaves (allocate size alignment pool)).origin = pool.origin ∧
      (leaves (allocate size alignment pool)).stride = pool.stride ∧
      (leaves (allocate size alignment pool)).minPageSize = pool.minPageSize ∧
      ∀ (k : Nat) (page : Page), (leaves (allocate size alignment pool)).pages[k]? = some page →
        pool.pages[k]? = some page ∨ page.base = pool.nextBase ∧ page.protection = .readWrite := by
  unfold allocate
  dsimp only
  split
  · exact ⟨rfl, rfl, rfl, fun _ _ => .inl⟩
  · split
    · rename_i new made
      refine ⟨rfl, rfl, rfl, fun k page at_ => ?_⟩
      have at_ : (pool.pages.push new)[k]? = some page := at_
      rw [Array.getElem?_push] at at_
      split at at_
      · cases at_
        exact .inr ⟨(size_of_commit made).1, (size_of_commit made).2.2⟩
      · exact .inl at_
    · exact ⟨rfl, rfl, rfl, fun _ _ => .inl⟩

theorem allocate_error (run : allocate size alignment pool = .error e pool') : pool' = pool := by
  unfold allocate at run
  dsimp only at run
  split at run
  · cases run
  · split at run
    · cases run
    · cases run
      rfl

theorem allocate_spec {address : UInt64} (positive : 0 < alignment) (sound : pool.Sound)
    (run : allocate size alignment pool = .ok address pool') (apart : Apart pool') :
    Allocated pool address size pool' := by
  unfold allocate at run
  dsimp only at run
  split at run
  · rename_i page fitting
    obtain ⟨last, fits⟩ := Option.filter_eq_some_iff.mp fitting
    cases run
    have before : Apart pool := ⟨apart.below, apart.disjoint⟩
    exact allocated_last sound before last (le_alignUp _ positive) (by simpa using fits)
  · split at run
    · rename_i page made
      cases run
      obtain ⟨_, enough, _⟩ := size_of_commit made
      exact allocated_new sound (by omega) apart
    · cases run

end Allocations

/-! ## Writes -/

section Writes

variable {pool pool' : PagePool}
variable {address : UInt64} {data : List UInt8}

/-- What a write does: the bytes are there, and what lies apart from them stays. -/
structure Written (pool : PagePool) (address : UInt64) (data : List UInt8) (pool' : PagePool) :
    Prop where
  grows : Grows pool pool'
  grown : Grows pool' pool
  room : ∀ k page page', pool.pages[k]? = some page → pool'.pages[k]? = some page' →
    pool'.room k page' = pool.room k page
  here : pool'.Holds address data
  holds : ∀ {b : UInt64} {bytes : List UInt8}, pool.Holds b bytes →
    Clear b bytes.length address data.length → pool'.Holds b bytes

section

variable (written : Written pool address data pool')

include written

theorem Written.apart (apart : Apart pool) : Apart pool' :=
  apart.of_grows written.grown

theorem Written.taken {b : UInt64} (taken : pool.Taken b len) : pool'.Taken b len := by
  obtain ⟨k, page, offset, at_, here, high⟩ := taken
  obtain ⟨page', at', base, size⟩ := written.grows _ _ at_
  refine ⟨k, page', offset, at', by rw [base]; exact here, ?_⟩
  rw [written.room k page page' at_ at']
  exact high

theorem Written.sound (sound : pool.Sound) : pool'.Sound := by
  intro k page' at'
  obtain ⟨page, at_, base, size⟩ := written.grown _ _ at'
  rw [written.room k page page' at_ at', ← size]
  exact sound k page at_

end

theorem written_page {k : Nat} {page : Page} (at_ : pool.pages[k]? = some page)
    (inside : page.region.contains address data.length = true) :
    Written pool address data { pool with
      pages := pool.pages.setIfInBounds k { page with region := page.region.write address data } } := by
  obtain ⟨bound, _⟩ := Array.getElem?_eq_some_iff.mp at_
  have new : ∀ j, (pool.pages.setIfInBounds k
      { page with region := page.region.write address data })[j]?
        = if k = j then some { page with region := page.region.write address data }
          else pool.pages[j]? := by
    intro j
    rw [Array.getElem?_setIfInBounds, if_pos bound]
  refine ⟨?_, ?_, ?_, ⟨k, _, by rw [new, if_pos rfl], Region.read?_write_self inside⟩, ?_⟩
  · intro j q atQ
    simp only [new]
    split
    · rename_i same
      subst same
      cases at_.symm.trans atQ
      exact ⟨_, rfl, Region.base_write .., Region.size_write ..⟩
    · exact ⟨q, atQ, rfl, rfl⟩
  · intro j q atQ
    simp only [new] at atQ
    split at atQ
    · rename_i same
      subst same
      cases atQ
      exact ⟨page, at_, (Region.base_write ..).symm, (Region.size_write ..).symm⟩
    · exact ⟨q, atQ, rfl, rfl⟩
  · intro j q q' atQ atQ'
    simp only [new] at atQ'
    simp only [room, Array.size_setIfInBounds]
    split at atQ'
    · rename_i same
      subst same
      cases at_.symm.trans atQ
      cases atQ'
      simp only [Page.size, Region.size_write]
    · cases atQ.symm.trans atQ'
      rfl
  · rintro b bytes ⟨j, q, atQ, read⟩ clear
    by_cases same : k = j
    · subst same
      cases at_.symm.trans atQ
      refine ⟨k, _, by rw [new, if_pos rfl], ?_⟩
      rw [Region.read?_write_apart clear]
      exact read
    · exact ⟨j, q, by rw [new, if_neg same]; exact atQ, read⟩

theorem write_spec (run : write address data pool = .ok () pool') :
    Written pool address data pool' := by
  unfold write at run
  split at run
  · cases run
  · rename_i index found
    obtain ⟨bound, _, _⟩ := Array.findIdx?_eq_some_iff_getElem.mp found
    have at_ : pool.pages[index]? = some pool.pages[index] := Array.getElem?_eq_getElem bound
    have page : pool.pages.getD index default = pool.pages[index] := by simp [bound]
    rw [page] at run
    generalize pool.pages[index] = page at at_ run
    unfold Page.write at run
    split at run
    · rename_i changed wrote
      split at wrote
      · cases wrote
      · split at wrote
        · rename_i inside
          cases wrote
          cases run
          exact written_page at_ inside
        · cases wrote
    · cases run

theorem write_error (run : write address data pool = .error e pool') : pool' = pool := by
  unfold write at run
  split at run
  · cases run
    rfl
  · split at run
    · cases run
    · cases run
      rfl

end Writes

/-! ## What stays -/

section Stored

variable {pool pool' pool'' : PagePool}
variable {address : UInt64}

/-- The bytes lie in a range that has been handed out. -/
structure Stored (pool : PagePool) (address : UInt64) (bytes : List UInt8) : Prop where
  holds : pool.Holds address bytes
  taken : pool.Taken address bytes.length

/-- What is stored in the first pool is stored in the second. -/
def Keeps (pool pool' : PagePool) : Prop :=
  ∀ b bytes, pool.Stored b bytes → pool'.Stored b bytes

theorem Keeps.refl (pool : PagePool) : Keeps pool pool := fun _ _ stored => stored

theorem Keeps.trans (first : Keeps pool pool') (second : Keeps pool' pool'') : Keeps pool pool'' :=
  fun b bytes stored => second b bytes (first b bytes stored)

variable {size : Nat}

theorem Allocated.keeps (allocated : Allocated pool address size pool') : Keeps pool pool' :=
  fun _ _ stored => ⟨allocated.holds stored.holds, allocated.kept stored.taken⟩

/-- Bytes written to a range just handed out are stored, and nothing else is lost. -/
theorem Written.stored {data : List UInt8} (allocated : Allocated pool address data.length pool')
    (written : Written pool' address data pool'') :
    pool''.Stored address data ∧ Keeps pool pool'' := by
  refine ⟨⟨written.here, written.taken allocated.taken⟩, fun b bytes stored => ?_⟩
  obtain ⟨holds, taken⟩ := allocated.keeps b bytes stored
  exact ⟨written.holds holds (allocated.fresh stored.taken), written.taken taken⟩

/-- Ranges that were handed out stay so, and with them the bytes that they hold. -/
structure Spares (pool pool' : PagePool) : Prop where
  keeps : Keeps pool pool'
  taken : ∀ b len, pool.Taken b len → pool'.Taken b len

theorem Spares.refl (pool : PagePool) : Spares pool pool := ⟨.refl pool, fun _ _ taken => taken⟩

theorem Allocated.spares (allocated : Allocated pool address size pool') : Spares pool pool' :=
  ⟨allocated.keeps, fun _ _ taken => allocated.kept taken⟩

section

variable (apart : Apart pool) (sound : pool.Sound)

include apart sound

/-- A range that was handed out does not wrap around. -/
theorem Taken.below (taken : pool.Taken address len) : address.toNat + len < 2 ^ 64 := by
  obtain ⟨k, page, offset, at_, here, high⟩ := taken
  have below := apart.below at_
  have inside := sound _ _ at_
  omega

theorem Taken.append {m n : Nat} (taken : pool.Taken address (m + n)) :
    pool.Taken address m ∧ pool.Taken (address + UInt64.ofNat m) n := by
  have below := taken.below apart sound
  obtain ⟨k, page, offset, at_, here, high⟩ := taken
  refine ⟨⟨k, page, offset, at_, here, by omega⟩, ⟨k, page, offset + m, at_, ?_, by omega⟩⟩
  rw [UInt64.toNat_add, UInt64.toNat_ofNat']
  omega

/-- Two ranges of stored bytes that follow one another. -/
theorem Stored.append {front : List UInt8} (stored : pool.Stored address (front ++ back)) :
    pool.Stored address front ∧ pool.Stored (address + UInt64.ofNat front.length) back := by
  obtain ⟨first, second⟩ := stored.holds.append front apart
  have taken := stored.taken
  rw [List.length_append] at taken
  obtain ⟨first', second'⟩ := taken.append apart sound
  exact ⟨⟨first, first'⟩, ⟨second, second'⟩⟩

end

end Stored

end PagePool

/-! ## Stores -/

namespace CodeStore

/-- The pages of either kind do not meet. -/
structure Apart (store : CodeStore) : Prop where
  code : store.code.Apart
  constants : store.constants.Apart

instance (store : CodeStore) : Decidable store.Apart :=
  decidable_of_iff (store.code.Apart ∧ store.constants.Apart)
    ⟨fun ⟨code, constants⟩ => ⟨code, constants⟩, fun apart => ⟨apart.code, apart.constants⟩⟩

/-- A constant can be read where it was put. -/
def Constant (store : CodeStore) (value : Single) (address : UInt64) : Prop :=
  store.constants.Stored address (encodeLE constantSize value.bits.toUInt64)

/-- The pools are sound, and every constant with an address is there. -/
structure Sound (store : CodeStore) : Prop where
  code : store.code.Sound
  constants : store.constants.Sound
  known : ∀ value address, store.addresses[value]? = some address → store.Constant value address

/-- What every action on a store leaves alone: pages are only added, and constants stay. -/
structure Evolves (store store' : CodeStore) : Prop where
  code : store.code.Grows store'.code
  constants : store.constants.Grows store'.constants
  sound : store'.Apart → store.Sound → store'.Sound ∧ store.constants.Keeps store'.constants

variable {value : Single}

section Evolves

variable {store store' store'' : CodeStore}

theorem Evolves.refl (store : CodeStore) : Evolves store store :=
  ⟨PagePool.Grows.refl _, PagePool.Grows.refl _, fun _ sound => ⟨sound, .refl _⟩⟩

theorem Evolves.apart (evolves : Evolves store store') (apart : store'.Apart) : store.Apart :=
  ⟨apart.code.of_grows evolves.code, apart.constants.of_grows evolves.constants⟩

theorem Evolves.trans (first : Evolves store store') (second : Evolves store' store'') :
    Evolves store store'' := by
  refine ⟨first.code.trans second.code, first.constants.trans second.constants, ?_⟩
  intro apart sound
  obtain ⟨sound', kept⟩ := first.sound (second.apart apart) sound
  obtain ⟨sound'', kept'⟩ := second.sound apart sound'
  exact ⟨sound'', kept.trans kept'⟩

theorem evolves_code {code : PagePool} (grows : store.code.Grows code)
    (sound : code.Apart → store.code.Sound → code.Sound) : Evolves store { store with code } := by
  refine ⟨grows, PagePool.Grows.refl _, fun apart before => ?_⟩
  exact ⟨⟨sound apart.code before.code, before.constants, before.known⟩, .refl _⟩

theorem evolves_constants {constants : PagePool} (grows : store.constants.Grows constants)
    (sound : constants.Apart → store.constants.Sound →
      constants.Sound ∧ store.constants.Keeps constants) :
    Evolves store { store with constants } := by
  refine ⟨PagePool.Grows.refl _, grows, fun apart before => ?_⟩
  obtain ⟨after, kept⟩ := sound apart.constants before.constants
  exact ⟨⟨before.code, after, fun value address known => kept _ _ (before.known value address known)⟩,
    kept⟩

end Evolves

/-! ## Actions on a store -/

section Actions

variable {store store' : CodeStore}
variable {address : UInt64} {α : Type} {e : MemoryError} {size : Nat}

theorem requireOpen_eq (store : CodeStore) :
    requireOpen store = if store.executable then .error .sealed store else .ok () store := by
  unfold requireOpen
  rw [get_bind]
  split <;> rfl

theorem requireOpen_open (opened : store.executable = false) :
    requireOpen store = .ok () store := by
  rw [requireOpen_eq, if_neg (by simp [opened])]

variable {act : EStateM MemoryError PagePool α}

variable {a : α}

theorem onCode_eq_ok_iff :
    onCode act store = .ok a store' ↔
      ∃ code, act store.code = .ok a code ∧ store' = { store with code } := by
  unfold onCode
  cases run : act store.code with
  | ok b code =>
    dsimp only
    rw [run]
    constructor
    · intro same
      cases same
      exact ⟨code, rfl, rfl⟩
    · rintro ⟨_, same, rfl⟩
      cases same
      rfl
  | error e code =>
    dsimp only
    rw [run]
    constructor
    · intro same
      cases same
    · rintro ⟨_, same, _⟩
      cases same

theorem leaves_onCode (act : EStateM MemoryError PagePool α) (store : CodeStore) :
    leaves (onCode act store) = { store with code := leaves (act store.code) } := by
  unfold onCode
  dsimp only
  cases act store.code <;> rfl

theorem openCode_eq (act : EStateM MemoryError PagePool α) (store : CodeStore) :
    (requireOpen >>= fun _ => onCode act) store
      = if store.executable then .error .sealed store else onCode act store := by
  have opened := requireOpen_eq store
  split at opened <;> rename_i closed
  · rw [bind_of_error opened, if_pos closed]
  · rw [bind_of_ok opened, if_neg closed]

/-- An action on the code changes nothing else, and nothing at all once the store is closed. -/
theorem leaves_openCode (act : EStateM MemoryError PagePool α) (store : CodeStore) :
    leaves ((requireOpen >>= fun _ => onCode act) store) = store ∨
      leaves ((requireOpen >>= fun _ => onCode act) store)
        = { store with code := leaves (act store.code) } := by
  rw [openCode_eq]
  split
  · exact .inl rfl
  · exact .inr (leaves_onCode act store)

/-- An action on the code that leaves the pool as it is when it fails does so with the store. -/
theorem store_of_onCode_error (still : ∀ {pool pool' e}, act pool = .error e pool' → pool' = pool)
    (run : (requireOpen >>= fun _ => onCode act) store = .error e store') : store' = store := by
  rw [openCode_eq] at run
  split at run
  · cases run
    rfl
  · unfold onCode at run
    dsimp only at run
    split at run
    · cases run
    · rename_i failed
      cases run
      rw [still failed]

theorem openCode_eq_ok (run : (requireOpen >>= fun _ => onCode act) store = .ok a store') :
    ∃ code, act store.code = .ok a code ∧ store' = { store with code } := by
  rw [openCode_eq] at run
  split at run
  · cases run
  · exact onCode_eq_ok_iff.mp run

theorem allocateCode_error (run : allocateCode size store = .error e store') : store' = store :=
  store_of_onCode_error PagePool.allocate_error run

theorem writeCode_error {data : List UInt8} (run : writeCode address data store = .error e store') :
    store' = store :=
  store_of_onCode_error PagePool.write_error run

theorem sound_leaves_allocate {pool : PagePool} {alignment : Nat} (positive : 0 < alignment)
    (apart : (leaves (PagePool.allocate size alignment pool)).Apart) (sound : pool.Sound) :
    (leaves (PagePool.allocate size alignment pool)).Sound := by
  cases run : PagePool.allocate size alignment pool with
  | ok address pool' =>
    rw [run] at apart
    exact (PagePool.allocate_spec positive sound run apart).sound
  | error e pool' =>
    cases PagePool.allocate_error run
    exact sound

theorem evolves_openCode (store : CodeStore)
    (evolves : Evolves store { store with code := leaves (act store.code) }) :
    Evolves store (leaves ((requireOpen >>= fun _ => onCode act) store)) := by
  rcases leaves_openCode act store with same | changed
  · rw [same]
    exact .refl store
  · rw [changed]
    exact evolves

theorem evolves_allocateCode (store : CodeStore) (size : Nat) :
    Evolves store (leaves (allocateCode size store)) := by
  refine evolves_openCode store ?_
  exact evolves_code (PagePool.grows_allocate _ _ _) (sound_leaves_allocate (by decide))

theorem allocateCode_eq_ok (run : allocateCode size store = .ok address store') :
    ∃ code, PagePool.allocate size codeAlignment store.code = .ok address code ∧
      store' = { store with code } :=
  openCode_eq_ok run

theorem writeCode_eq_ok {data : List UInt8} (run : writeCode address data store = .ok () store') :
    ∃ code, PagePool.write address data store.code = .ok () code ∧
      store' = { store with code } :=
  openCode_eq_ok run

theorem evolves_writeCode (store : CodeStore) (address : UInt64) (data : List UInt8) :
    Evolves store (leaves (writeCode address data store)) := by
  refine evolves_openCode store ?_
  cases run : PagePool.write address data store.code with
  | ok _ code =>
    have written := PagePool.write_spec run
    exact evolves_code written.grows fun _ sound => written.sound sound
  | error e code =>
    cases PagePool.write_error run
    exact .refl store

/-- The four ways in which asking for a constant ends. -/
theorem constant_cases (store : CodeStore) (value : Single) :
    (∃ address, store.addresses[value]? = some address ∧
        constant value store = .ok address store) ∨
      ((store.executable = true ∨ ∃ e mid, PagePool.allocate constantSize constantSize store.constants
          = .error e mid) ∧ ∃ e, constant value store = .error e store) ∨
      (∃ address mid e, PagePool.allocate constantSize constantSize store.constants
          = .ok address mid ∧
        PagePool.write address (encodeLE constantSize value.bits.toUInt64) mid = .error e mid ∧
        constant value store = .error e { store with constants := mid }) ∨
      ∃ address mid pool, PagePool.allocate constantSize constantSize store.constants
          = .ok address mid ∧
        PagePool.write address (encodeLE constantSize value.bits.toUInt64) mid = .ok () pool ∧
        constant value store = .ok address
          { store with constants := pool, addresses := store.addresses.insert value address } := by
  unfold constant
  rw [get_bind]
  cases known : store.addresses[value]? with
  | some address => exact .inl ⟨address, rfl, rfl⟩
  | none =>
    dsimp only
    by_cases sealed : store.executable = true
    · have refused := requireOpen_eq store
      rw [if_pos sealed] at refused
      exact .inr (.inl ⟨.inl sealed, _, bind_of_error refused⟩)
    · have opened := requireOpen_eq store
      rw [if_neg sealed] at opened
      rw [bind_of_ok opened]
      cases allocated : PagePool.allocate constantSize constantSize store.constants with
      | error e mid =>
        cases PagePool.allocate_error allocated
        refine .inr (.inl ⟨.inr ⟨e, _, rfl⟩, e, bind_of_error ?_⟩)
        simp only [onConstants, allocated]
      | ok address mid =>
        have first : onConstants (PagePool.allocate constantSize constantSize) store
            = .ok address { store with constants := mid } := by
          simp only [onConstants, allocated]
        rw [bind_of_ok first]
        cases wrote : PagePool.write address (encodeLE constantSize value.bits.toUInt64) mid with
        | error e pool =>
          cases PagePool.write_error wrote
          refine .inr (.inr (.inl ⟨address, mid, e, rfl, wrote, bind_of_error ?_⟩))
          simp only [onConstants, wrote]
        | ok _ pool =>
          have second : onConstants
              (PagePool.write address (encodeLE constantSize value.bits.toUInt64))
                { store with constants := mid } = .ok () { store with constants := pool } := by
            simp only [onConstants, wrote]
          exact .inr (.inr (.inr ⟨address, mid, pool, rfl, wrote, bind_of_ok second⟩))

theorem evolves_insert {mid pool : PagePool}
    (allocated : PagePool.allocate constantSize constantSize store.constants = .ok address mid)
    (wrote : PagePool.write address (encodeLE constantSize value.bits.toUInt64) mid = .ok () pool) :
    Evolves store
        { store with constants := pool, addresses := store.addresses.insert value address } ∧
      (pool.Apart → store.Sound →
        pool.Stored address (encodeLE constantSize value.bits.toUInt64)) := by
  have written := PagePool.write_spec wrote
  have size : (encodeLE constantSize value.bits.toUInt64).length = constantSize := by simp
  have grows := PagePool.grows_allocate store.constants constantSize constantSize
  rw [allocated] at grows
  have after : pool.Apart → store.Sound →
      mid.Sound ∧ pool.Stored address (encodeLE constantSize value.bits.toUInt64) ∧
        store.constants.Keeps pool := by
    intro apart sound
    have done := PagePool.allocate_spec (by decide) sound.constants allocated
      (apart.of_grows written.grows)
    rw [← size] at done
    exact ⟨done.sound, PagePool.Written.stored done written⟩
  refine ⟨⟨PagePool.Grows.refl _, grows.trans written.grows, fun apart sound => ?_⟩,
    fun apart sound => (after apart sound).2.1⟩
  obtain ⟨middle, stored, kept⟩ := after apart.constants sound
  refine ⟨⟨sound.code, written.sound middle, ?_⟩, kept⟩
  intro other place known
  rw [Std.HashMap.getElem?_insert] at known
  split at known
  · rename_i same
    cases known
    rw [beq_iff_eq] at same
    subst same
    exact stored
  · exact kept _ _ (sound.known other place known)

theorem evolves_constant (store : CodeStore) (value : Single) :
    Evolves store (leaves (constant value store)) := by
  rcases constant_cases store value with ⟨a, _, run⟩ | ⟨_, e, run⟩ |
    ⟨a, mid, e, allocated, _, run⟩ | ⟨a, mid, pool, allocated, wrote, run⟩
  · rw [run]
    exact .refl store
  · rw [run]
    exact .refl store
  · have grows := PagePool.grows_allocate store.constants constantSize constantSize
    rw [allocated] at grows
    rw [run]
    refine evolves_constants grows fun apart sound => ?_
    have done := PagePool.allocate_spec (by decide) sound allocated apart
    exact ⟨done.sound, done.keeps⟩
  · rw [run]
    exact (evolves_insert allocated wrote).1

/-- A relation between the stores before and after that holds whenever a constant is asked for. -/
structure RespectsConstants (R : CodeStore → CodeStore → Prop) : Prop where
  refl : ∀ store, R store store
  trans : ∀ {store store' store''}, R store store' → R store' store'' → R store store''
  constant : ∀ store value, R store (leaves (constant value store))

/-- A relation between the stores before and after that holds for every action that fills a store. -/
structure Respects (R : CodeStore → CodeStore → Prop) : Prop extends RespectsConstants R where
  allocateCode : ∀ store size, R store (leaves (allocateCode size store))
  writeCode : ∀ store address data, R store (leaves (writeCode address data store))

theorem respects_evolves : Respects Evolves :=
  ⟨⟨.refl, .trans, evolves_constant⟩, evolves_allocateCode, evolves_writeCode⟩

/-- Asking for a constant leaves the code alone, and takes room and writes bytes among the constants
at most. -/
theorem leaves_constant (store : CodeStore) (value : Single) :
    (leaves (constant value store)).code = store.code ∧
      (leaves (constant value store)).executable = store.executable ∧
      ∀ P : PagePool → Prop,
        (∀ pool, P pool → P (leaves (PagePool.allocate constantSize constantSize pool))) →
        (∀ pool address data, P pool → P (leaves (PagePool.write address data pool))) →
        P store.constants → P (leaves (constant value store)).constants := by
  rcases constant_cases store value with ⟨a, _, run⟩ | ⟨_, e, run⟩ |
    ⟨a, mid, e, allocated, _, run⟩ | ⟨a, mid, pool, allocated, wrote, run⟩
  · rw [run]
    exact ⟨rfl, rfl, fun _ _ _ => id⟩
  · rw [run]
    exact ⟨rfl, rfl, fun _ _ _ => id⟩
  · rw [run]
    refine ⟨rfl, rfl, fun P allocate _ start => ?_⟩
    have made := allocate _ start
    rw [allocated] at made
    exact made
  · rw [run]
    refine ⟨rfl, rfl, fun P allocate write start => ?_⟩
    have made := allocate _ start
    rw [allocated] at made
    have filled := write mid a (encodeLE constantSize value.bits.toUInt64) made
    rw [wrote] at filled
    exact filled

/-- Constants are put apart from the code. -/
theorem respects_code : RespectsConstants fun store store' => store'.code = store.code :=
  ⟨fun _ => rfl, fun first second => second.trans first,
    fun store value => (leaves_constant store value).1⟩

theorem RespectsConstants.bind {R : CodeStore → CodeStore → Prop} (respects : RespectsConstants R)
    {ε β : Type} {x : EStateM ε CodeStore α} {f : α → EStateM ε CodeStore β}
    (first : R store (leaves (x store))) (rest : ∀ a t, R t (leaves (f a t))) :
    R store (leaves ((x >>= f) store)) :=
  leaves_bind (R := R) respects.trans first fun a t _ => rest a t

/-- A constant is where the store says. The code is not touched. -/
theorem constant_spec (run : constant value store = .ok address store') :
    store'.code = store.code ∧ store'.executable = store.executable ∧
      (store'.Apart → store.Sound → store'.Constant value address) := by
  rcases constant_cases store value with ⟨a, known, found⟩ | ⟨_, e, found⟩ |
    ⟨a, mid, e, _, _, found⟩ | ⟨a, mid, pool, allocated, wrote, found⟩
  · cases found.symm.trans run
    exact ⟨rfl, rfl, fun _ sound => sound.known value address known⟩
  · cases found.symm.trans run
  · cases found.symm.trans run
  · cases found.symm.trans run
    exact ⟨rfl, rfl, fun apart sound => (evolves_insert allocated wrote).2 apart.constants sound⟩

end Actions

/-! ## Closing a store -/

section Closing

open PagePool

variable {pool : PagePool}

theorem getElem?_protectAll {protection : Protection} {k : Nat} :
    (pool.protectAll protection).pages[k]? = (pool.pages[k]?).map (·.protect protection) := by
  rw [protectAll, Array.getElem?_map]

theorem grows_protectAll (pool : PagePool) (protection : Protection) :
    pool.Grows (pool.protectAll protection) := by
  intro k page at_
  refine ⟨page.protect protection, ?_, rfl, rfl⟩
  rw [getElem?_protectAll, at_]
  rfl

theorem room_protectAll (pool : PagePool) (protection : Protection) (k : Nat) (page : Page) :
    (pool.protectAll protection).room k (page.protect protection) = pool.room k page := by
  unfold room protectAll
  rw [Array.size_map]
  rfl

theorem taken_protectAll (protection : Protection) {address : UInt64}
    (taken : pool.Taken address len) : (pool.protectAll protection).Taken address len := by
  obtain ⟨k, page, offset, at_, here, high⟩ := taken
  refine ⟨k, page.protect protection, offset, ?_, here, ?_⟩
  · rw [getElem?_protectAll, at_]
    rfl
  · rw [room_protectAll]
    exact high

/-- Changing what pages may be used for changes none of their bytes. -/
theorem keeps_protectAll (pool : PagePool) (protection : Protection) :
    pool.Keeps (pool.protectAll protection) := by
  rintro b bytes ⟨⟨k, page, at_, read⟩, taken⟩
  refine ⟨⟨k, page.protect protection, ?_, read⟩, taken_protectAll protection taken⟩
  rw [getElem?_protectAll, at_]
  rfl

theorem sound_protectAll (protection : Protection) (sound : pool.Sound) :
    (pool.protectAll protection).Sound := by
  intro k page at_
  rw [getElem?_protectAll] at at_
  obtain ⟨before, here, rfl⟩ := Option.map_eq_some_iff.mp at_
  rw [room_protectAll]
  exact sound k before here

theorem makeExecutable_eq (store : CodeStore) :
    makeExecutable store = if store.executable then .error .sealed store else
      .ok () { store with
        code := store.code.protectAll .readExecute
        constants := store.constants.protectAll .readOnly
        executable := true } := by
  unfold makeExecutable
  by_cases sealed : store.executable = true
  · have refused := requireOpen_eq store
    rw [if_pos sealed] at refused ⊢
    exact bind_of_error refused
  · have opened := requireOpen_eq store
    rw [if_neg sealed] at opened ⊢
    exact bind_of_ok opened

theorem evolves_makeExecutable (store : CodeStore) :
    Evolves store (leaves (makeExecutable store)) := by
  rw [makeExecutable_eq]
  split
  · exact .refl store
  · refine ⟨grows_protectAll _ _, grows_protectAll _ _, fun _ sound => ⟨⟨?_, ?_, ?_⟩, ?_⟩⟩
    · exact sound_protectAll _ sound.code
    · exact sound_protectAll _ sound.constants
    · exact fun value address known =>
        keeps_protectAll _ _ _ _ (sound.known value address known)
    · exact keeps_protectAll _ _

end Closing

/-! ## A closed store -/

section Closed

variable {store : CodeStore}
variable {address : UInt64}

theorem length_pos (op : Target.Op) : 0 < op.length := by
  cases op <;> exact Nat.succ_pos _

/-- The page with bytes at an address is the one that is found there. -/
theorem page?_of_holds {pool : PagePool} (apart : pool.Apart) (some_ : 0 < bytes.length)
    (holds : pool.Holds address bytes) :
    ∃ page offset, pool.page? address = some page ∧
      address.toNat = page.region.base.toNat + offset ∧
      offset + bytes.length ≤ page.region.size ∧
      page.region.bytesAt offset bytes.length = bytes := by
  obtain ⟨k, page, at_, read⟩ := holds
  obtain ⟨low, high⟩ := PagePool.inside_of_read? read
  obtain ⟨offset, place, same⟩ := Option.map_eq_some_iff.mp read
  obtain ⟨here, bound⟩ := Region.offset?_eq_some_iff.mp place
  have inside : page.contains address = true := PagePool.contains_iff.mpr ⟨low, by omega⟩
  exact ⟨page, offset, apart.page? at_ inside, here, bound, same⟩

/-- An instruction is fetched from where it was put, with the bytes behind it. -/
theorem fetch_of_holds (closed : store.executable = true) (apart : store.code.Apart)
    {op : Target.Op} (holds : store.code.Holds address op.encode) :
    ∃ rest, store.fetch address Target.Op.maxLength = .ok (op.encode ++ rest) := by
  have positive : 0 < op.encode.length := by
    rw [Target.Op.length_encode]
    exact length_pos op
  have short : op.encode.length ≤ Target.Op.maxLength := by
    rw [Target.Op.length_encode]
    exact op.length_le_maxLength
  obtain ⟨page, offset, found, here, bound, same⟩ := page?_of_holds apart positive holds
  have tail : page.tail? address Target.Op.maxLength
      = some (page.region.bytesAt offset (min (page.size - offset) Target.Op.maxLength)) := by
    unfold Page.tail? Page.tailLength?
    rw [Region.offset?_of_inside here (by omega), Option.map_some, Option.bind_some]
    refine Region.read?_of_offset? (Region.offset?_of_inside here ?_)
    unfold Page.size
    omega
  have split : min (page.size - offset) Target.Op.maxLength = op.encode.length
      + (min (page.size - offset) Target.Op.maxLength - op.encode.length) := by
    unfold Page.size
    omega
  rw [split, Region.bytesAt_append, same] at tail
  have page_ : store.codePage address = .ok page := by
    rw [codePage, closed, if_pos rfl, found]
  refine ⟨page.region.bytesAt (offset + op.encode.length)
    (min (page.size - offset) Target.Op.maxLength - op.encode.length), ?_⟩
  rw [fetch, page_]
  dsimp only [bind, Except.bind]
  rw [tail]

theorem readConstant_of_constant (apart : store.constants.Apart)
    (there : store.Constant value address) : store.readConstant address = .ok value := by
  have size : (encodeLE constantSize value.bits.toUInt64).length = 4 := by simp [constantSize]
  obtain ⟨page, offset, found, here, bound, same⟩ :=
    page?_of_holds apart (by rw [size]; decide) there.holds
  rw [size] at bound same
  have word : page.region.read32? address = some value.bits := by
    rw [Region.read32?, Region.readWord?_of_offset? (Region.offset?_of_inside here bound),
      Region.wordAt, same, Option.map_some]
    rw [constantSize, toUInt32_decodeLE_encodeLE]
  rw [readConstant, found, Option.bind_some, word]

end Closed

end CodeStore

end ManagedCode.Memory
