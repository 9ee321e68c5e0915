import ManagedCode.Proofs.CodeStore

/-!
# Open stores

Until a store is closed all its pages can be written and new ones of moderate size can be had. Then
nothing that is asked of it fails: there is room for code and for constants, and bytes go where room
was handed out.

* `PagePool.Uniform`: pools whose pages all have one access mode.
* `CodeStore.Open`: the stores that have not been closed.
* `CodeStore.respects_open`: filling a store leaves it open, whether it fails or not.
* `allocateCode_ok`, `writeCode_ok`, `constant_ok`: what an open store grants.
-/

namespace ManagedCode.Memory

open Number (Single)

/-- Pages up to this size can always be had. -/
def moderateSize : Nat := 2 ^ 31

variable {size : Nat}

variable {address : UInt64} {data : List UInt8}

namespace PagePool

variable {pool pool' : PagePool}

/-- All pages have one access mode. -/
def Uniform (pool : PagePool) (mode : Protection) : Prop :=
  ∀ ⦃k : Nat⦄ ⦃page : Page⦄, pool.pages[k]? = some page → page.protection = mode

theorem uniform_empty (origin stride : UInt64) (minPageSize : Nat) (mode : Protection) :
    (empty origin stride minPageSize).Uniform mode :=
  fun _ _ at_ => (by cases at_)

/-- New pages can be written. -/
theorem Uniform.allocate (uniform : pool.Uniform .readWrite) (size alignment : Nat) :
    (leaves (allocate size alignment pool)).Uniform .readWrite := by
  intro k page at_
  rcases (allocate_places pool size alignment).2.2.2 k page at_ with old | new
  · exact uniform old
  · exact new.2

theorem Uniform.write {mode : Protection} (uniform : pool.Uniform mode) (address : UInt64)
    (data : List UInt8) : (leaves (write address data pool)).Uniform mode := by
  unfold PagePool.write
  split
  · exact uniform
  · rename_i index found
    split
    · rename_i page wrote
      obtain ⟨bound, _⟩ := Array.findIdx?_eq_some_iff_getElem.mp found
      have at_ : pool.pages[index]? = some pool.pages[index] := Array.getElem?_eq_getElem bound
      intro k other there
      have there : (pool.pages.setIfInBounds index page)[k]? = some other := there
      rw [Array.getElem?_setIfInBounds] at there
      split at there
      · -- Writing changes the bytes of the page and leaves its protection.
        cases there
        unfold Page.write at wrote
        rw [Array.getD_eq_getD_getElem?, at_, Option.getD_some] at wrote
        split at wrote
        · cases wrote
        · split at wrote
          · cases wrote
            exact (uniform at_ :)
          · cases wrote
      · exact uniform there
    · exact uniform

theorem uniform_protectAll (pool : PagePool) (mode : Protection) :
    (pool.protectAll mode).Uniform mode := by
  intro k page at_
  rw [CodeStore.getElem?_protectAll] at at_
  obtain ⟨before, _, rfl⟩ := Option.map_eq_some_iff.mp at_
  rfl

theorem minPageSize_write (pool : PagePool) (address : UInt64) (data : List UInt8) :
    (leaves (write address data pool)).minPageSize = pool.minPageSize := by
  unfold PagePool.write
  split
  · rfl
  · split <;> rfl

/-- Every page can be written, and new ones can be had. -/
structure Writable (pool : PagePool) : Prop where
  pages : pool.Uniform .readWrite
  moderate : pool.minPageSize ≤ moderateSize

theorem writable_empty (origin stride : UInt64) {minPageSize : Nat}
    (moderate : minPageSize ≤ moderateSize) : (empty origin stride minPageSize).Writable :=
  ⟨uniform_empty _ _ _ _, moderate⟩

/-- Room can be had whenever a page for it can. -/
theorem allocate_ok_of_lt (pool : PagePool) (alignment : Nat)
    (small : roundToPages (max size pool.minPageSize) < addressSpace) :
    ∃ address pool', allocate size alignment pool = .ok address pool' := by
  unfold PagePool.allocate
  dsimp only
  split
  · exact ⟨_, _, rfl⟩
  · have made : Page.commit pool.nextBase (max size pool.minPageSize)
        = .ok ⟨Region.zeroed pool.nextBase (roundToPages (max size pool.minPageSize)),
            .readWrite⟩ := by
      unfold Page.commit Region.commit
      dsimp only
      rw [if_pos small]
      rfl
    rw [made]
    exact ⟨_, _, rfl⟩

section

variable (writable : pool.Writable)

include writable

theorem Writable.allocate_ok (moderate : size ≤ moderateSize) (alignment : Nat) :
    ∃ address pool', allocate size alignment pool = .ok address pool' := by
  refine pool.allocate_ok_of_lt alignment ?_
  have smallest := writable.moderate
  unfold moderateSize at moderate smallest
  unfold roundToPages pageSize addressSpace
  omega

theorem Writable.allocate (size alignment : Nat) :
    (leaves (allocate size alignment pool)).Writable :=
  ⟨writable.pages.allocate _ _, (allocate_places pool _ _).2.2.1.symm ▸ writable.moderate⟩

theorem Writable.write (address : UInt64) (data : List UInt8) :
    (leaves (write address data pool)).Writable :=
  ⟨writable.pages.write _ _, minPageSize_write pool _ _ ▸ writable.moderate⟩

/-- Bytes go where room was handed out. -/
theorem Writable.write_ok (apart : pool.Apart) (sound : pool.Sound) (some_ : 0 < data.length)
    (taken : pool.Taken address data.length) :
    ∃ pool', PagePool.write address data pool = .ok () pool' := by
  obtain ⟨k, page, offset, at_, here, high⟩ := taken
  have inside := sound _ _ at_
  have below := apart.below at_
  have within : page.contains address = true := contains_iff.mpr ⟨by omega, by omega⟩
  have all : page.region.contains address data.length = true := by
    rw [Region.contains_iff]
    unfold Page.base Page.size at *
    omega
  unfold PagePool.write
  rw [apart.findIdx? at_ within]
  dsimp only
  rw [Array.getD_eq_getD_getElem?, at_, Option.getD_some]
  unfold Page.write
  rw [if_neg (by rw [writable.pages at_]; simp), if_pos all]
  exact ⟨_, rfl⟩

end

end PagePool

namespace CodeStore

variable {store store' : CodeStore}

structure Open (store : CodeStore) : Prop where
  executable : store.executable = false
  code : store.code.Writable
  constants : store.constants.Writable

theorem open_empty {codePageSize : Nat} (moderate : codePageSize ≤ moderateSize) :
    (empty codePageSize).Open :=
  ⟨rfl, PagePool.writable_empty _ _ moderate, PagePool.writable_empty _ _ (by decide)⟩

theorem Open.allocateCode_ok (opened : store.Open) (moderate : size ≤ moderateSize) :
    ∃ address store', allocateCode size store = .ok address store' := by
  obtain ⟨address, code, done⟩ := opened.code.allocate_ok moderate codeAlignment
  exact ⟨address, _, (bind_of_ok (requireOpen_open opened.executable)).trans (onCode_eq_ok_iff.mpr ⟨code, done, rfl⟩)⟩

theorem Open.writeCode_ok (opened : store.Open) (apart : store.code.Apart)
    (sound : store.code.Sound) (some_ : 0 < data.length)
    (taken : store.code.Taken address data.length) :
    ∃ store', writeCode address data store = .ok () store' := by
  obtain ⟨code, done⟩ := opened.code.write_ok apart sound some_ taken
  exact ⟨_, (bind_of_ok (requireOpen_open opened.executable)).trans (onCode_eq_ok_iff.mpr ⟨code, done, rfl⟩)⟩

variable {value : Single}

/-- A store that is not closed grants every constant as long as its constant pages can be written. -/
theorem constant_ok_of_writable (opened : store.executable = false)
    (writable : store.constants.Writable) (sound : store.constants.Sound)
    (apart : (leaves (constant value store)).constants.Apart) :
    ∃ address store', constant value store = .ok address store' := by
  rcases constant_cases store value with ⟨a, _, run⟩ | ⟨refused, _⟩ |
    ⟨a, mid, e, allocated, wrote, run⟩ | ⟨a, mid, pool, _, _, run⟩
  · exact ⟨a, _, run⟩
  · obtain ⟨_, _, done⟩ :=
      writable.allocate_ok (show constantSize ≤ moderateSize by decide) constantSize
    rcases refused with closed | ⟨_, _, failed⟩
    · rw [opened] at closed
      cases closed
    · cases failed.symm.trans done
  · -- The page that holds the new room is open, and no other one meets it.
    rw [run] at apart
    have done := PagePool.allocate_spec (by decide) sound allocated apart
    have still := writable.allocate constantSize constantSize
    rw [allocated] at still
    have size : (encodeLE constantSize value.bits.toUInt64).length = constantSize := by simp
    obtain ⟨_, wrote'⟩ := PagePool.Writable.write_ok still apart done.sound
      (by rw [size]; decide) (size ▸ done.taken)
    cases wrote.symm.trans wrote'
  · exact ⟨a, _, run⟩

theorem Open.constant_ok (opened : store.Open) (sound : store.constants.Sound)
    (apart : (leaves (constant value store)).constants.Apart) :
    ∃ address store', constant value store = .ok address store' :=
  constant_ok_of_writable opened.executable opened.constants sound apart

/-- Filling a store leaves it open. -/
theorem respects_open : Respects fun store store' => store.Open → store'.Open := by
  refine ⟨⟨fun _ => id, fun first second opened => second (first opened), ?_⟩, ?_, ?_⟩
  · intro store value opened
    obtain ⟨code, executable, keeps⟩ := leaves_constant store value
    exact ⟨executable.trans opened.executable, code ▸ opened.code, keeps PagePool.Writable
      (fun _ writable => writable.allocate _ _) (fun _ _ _ writable => writable.write _ _)
      opened.constants⟩
  · intro store size opened
    have run : allocateCode size store = onCode (PagePool.allocate size codeAlignment) store :=
      bind_of_ok (requireOpen_open opened.executable)
    rw [run, leaves_onCode]
    exact ⟨opened.executable, opened.code.allocate _ _, opened.constants⟩
  · intro store address data opened
    have run : writeCode address data store = onCode (PagePool.write address data) store :=
      bind_of_ok (requireOpen_open opened.executable)
    rw [run, leaves_onCode]
    exact ⟨opened.executable, opened.code.write _ _, opened.constants⟩

end CodeStore

end ManagedCode.Memory
