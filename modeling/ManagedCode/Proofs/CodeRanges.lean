import ManagedCode.Proofs.Grants
import ManagedCode.Proofs.Relinking

/-!
# Ranges of code

Code is cut from the pages of a store range by range. Each range starts at an aligned address and lies
in one page, and no two of them meet. So the functions that are compiled into a store have code of
their own, and an address belongs to at most one of them.

* `PagePool.Aligned`: pages that start at multiples of the page size. `aligned_allocate`: so do the
  ranges, at multiples of the alignment.
* `CodeStore.Reserves`: ranges that were handed out stay so. `CodeStore.respects_reserves`: whatever is
  done with a store.
* `Task`, `Image.afterAll`: what can be done with an image and its store.
* `Image.Spread`: the compiled functions have ranges of their own. `Image.Spread.run`: one task.
* `code_ranges_disjoint`: all requests to a store and all tasks on an image.
-/

variable {address : UInt64}

variable {α : Type}

namespace ManagedCode.Memory

open Memory.PagePool (allocate_spec)

/-! ## Aligned pages -/

namespace PagePool

variable {pool pool' : PagePool}

/-- Every page starts at a multiple of the page size, and so will the next ones. -/
structure Aligned (pool : PagePool) : Prop where
  origin : pageSize ∣ pool.origin.toNat
  stride : pageSize ∣ pool.stride.toNat
  pages : ∀ (k : Nat) (page : Page), pool.pages[k]? = some page → pageSize ∣ page.base.toNat

theorem Fresh.aligned (fresh : pool.Fresh) : pool.Aligned :=
  ⟨fresh.origin, fresh.stride, fun k _ at_ => by cases (fresh.absent k).symm.trans at_⟩

variable {n : Nat} {b : UInt64}

theorem dvd_toNat_add {a : UInt64} (word : n ∣ 2 ^ 64) (first : n ∣ a.toNat)
  (second : n ∣ b.toNat) :
    n ∣ (a + b).toNat := by
  rw [UInt64.toNat_add]
  exact (Nat.dvd_mod_iff word).mpr (Nat.dvd_add first second)

theorem dvd_toNat_mul (a : UInt64) (word : n ∣ 2 ^ 64) (second : n ∣ b.toNat) :
    n ∣ (a * b).toNat := by
  rw [UInt64.toNat_mul]
  exact (Nat.dvd_mod_iff word).mpr (Nat.dvd_mul_left_of_dvd second _)

theorem Aligned.nextBase (aligned : pool.Aligned) : pageSize ∣ pool.nextBase.toNat :=
  dvd_toNat_add (by decide) aligned.origin (dvd_toNat_mul _ (by decide) aligned.stride)

theorem Aligned.allocate (aligned : pool.Aligned) (size alignment : Nat) :
    (leaves (allocate size alignment pool)).Aligned := by
  obtain ⟨origin, stride, _, pages⟩ := allocate_places pool size alignment
  refine ⟨origin ▸ aligned.origin, stride ▸ aligned.stride, fun k page at_ => ?_⟩
  rcases pages k page at_ with old | ⟨base, _⟩
  · exact aligned.pages k page old
  · exact base ▸ aligned.nextBase

/-- Two pools with the same pages, perhaps with other bytes, and the same place for the next one. -/
structure SamePlaces (pool pool' : PagePool) : Prop where
  origin : pool'.origin = pool.origin
  stride : pool'.stride = pool.stride
  smallest : pool'.minPageSize = pool.minPageSize
  pages : Grows pool' pool

theorem samePlaces_write {data : List UInt8} (run : write address data pool = .ok () pool') :
    SamePlaces pool pool' := by
  have written := write_spec run
  unfold write at run
  split at run
  · cases run
  · split at run
    · cases run
      exact ⟨rfl, rfl, rfl, written.grown⟩
    · cases run

theorem samePlaces_protectAll (pool : PagePool) (protection : Protection) :
    SamePlaces pool (pool.protectAll protection) := by
  refine ⟨rfl, rfl, rfl, fun k page at_ => ?_⟩
  rw [CodeStore.getElem?_protectAll] at at_
  obtain ⟨before, here, rfl⟩ := Option.map_eq_some_iff.mp at_
  exact ⟨before, here, rfl, rfl⟩

theorem Aligned.of_same (same : SamePlaces pool pool') (aligned : pool.Aligned) : pool'.Aligned := by
  refine ⟨same.origin ▸ aligned.origin, same.stride ▸ aligned.stride, fun k page at_ => ?_⟩
  obtain ⟨before, here, base, _⟩ := same.pages k page at_
  rw [← base]
  exact aligned.pages k before here

/-- A range of code starts at a multiple of the alignment. -/
theorem Aligned.of_allocate (aligned : pool.Aligned) {size alignment : Nat}
    (divides : alignment ∣ pageSize)
    (run : PagePool.allocate size alignment pool = .ok address pool') :
    alignment ∣ address.toNat := by
  have word : alignment ∣ 2 ^ 64 := Nat.dvd_trans divides (by decide)
  unfold PagePool.allocate at run
  dsimp only at run
  split at run
  · rename_i page fitting
    obtain ⟨last, _⟩ := Option.filter_eq_some_iff.mp fitting
    rw [Array.back?_eq_getElem?] at last
    cases run
    refine dvd_toNat_add word (Nat.dvd_trans divides (aligned.pages _ page last)) ?_
    rw [UInt64.toNat_ofNat']
    exact (Nat.dvd_mod_iff word).mpr (Nat.dvd_mul_left _ _)
  · split at run
    · rename_i page made
      cases run
      rw [(size_of_commit made).1]
      exact Nat.dvd_trans divides aligned.nextBase
    · cases run

theorem Taken.inside (sound : pool.Sound) {len : Nat} (taken : pool.Taken address len) :
    ∃ page ∈ pool.pages, page.base.toNat ≤ address.toNat ∧
      address.toNat + len ≤ page.base.toNat + page.size := by
  obtain ⟨k, page, offset, at_, here, high⟩ := taken
  have bound := sound k page at_
  exact ⟨page, Array.mem_of_getElem? at_, by omega, by omega⟩

end PagePool

/-! ## Ranges that stay -/

namespace CodeStore

variable {store store' store'' : CodeStore}

/-- Ranges of code that were handed out stay so, and pages of code stay where they are. -/
structure Reserves (store store' : CodeStore) : Prop where
  grows : store.code.Grows store'.code
  aligned : store.code.Aligned → store'.code.Aligned
  smallest : store'.code.minPageSize = store.code.minPageSize
  taken : store'.code.Apart → store.code.Sound → store'.code.Sound ∧
    ∀ b len, store.code.Taken b len → store'.code.Taken b len

theorem Reserves.refl (store : CodeStore) : Reserves store store :=
  ⟨.refl _, id, rfl, fun _ sound => ⟨sound, fun _ _ taken => taken⟩⟩

theorem Reserves.trans (first : Reserves store store') (second : Reserves store' store'') :
    Reserves store store'' := by
  refine ⟨first.grows.trans second.grows, second.aligned ∘ first.aligned,
    second.smallest.trans first.smallest, fun apart sound => ?_⟩
  obtain ⟨sound', kept⟩ := first.taken (apart.of_grows second.grows) sound
  obtain ⟨sound'', kept'⟩ := second.taken apart sound'
  exact ⟨sound'', fun b len taken => kept' b len (kept b len taken)⟩

/-- An action on the code that keeps its ranges does so for the store. -/
theorem reserves_openCode {act : EStateM MemoryError PagePool α} (store : CodeStore)
    (reserves : Reserves store { store with code := leaves (act store.code) }) :
    Reserves store (leaves ((requireOpen >>= fun _ => onCode act) store)) := by
  rcases leaves_openCode act store with same | changed
  · rw [same]
    exact .refl store
  · rw [changed]
    exact reserves

theorem reserves_allocateCode (store : CodeStore) (size : Nat) :
    Reserves store (leaves (allocateCode size store)) := by
  refine reserves_openCode store ⟨PagePool.grows_allocate _ _ _, fun aligned => aligned.allocate _ _,
    (PagePool.allocate_places _ _ _).2.2.1, fun apart sound => ?_⟩
  have apart : (leaves (PagePool.allocate size codeAlignment store.code)).Apart := apart
  show (leaves (PagePool.allocate size codeAlignment store.code)).Sound ∧ ∀ b len, _ →
    (leaves (PagePool.allocate size codeAlignment store.code)).Taken b len
  cases run : PagePool.allocate size codeAlignment store.code with
  | ok address pool =>
    rw [run] at apart
    have done := allocate_spec (by decide) sound run apart
    exact ⟨done.sound, fun _ _ => done.kept⟩
  | error e pool =>
    cases PagePool.allocate_error run
    exact ⟨sound, fun _ _ taken => taken⟩

theorem reserves_writeCode (store : CodeStore) (address : UInt64) (data : List UInt8) :
    Reserves store (leaves (writeCode address data store)) := by
  refine reserves_openCode store ?_
  cases run : PagePool.write address data store.code with
  | ok _ pool =>
    have written := PagePool.write_spec run
    have same := PagePool.samePlaces_write run
    exact ⟨written.grows, fun aligned => aligned.of_same same, same.smallest,
      fun _ sound => ⟨written.sound sound, fun _ _ => written.taken⟩⟩
  | error e pool =>
    cases PagePool.write_error run
    exact .refl store

theorem reserves_makeExecutable (store : CodeStore) :
    Reserves store (leaves (makeExecutable store)) := by
  rw [makeExecutable_eq]
  split
  · exact .refl store
  · exact ⟨grows_protectAll _ _, fun aligned => aligned.of_same
      (PagePool.samePlaces_protectAll _ _), rfl,
      fun _ sound => ⟨sound_protectAll _ sound, fun _ _ => taken_protectAll _⟩⟩

/-- Whatever is done with a store, its ranges of code stay. -/
theorem respects_reserves : Respects Reserves := by
  refine ⟨⟨.refl, .trans, fun store value => ?_⟩, reserves_allocateCode, reserves_writeCode⟩
  have code : (leaves (constant value store)).code = store.code :=
    respects_code.constant store value
  refine ⟨code ▸ .refl _, code ▸ id, code ▸ rfl, fun _ sound => ?_⟩
  rw [code]
  exact ⟨sound, fun _ _ taken => taken⟩

section Requests

variable {requests : List Request} {i j m n : Nat} {a b : UInt64}

section Fresh

variable (fresh : store.Fresh)

include fresh

theorem Fresh.aligned_after (requests : List Request) : (store.after requests).code.Aligned :=
  (respects_reserves.after reserves_makeExecutable requests store).aligned fresh.code.aligned

section

variable (apart : (store.after requests).Apart) (grants : store.Grants requests i (.allocate n) a)

include apart grants

theorem Grants.allocated :
    PagePool.Allocated (store.after (requests.take i)).code a n
      (store.after (requests.take (i + 1))).code := by
  obtain ⟨code, run, left⟩ := allocateCode_eq_ok grants.allocate
  have sound := (fresh.sound_after (apart_take apart i)).code
  have after : (store.after (requests.take (i + 1))).code = code := by rw [left]
  rw [after]
  exact allocate_spec (by decide) sound run (after ▸ (apart_take apart (i + 1)).code)

theorem Grants.taken (later : i < j) : (store.after (requests.take j)).code.Taken a n := by
  have done := grants.allocated fresh apart
  have reserves := respects_reserves.between reserves_makeExecutable store requests later
  exact (reserves.taken (apart_take apart j).code done.sound).2 a n done.taken

end

section

variable (apart : (store.after requests).Apart) (first : store.Grants requests i (.allocate m) a)
  (second : store.Grants requests j (.allocate n) b)

include apart first second

theorem Grants.clear_of_lt (before : i < j) : PagePool.Clear a m b n :=
  (second.allocated fresh apart).fresh (first.taken fresh apart before)

theorem Grants.clear (ne : i ≠ j) : PagePool.Clear a m b n := by
  rcases Nat.lt_or_gt_of_ne ne with before | after
  · exact first.clear_of_lt fresh apart second before
  · exact Or.symm (second.clear_of_lt fresh apart first after)

end

theorem Grants.aligned (grants : store.Grants requests i (.allocate n) a) :
    codeAlignment ∣ a.toNat := by
  obtain ⟨code, run, _⟩ := allocateCode_eq_ok grants.allocate
  exact (fresh.aligned_after _).of_allocate (by decide) run

theorem Grants.inside (apart : (store.after requests).Apart)
    (grants : store.Grants requests i (.allocate n) a) :
    ∃ page ∈ (store.after requests).code.pages, page.base.toNat ≤ a.toNat ∧
      a.toNat + n ≤ page.base.toNat + page.size := by
  have taken := grants.taken fresh apart grants.lt
  rw [List.take_length] at taken
  exact taken.inside (fresh.sound_after apart).code

/-- Until a store is asked to be closed, room is granted if a page can be had for it. -/
theorem Fresh.grants (here : requests[i]? = some (.allocate n)) (opened : .close ∉ requests.take i)
    (small : roundToPages (max n store.code.minPageSize) < addressSpace) :
    ∃ a, store.Grants requests i (.allocate n) a := by
  have filling := fresh.filling_after opened
  have smallest :=
    (respects_reserves.after reserves_makeExecutable (requests.take i) store).smallest
  rw [← smallest] at small
  obtain ⟨a, code, run⟩ := PagePool.allocate_ok_of_lt _ codeAlignment small
  have done : allocateCode n (store.after (requests.take i))
      = .ok a { store.after (requests.take i) with code } :=
    (bind_of_ok (requireOpen_open filling.executable)).trans (onCode_eq_ok_iff.mpr ⟨code, run, rfl⟩)
  exact ⟨a, here, _, map_eq_ok_iff.mpr ⟨a, done, rfl⟩⟩

end Fresh

end Requests

end CodeStore

end ManagedCode.Memory

namespace ManagedCode.Compile

open Bytecode TypeSystem
open Memory (CodeStore PagePool roundToPages addressSpace codeAlignment)
open Memory.CodeStore (Respects Reserves empty fresh_empty respects_evolves)

/-! ## Compiled functions -/

/-- What can be done with an image. The tables may be other ones each time, and the store can be used
beside the image. -/
inductive Task where
  | compile (types : TypeTable) (functions : FunctionTable) (id : FunctionId)
  | link (functions : FunctionTable)
  | finish
  | store (request : CodeStore.Request)

def Task.run (image : Image) : Task → Image
  | compile types functions id => leaves (Image.compile types functions id image)
  | link functions => leaves (Image.link functions image)
  | finish => leaves (Image.finish image)
  | store request => { image with store := leaves (request.perform image.store) }

def Image.afterAll (image : Image) (tasks : List Task) : Image :=
  tasks.foldl Task.run image

/-- The compiled functions have ranges of the store of their own. -/
structure Image.Spread (image : Image) : Prop where
  sound : image.store.Sound
  taken : ∀ c ∈ image.cache.entries, image.store.code.Taken c.entry c.size
  disjoint : image.cache.entries.Pairwise fun c d => PagePool.Clear c.entry c.size d.entry d.size

section Tasks

variable {image image' : Image} {tasks : List Task}

/-- What every action on a store respects holds for every task. -/
theorem Task.respects {R : CodeStore → CodeStore → Prop} (respects : Respects R)
    (closing : ∀ store, R store (leaves store.makeExecutable)) (task : Task) (image : Image) :
    R image.store (task.run image).store := by
  cases task with
  | compile types functions id =>
    show R image.store (leaves (Image.compile types functions id image)).store
    rw [store_imageCompile]
    exact respects_compile respects types functions id image.store
  | link functions =>
    exact (leaves_linkAll respects functions image.cache.pending 0 (image.withPending [])).1
  | finish =>
    show R image.store (leaves (Image.finish image)).store
    rcases leaves_finish image with same | ⟨finished, left⟩
    · rw [same]
      exact respects.refl _
    · rw [left]
      exact closing _
  | store request => exact respects.perform closing request _

/-- A task that keeps the compiled functions keeps their ranges. -/
theorem Image.Spread.of_entries (spread : image.Spread) (evolves : image.store.Evolves image'.store)
    (reserves : Reserves image.store image'.store) (apart : image'.store.Apart)
    (entries : image'.cache.entries = image.cache.entries) : image'.Spread := by
  refine ⟨(evolves.sound apart spread.sound).1, ?_, entries ▸ spread.disjoint⟩
  rw [entries]
  exact fun c mem => (reserves.taken apart.code spread.sound.code).2 _ _ (spread.taken c mem)

/-- Compiling a function puts it into a range of its own. -/
theorem Image.Spread.compile {types : TypeTable} {functions : FunctionTable} {id : FunctionId}
    {entry : UInt64} (spread : image.Spread)
    (run : Image.compile types functions id image = .ok entry image')
    (apart : image'.store.Apart) : image'.Spread := by
  obtain ⟨c, calls, store, compiling, rfl⟩ := imageCompile_eq_ok run
  obtain ⟨f, _, _, _, body⟩ := compile_eq_ok compiling
  obtain ⟨groups, laid, emitted, _, _, fresh⟩ := compileBody_spec body apart spread.sound
  have evolves := evolves_compile types functions id image.store
  rw [compiling] at evolves
  have kept : ∀ d ∈ image.cache.entries.filter (·.function != c.function),
      d ∈ image.cache.entries := fun d mem => (List.mem_filter.mp mem).1
  refine ⟨(evolves.sound apart spread.sound).1, fun d mem => ?_, ?_⟩
  · rcases List.mem_append.mp mem with old | new
    · exact (fresh _ _ (spread.taken d (kept d old))).1
    · rw [List.mem_singleton.mp new]
      exact emitted.taken
  · refine List.pairwise_append.mpr ⟨spread.disjoint.filter _, List.pairwise_singleton _ _, ?_⟩
    intro d old d' new
    rw [List.mem_singleton.mp new]
    exact (fresh _ _ (spread.taken d (kept d old))).2

theorem Image.Spread.run (spread : image.Spread) (task : Task)
    (apart : (task.run image).store.Apart) : (task.run image).Spread := by
  have evolves := task.respects respects_evolves CodeStore.evolves_makeExecutable image
  have reserves := task.respects CodeStore.respects_reserves CodeStore.reserves_makeExecutable image
  cases task with
  | compile types functions id =>
    cases run : Image.compile types functions id image with
    | ok entry image' =>
      have left : Task.run image (.compile types functions id) = image' := congrArg leaves run
      exact left ▸ spread.compile run (left ▸ apart)
    | error e image' =>
      have left : Task.run image (.compile types functions id) = image' := congrArg leaves run
      obtain ⟨store, _, same⟩ := imageCompile_eq_error run
      refine spread.of_entries evolves reserves apart ?_
      rw [left, same]
  | link functions =>
    exact spread.of_entries evolves reserves apart (leaves_linkAll respects_evolves
      functions image.cache.pending 0 (image.withPending [])).2.1
  | finish =>
    refine spread.of_entries evolves reserves apart ?_
    show (leaves (Image.finish image)).cache.entries = _
    rcases leaves_finish image with same | ⟨finished, left⟩
    · rw [same]
    · rw [left]
  | store request => exact spread.of_entries evolves reserves apart rfl

theorem evolves_afterAll (image : Image) (tasks : List Task) :
    image.store.Evolves (image.afterAll tasks).store := by
  induction tasks generalizing image with
  | nil => exact .refl _
  | cons task rest ih =>
    exact (task.respects respects_evolves CodeStore.evolves_makeExecutable
      image).trans (ih _)

/-- Compiled functions have ranges of their own, whatever has been done. -/
theorem Image.Spread.afterAll (spread : image.Spread) (tasks : List Task)
    (apart : (image.afterAll tasks).store.Apart) : (image.afterAll tasks).Spread := by
  induction tasks generalizing image with
  | nil => exact spread
  | cons task rest ih =>
    exact ih (spread.run task ((evolves_afterAll _ rest).apart apart)) apart

/-- An address in the code of two functions with ranges that do not meet. -/
theorem Image.Spread.not_both (spread : image.Spread) (apart : image.store.Apart)
    {c d : CompiledFunction} (memC : c ∈ image.cache.entries) (memD : d ∈ image.cache.entries)
    (clear : PagePool.Clear c.entry c.size d.entry d.size) (inC : c.contains address = true) :
    d.contains address = false := by
  have belowC := (spread.taken c memC).below apart.code spread.sound.code
  have belowD := (spread.taken d memD).below apart.code spread.sound.code
  rw [Bool.eq_false_iff]
  intro inD
  simp only [CompiledFunction.contains, Bool.and_eq_true, decide_eq_true_eq, UInt64.le_iff_toNat_le,
    UInt64.lt_iff_toNat_lt, UInt64.toNat_add, UInt64.toNat_ofNat'] at inC inD
  unfold PagePool.Clear at clear
  omega

/-- At most one compiled function has an address in its code. -/
theorem Image.Spread.candidates (spread : image.Spread) (apart : image.store.Apart)
    (address : UInt64) : (image.cache.entries.filter (·.contains address)).length ≤ 1 := by
  have apart' : (image.cache.entries.filter (·.contains address)).Pairwise fun _ _ => False := by
    rw [List.pairwise_filter]
    refine spread.disjoint.imp_of_mem fun memC memD clear inC inD => ?_
    rw [spread.not_both apart memC memD clear inC] at inD
    cases inD
  cases both : image.cache.entries.filter (·.contains address) with
  | nil => exact Nat.zero_le _
  | cons c rest =>
    cases rest with
    | nil => exact Nat.le_refl _
    | cons d rest =>
      rw [both] at apart'
      exact ((List.pairwise_cons.mp apart').1 d List.mem_cons_self).elim

end Tasks

/-- Where at most one element is looked for, the order of a list does not matter. -/
theorem find?_eq_of_perm {p : α → Bool} {l l' : List α} (perm : l.Perm l')
    (one : (l'.filter p).length ≤ 1) : l.find? p = l'.find? p := by
  have filtered := perm.filter p
  rw [← List.head?_filter, ← List.head?_filter]
  cases found : l'.filter p with
  | nil =>
    rw [found] at filtered
    rw [filtered.eq_nil]
  | cons a rest =>
    rw [found] at filtered one
    have alone : rest = [] := List.length_eq_zero_iff.mp (Nat.le_zero.mp (Nat.le_of_succ_le_succ one))
    rw [alone] at filtered ⊢
    rw [filtered.eq_singleton]

/-- **Ranges of code do not meet.** Whatever is asked of a store whose pages do not meet, and in
whatever order: a range of code that is handed out starts at a multiple of 16 and lies in one page, no
two ranges meet, and a range is handed out whenever a page can be had for it. So, whatever is done with
an image over such a store, the code of no two of its functions meets, and an address belongs to at most
one of them, which is found in whatever order they are looked through. -/
theorem code_ranges_disjoint {store : CodeStore} (fresh : store.Fresh) :
    (∀ requests, (store.after requests).Apart →
      (∀ i n a, store.Grants requests i (.allocate n) a →
        16 ∣ a.toNat ∧ ∃ page ∈ (store.after requests).code.pages,
          page.base.toNat ≤ a.toNat ∧ a.toNat + n ≤ page.base.toNat + page.size) ∧
      (∀ i j m n a b, i ≠ j → store.Grants requests i (.allocate m) a →
        store.Grants requests j (.allocate n) b → PagePool.Clear a m b n) ∧
      ∀ i n, requests[i]? = some (.allocate n) → .close ∉ requests.take i →
        roundToPages (max n store.code.minPageSize) < addressSpace →
        ∃ a, store.Grants requests i (.allocate n) a) ∧
    ∀ tasks, let image := Image.afterAll ⟨store, .empty, false⟩ tasks
      image.store.Apart →
      (image.cache.entries.Pairwise fun c d => PagePool.Clear c.entry c.size d.entry d.size) ∧
      ∀ address, (image.cache.entries.filter (·.contains address)).length ≤ 1 ∧
        ∀ order : List CompiledFunction, order.Perm image.cache.entries →
          order.find? (·.contains address) = image.cache.find? address := by
  refine ⟨fun requests apart => ⟨fun i n a grants => ?_, fun i j m n a b ne first second => ?_, ?_⟩,
    fun tasks => ?_⟩
  · exact ⟨grants.aligned fresh, grants.inside fresh apart⟩
  · exact first.clear fresh apart second ne
  · exact fun i n here opened small => fresh.grants here opened small
  · intro image apart
    have start : Image.Spread ⟨store, .empty, false⟩ :=
      ⟨fresh.sound, fun _ mem => (List.not_mem_nil mem).elim, List.Pairwise.nil⟩
    have spread : image.Spread := start.afterAll tasks apart
    refine ⟨spread.disjoint, fun address => ⟨spread.candidates apart address, fun order perm => ?_⟩⟩
    exact find?_eq_of_perm perm (spread.candidates apart address)

namespace Chain

/-- Ranges that fill a page to its end, start the next one and need a page of their own. -/
def ranges : List CodeStore.Request :=
  [.allocate 10, .allocate 4080, .allocate 8, .write 0x100000010 [1, 2, 3], .allocate 5000, .close]

/-- The functions are compiled and linked while room is taken beside them, one of them twice. -/
def tasks : List Task :=
  [.compile .primitives functions first, .store (.allocate 7), .compile .primitives functions second,
    .link functions, .compile .primitives functions third, .compile .primitives functions second,
    .link functions, .finish]

end Chain

theorem code_ranges_disjoint_chain :
    (empty 64).Fresh ∧ ((empty 64).after Chain.ranges).Apart ∧
      (∃ a b c, (empty 64).Grants Chain.ranges 0 (.allocate 10) a ∧
        (empty 64).Grants Chain.ranges 1 (.allocate 4080) b ∧
        (empty 64).Grants Chain.ranges 4 (.allocate 5000) c ∧
        16 ∣ b.toNat ∧ PagePool.Clear a 10 b 4080 ∧ PagePool.Clear b 4080 c 5000) ∧
      (Image.afterAll ⟨.empty 64, .empty, false⟩ Chain.tasks).store.Apart ∧
      (Image.afterAll ⟨.empty 64, .empty, false⟩ Chain.tasks).cache.entries.length = 3 ∧
      ∀ order : List CompiledFunction,
        order.Perm (Image.afterAll ⟨.empty 64, .empty, false⟩ Chain.tasks).cache.entries →
        order.find? (·.contains 0x100000005)
          = (Image.afterAll ⟨.empty 64, .empty, false⟩ Chain.tasks).cache.find? 0x100000005 := by
  obtain ⟨ranges, functions⟩ := code_ranges_disjoint (fresh_empty 64)
  have apart : ((empty 64).after Chain.ranges).Apart := by decide +kernel
  have apart' : (Image.afterAll ⟨.empty 64, .empty, false⟩ Chain.tasks).store.Apart := by
    decide +kernel
  obtain ⟨within, disjoint, granted⟩ := ranges Chain.ranges apart
  obtain ⟨a, first⟩ := granted 0 10 rfl (by simp) (by decide)
  obtain ⟨b, second⟩ := granted 1 4080 rfl (by simp [Chain.ranges]) (by decide)
  obtain ⟨c, last⟩ := granted 4 5000 rfl (by simp [Chain.ranges]) (by decide)
  refine ⟨fresh_empty 64, apart,
    ⟨a, b, c, first, second, last, (within 1 4080 b second).1, ?_, ?_⟩, apart', by decide +kernel,
    ((functions Chain.tasks apart').2 0x100000005).2⟩
  · exact disjoint 0 1 10 4080 a b (by decide) first second
  · exact disjoint 1 4 4080 5000 b c (by decide) second last

end ManagedCode.Compile
