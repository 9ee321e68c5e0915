import ManagedCode.Proofs.Placement

/-!
# Linked code

Functions are compiled one after the other into ranges that do not meet. Linking writes the operand
of every open call and nothing else, so that in the end every piece of every function stands in the
store with its operand filled in.

* `Made`: the code of a function in an image, with calls that wait and calls that are filled in.
* `compile_made`: compiling a function makes its code and keeps that of the others.
* `Progress`: the code of some functions in an image. It is kept by `Progress.compile`,
  `Progress.link` and `Progress.finish`.
* `InPlace`: the code of a function with every operand filled in.
* `linked_of_progress`: functions that are compiled, linked and closed can be run.
-/

namespace ManagedCode.Compile

open Bytecode TypeSystem
open Memory (CodeStore PagePool)
open Target (Op)
open Memory.PagePool (Clear Holds Written contains_iff)

variable {image : Image} {types : TypeTable} {functions : FunctionTable}

/-! ## The cache -/

namespace CodeCache

variable {cache : CodeCache} {compiled : CompiledFunction} {calls : List CallSite}

/-- Every open call is one of a compiled function. -/
def Owned (cache : CodeCache) : Prop :=
  ∀ site ∈ cache.pending, cache.contains site.caller = true

theorem get?_insert (id : FunctionId) :
    (cache.insert compiled calls).get? id
      = if compiled.function = id then some compiled else cache.get? id := by
  show (cache.entries.filter (·.function != compiled.function) ++ [compiled]).find?
    (·.function == id) = _
  rw [List.find?_append, List.find?_filter]
  split
  · rename_i same
    subst same
    rw [List.find?_eq_none.mpr (fun c _ => by simp), Option.none_or]
    simp
  · rename_i other
    have last : [compiled].find? (·.function == id) = none := by simp [other]
    rw [last, Option.or_none]
    congr 1
    funext c
    by_cases here : c.function = id
    · subst here
      simp [Ne.symm other]
    · simp [here]

theorem contains_insert (id : FunctionId) :
    (cache.insert compiled calls).contains id = true ↔
      compiled.function = id ∨ cache.contains id = true := by
  unfold contains
  rw [get?_insert]
  split
  · rename_i same
    simp [same]
  · rename_i other
    simp [other]

theorem mem_pending_insert (owned : cache.Owned) (site : CallSite) :
    site ∈ (cache.insert compiled calls).pending ↔
      (site ∈ cache.pending ∧ site.caller ≠ compiled.function) ∨ site ∈ calls := by
  show site ∈ (if cache.contains compiled.function then
    cache.pending.filter (·.caller != compiled.function) else cache.pending) ++ calls ↔ _
  rw [List.mem_append]
  split
  · rw [List.mem_filter, bne_iff_ne]
  · rename_i unknown
    -- No call of a function that was not compiled can be open.
    have other : site ∈ cache.pending → site.caller ≠ compiled.function := by
      intro mem same
      exact unknown (same ▸ owned site mem)
    exact or_congr_left ⟨fun mem => ⟨mem, other mem⟩, And.left⟩

theorem Owned.insert (owned : cache.Owned)
    (mine : ∀ site ∈ calls, site.caller = compiled.function) :
    (cache.insert compiled calls).Owned := by
  intro site mem
  rw [contains_insert]
  rcases (mem_pending_insert owned site).mp mem with ⟨old, _⟩ | new
  · exact .inr (owned site old)
  · exact .inl (mine site new).symm

end CodeCache

/-! ## Compiled functions in an image -/

def sourceOf (types : TypeTable) (functions : FunctionTable) (id : FunctionId) (f : Function) :
    Source :=
  ⟨types, functions, id, f⟩

/-- How a piece stands in the store: settled when it was written, with the operand of a call that
waits to be filled in, or with an address where calls land. -/
inductive Stands (s : Source) (c : CompiledFunction) (waiting : List CallSite)
    (lands : FunctionId → UInt64 → Prop) (p : Placed) : Op → Prop where
  | settled {piece : Piece} (settled : Settled c.offsets s.id p piece)
      (closed : ∀ callee, p.piece.fixup ≠ .call callee .absolute) :
      Stands s c waiting lands p piece.op
  | waiting {callee : FunctionId} {word : UInt64} (fixup : p.piece.fixup = .call callee .absolute)
      (mem : siteOf s c p callee ∈ waiting) : Stands s c waiting lands p (.callAbsolute word)
  | landed {callee : FunctionId} {address : UInt64}
      (fixup : p.piece.fixup = .call callee .absolute) (there : lands callee address) :
      Stands s c waiting lands p (.callAbsolute address)

/-- The code of a function in an image: it is laid out and written, and the calls of the function
that are pending are open in it. -/
structure Made (types : TypeTable) (functions : FunctionTable) (image : Image)
    (lands : FunctionId → UInt64 → Prop) (id : FunctionId) (f : Function) (c : CompiledFunction)
    (groups : List (List Piece)) : Prop where
  known : functions.get? id = some f
  native : f.isNative = false
  cached : image.cache.get? id = some c
  laid : Laid (sourceOf types functions id f) image.store c groups
  taken : image.store.code.Taken c.entry c.size
  prologue : image.store.code.Stored c.entry (sourceOf types functions id f).prologue.encode
  pieces : ∀ p ∈ placedOf (sourceOf types functions id f) groups, ∃ op,
    Stands (sourceOf types functions id f) c image.cache.pending lands p op ∧
      image.store.code.Stored (c.address p.offset) op.encode
  sites : ∀ site ∈ image.cache.pending, site.caller = id →
    OpenIn (sourceOf types functions id f) c groups site

variable {site : CallSite} {R : CodeStore → CodeStore → Prop} {f : Function} {a : UInt64}

section Stands

variable {s : Source} {store : CodeStore} {c : CompiledFunction} {groups : List (List Piece)}
  {waiting waiting' : List CallSite} {lands lands' : FunctionId → UInt64 → Prop} {p : Placed}
  {op : Op}

section

variable (laid : Laid s store c groups) (mem : p ∈ placedOf s groups)

include laid mem

theorem Laid.piece_inside : s.prologue.length ≤ p.offset ∧ p.next ≤ c.size := by
  rw [laid.size]
  exact le_of_mem_row mem

/-- The operand of an open call, and the range of the instruction that it stands in. -/
theorem operand_open {callee : FunctionId} (fixup : p.piece.fixup = .call callee .absolute) :
    p.piece.op = .callAbsolute 0 ∧ p.operand = p.offset + 1 ∧ p.next = p.offset + 9 := by
  have form := laid.wellFormed p mem
  rw [Piece.WellFormed, fixup] at form
  have form : p.piece.op = .callAbsolute 0 := form
  refine ⟨form, ?_, ?_⟩
  · rw [Placed.operand, form]
    rfl
  · rw [Placed.next, form]
    rfl

end

theorem Stands.mono (stands : Stands s c waiting lands p op)
    (more : ∀ callee, siteOf s c p callee ∈ waiting → siteOf s c p callee ∈ waiting')
    (further : ∀ callee address, lands callee address → lands' callee address) :
    Stands s c waiting' lands' p op := by
  cases stands with
  | settled settled closed => exact .settled settled closed
  | waiting fixup mem => exact .waiting fixup (more _ mem)
  | landed fixup there => exact .landed fixup (further _ _ there)

theorem Stands.length (stands : Stands s c waiting lands p op) (laid : Laid s store c groups)
    (mem : p ∈ placedOf s groups) : op.length = p.piece.op.length := by
  cases stands with
  | settled settled => exact settled.length
  | waiting fixup | landed fixup =>
    rw [(operand_open laid mem fixup).1]
    rfl

/-- Code as it is written stands with every open call waiting. -/
theorem Emitted.stands {pool : PagePool} (emitted : Emitted s c groups pool)
    (laid : Laid s store c groups) (every : ∀ site, OpenIn s c groups site → site ∈ waiting)
    (mem : p ∈ placedOf s groups) :
    ∃ op, Stands s c waiting lands p op ∧ pool.Stored (c.address p.offset) op.encode := by
  obtain ⟨piece, settled, stored⟩ := emitted.pieces p mem
  by_cases opened : ∃ callee, p.piece.fixup = .call callee .absolute
  · obtain ⟨callee, fixup⟩ := opened
    cases settled with
    | branch other | self other => rw [fixup] at other; cases other
    | kept =>
      rw [(operand_open laid mem fixup).1] at stored
      exact ⟨_, .waiting fixup (every _ ⟨p, mem, callee, fixup, rfl⟩), stored⟩
  · exact ⟨piece.op, .settled settled fun callee fixup => opened ⟨callee, fixup⟩, stored⟩

theorem OpenIn.caller (opened : OpenIn s c groups site) : site.caller = s.id := by
  obtain ⟨p, _, callee, _, rfl⟩ := opened
  rfl

theorem OpenIn.absolute (opened : OpenIn s c groups site) : site.mode = .absolute := by
  obtain ⟨p, _, callee, _, rfl⟩ := opened
  rfl

end Stands

variable {b : UInt64}

section Compile

open Memory.CodeStore (Evolves Respects)

variable {types : TypeTable} {functions : FunctionTable} {image image' : Image} {id : FunctionId}
  {lands lands' : FunctionId → UInt64 → Prop} {among : FunctionId → Prop}
variable {e : CompileError} {α : Type} {entry : UInt64}

variable {act : EStateM CompileError CodeStore α} {store' : CodeStore}

theorem onStore_eq_ok_iff {a : α} :
    Image.onStore act image = .ok a image' ↔
      ∃ store, act image.store = .ok a store ∧ image' = { image with store } := by
  unfold Image.onStore
  dsimp only
  cases act image.store with
  | ok b store =>
    constructor
    · intro same
      cases same
      exact ⟨store, rfl, rfl⟩
    · rintro ⟨_, same, rfl⟩
      cases same
      rfl
  | error e store =>
    constructor
    · intro same
      cases same
    · rintro ⟨_, same, _⟩
      cases same

theorem onStore_eq_error (run : Image.onStore act image = .error e image') :
    ∃ store, act image.store = .error e store ∧ image' = { image with store } := by
  unfold Image.onStore at run
  dsimp only at run
  cases acted : act image.store with
  | ok a store =>
    rw [acted] at run
    cases run
  | error e' store =>
    rw [acted] at run
    cases run
    exact ⟨store, rfl, rfl⟩

theorem leaves_onStore (act : EStateM CompileError CodeStore α) (image : Image) :
    leaves (Image.onStore act image) = { image with store := leaves (act image.store) } := by
  unfold Image.onStore
  dsimp only
  cases act image.store <;> rfl

/-- A function is refused at once, or its body is compiled. -/
theorem compile_cases (types : TypeTable) (functions : FunctionTable) (id : FunctionId) :
    (∃ e, ∀ store, Compile.compile types functions id store = .error e store) ∨
      ∃ f, functions.get? id = some f ∧ f.isNative = false ∧ f.isVerified = true ∧
        Compile.compile types functions id = (sourceOf types functions id f).compileBody := by
  unfold Compile.compile
  cases functions.get? id with
  | none => exact .inl ⟨_, fun _ => rfl⟩
  | some f =>
    dsimp only
    by_cases native : f.isNative = true
    · rw [if_pos native]
      exact .inl ⟨_, fun _ => rfl⟩
    · rw [if_neg native]
      by_cases verified : f.isVerified = true
      · rw [if_neg (by simp [verified])]
        exact .inr ⟨f, rfl, by simpa using native, verified, rfl⟩
      · rw [if_pos (by simp [verified])]
        exact .inl ⟨_, fun _ => rfl⟩

theorem compile_eq_ok {store : CodeStore} {result : CompiledFunction × List CallSite}
    (run : Compile.compile types functions id store = .ok result store') :
    ∃ f, functions.get? id = some f ∧ f.isNative = false ∧ f.isVerified = true ∧
      (sourceOf types functions id f).compileBody store = .ok result store' := by
  rcases compile_cases types functions id with ⟨e, refused⟩ | ⟨f, known, native, verified, body⟩
  · cases (refused store).symm.trans run
  · exact ⟨f, known, native, verified, body ▸ run⟩

theorem respects_compile (respects : Respects R) (types : TypeTable) (functions : FunctionTable)
    (id : FunctionId) (store : CodeStore) :
    R store (leaves (Compile.compile types functions id store)) := by
  rcases compile_cases types functions id with ⟨e, refused⟩ | ⟨f, _, _, _, body⟩
  · rw [refused]
    exact respects.refl store
  · rw [body]
    exact respects_compileBody respects _ _

theorem evolves_compile (types : TypeTable) (functions : FunctionTable) (id : FunctionId)
    (store : CodeStore) : Evolves store (leaves (Compile.compile types functions id store)) :=
  respects_compile CodeStore.respects_evolves types functions id store

theorem imageCompile_eq_ok (run : Image.compile types functions id image = .ok entry image') :
    ∃ c calls store, Compile.compile types functions id image.store = .ok (c, calls) store ∧
      image' = { image with store, cache := image.cache.insert c calls } := by
  obtain ⟨⟨c, calls⟩, t, first, rest⟩ := bind_eq_ok_iff.mp run
  obtain ⟨store, compiled, rfl⟩ := onStore_eq_ok_iff.mp first
  cases rest
  exact ⟨c, calls, store, compiled, rfl⟩

theorem imageCompile_eq_error (run : Image.compile types functions id image = .error e image') :
    ∃ store, Compile.compile types functions id image.store = .error e store ∧
      image' = { image with store } := by
  rcases bind_eq_error_iff.mp run with failed | ⟨_, _, _, failed⟩
  · exact onStore_eq_error failed
  · cases failed

/-- A compilation leaves the store of an image as it leaves the store alone. -/
theorem store_imageCompile (types : TypeTable) (functions : FunctionTable) (id : FunctionId)
    (image : Image) : (leaves (Image.compile types functions id image)).store
      = leaves (Compile.compile types functions id image.store) := by
  cases run : Image.compile types functions id image with
  | ok entry image' =>
    obtain ⟨c, calls, store, compiled, rfl⟩ := imageCompile_eq_ok run
    rw [compiled]
    rfl
  | error e image' =>
    obtain ⟨store, failed, rfl⟩ := imageCompile_eq_error run
    rw [failed]
    rfl

theorem spares_of_compile_error {store : CodeStore}
    (run : Compile.compile types functions id store = .error e store') (apart : store'.code.Apart)
    (sound : store.code.Sound) : store.code.Spares store'.code := by
  rcases compile_cases types functions id with ⟨e, refused⟩ | ⟨f, _, _, _, body⟩
  · cases (refused store).symm.trans run
    exact .refl _
  · rw [body] at run
    exact spares_of_compileBody_error run apart sound

/-- Code stays as it was made while nothing that was there is lost. -/
theorem Made.keeps {c : CompiledFunction} {groups : List (List Piece)}
    (made : Made types functions image lands id f c groups)
    (cached : image'.cache.get? id = image.cache.get? id)
    (pending : ∀ site : CallSite, site.caller = id → (site ∈ image'.cache.pending ↔ site ∈ image.cache.pending))
    (constants : image.store.constants.Keeps image'.store.constants)
    (code : image.store.code.Spares image'.store.code)
    (further : ∀ callee address, lands callee address → lands' callee address) :
    Made types functions image' lands' id f c groups := by
  refine ⟨made.known, made.native, cached.trans made.cached, made.laid.evolves constants,
    code.taken _ _ made.taken, code.keeps _ _ made.prologue, fun p mem => ?_, ?_⟩
  · obtain ⟨op, stands, stored⟩ := made.pieces p mem
    exact ⟨op, stands.mono (fun callee mem => (pending _ rfl).mpr mem) further,
      code.keeps _ _ stored⟩
  · exact fun site mem caller => made.sites site ((pending site caller).mp mem) caller

/-- Compiling a function makes its code in a range of its own and keeps that of the others. -/
theorem compile_made (run : Image.compile types functions id image = .ok entry image')
    (apart : image'.store.Apart) (sound : image.store.Sound) (owned : image.cache.Owned) :
    (∃ f c groups, Made types functions image' lands id f c groups ∧
        ∀ b len, image.store.code.Taken b len → Clear b len c.entry c.size) ∧
      image'.cache.Owned ∧ image'.store.Sound ∧
      ∀ {id' f c groups}, id' ≠ id → Made types functions image lands id' f c groups →
        Made types functions image' lands id' f c groups := by
  obtain ⟨c, calls, store, compiling, rfl⟩ := imageCompile_eq_ok run
  obtain ⟨f, known, native, verified, body⟩ := compile_eq_ok compiling
  obtain ⟨groups, laid, emitted, opened, keeps, fresh⟩ := compileBody_spec body apart sound
  have evolves := evolves_compile types functions id image.store
  rw [compiling] at evolves
  obtain ⟨sound', constants⟩ := evolves.sound apart sound
  have self : c.function = id := laid.function
  have mine : ∀ site ∈ calls, site.caller = c.function := by
    intro site mem
    rw [self]
    exact ((opened site).mp mem).caller
  have pending : ∀ site, site ∈ (image.cache.insert c calls).pending ↔ _ :=
    CodeCache.mem_pending_insert owned
  refine ⟨⟨f, c, groups, ⟨known, native, ?_, laid, emitted.taken, emitted.prologue, ?_, ?_⟩,
    fun b len taken => (fresh b len taken).2⟩, owned.insert mine, sound', ?_⟩
  · exact (CodeCache.get?_insert id).trans (if_pos self)
  · exact fun p mem => emitted.stands laid
      (fun site open_ => (pending site).mpr (.inr ((opened site).mpr open_))) mem
  · intro site mem caller
    rcases (pending site).mp mem with ⟨_, other⟩ | new
    · exact absurd (caller.trans self.symm) other
    · exact (opened site).mp new
  · intro id' f' c' groups' other made
    refine made.keeps ?_ (fun site caller => ?_) constants
      ⟨keeps, fun b len taken => (fresh b len taken).1⟩ fun _ _ there => there
    · exact (CodeCache.get?_insert id').trans (if_neg (by rw [self]; exact Ne.symm other))
    · rw [pending, self, caller]
      constructor
      · rintro (⟨old, _⟩ | new)
        · exact old
        · have := mine site new
          rw [caller, self] at this
          exact absurd this other
      · exact fun old => .inl ⟨old, other⟩

/-- How far the compilation of a program has come: which functions are compiled, and where their
calls land that are filled in. -/
structure Progress (types : TypeTable) (functions : FunctionTable) (image : Image)
    (among : FunctionId → Prop) (lands : FunctionId → UInt64 → Prop) : Prop where
  owned : image.cache.Owned
  sound : image.store.Sound
  made : ∀ id, among id → ∃ f c groups, Made types functions image lands id f c groups
  apart : ∀ id id', among id → among id' → id ≠ id' → ∀ c c', image.cache.get? id = some c →
    image.cache.get? id' = some c' → Clear c.entry c.size c'.entry c'.size

theorem clear_symm {m n : Nat} (clear : Clear a m b n) : Clear b n a m :=
  Or.symm clear

section

variable (progress : Progress types functions image among lands)

include progress

theorem Progress.compile (run : Image.compile types functions id image = .ok entry image')
    (apart : image'.store.Apart) :
    Progress types functions image' (fun id' => id' = id ∨ among id') lands := by
  obtain ⟨⟨f, c, groups, made, fresh⟩, owned, sound, others⟩ :=
    compile_made run apart progress.sound progress.owned
  have old : ∀ id', among id' → id' ≠ id → ∀ c', image'.cache.get? id' = some c' →
      image.cache.get? id' = some c' ∧ Clear c'.entry c'.size c.entry c.size := by
    intro id' mem other c' cached
    obtain ⟨f', c'', groups', before⟩ := progress.made id' mem
    cases (others other before).cached.symm.trans cached
    exact ⟨before.cached, fresh _ _ before.taken⟩
  refine ⟨owned, sound, ?_, ?_⟩
  · intro id' mem
    by_cases same : id' = id
    · subst same
      exact ⟨f, c, groups, made⟩
    · obtain ⟨f', c', groups', before⟩ := progress.made id' (mem.resolve_left same)
      exact ⟨f', c', groups', others same before⟩
  · intro a b memA memB ne ca cb cachedA cachedB
    by_cases sameA : a = id
    · subst sameA
      cases made.cached.symm.trans cachedA
      exact clear_symm (old b (memB.resolve_left (Ne.symm ne)) (Ne.symm ne) cb cachedB).2
    · have memA := memA.resolve_left sameA
      obtain ⟨beforeA, clearA⟩ := old a memA sameA ca cachedA
      by_cases sameB : b = id
      · subst sameB
        cases made.cached.symm.trans cachedB
        exact clearA
      · have memB := memB.resolve_left sameB
        exact progress.apart a b memA memB ne ca cb beforeA (old b memB sameB cb cachedB).1

/-- A function that cannot be compiled changes nothing about the others, nor about its own code if
it was compiled before. -/
theorem Progress.compile_error (run : Image.compile types functions id image = .error e image')
    (apart : image'.store.Apart) : Progress types functions image' among lands := by
  obtain ⟨store, failed, rfl⟩ := imageCompile_eq_error run
  have evolves := evolves_compile types functions id image.store
  rw [failed] at evolves
  obtain ⟨sound, constants⟩ := evolves.sound apart progress.sound
  refine ⟨progress.owned, sound, fun id' mem => ?_, progress.apart⟩
  obtain ⟨f, c, groups, made⟩ := progress.made id' mem
  exact ⟨f, c, groups, made.keeps rfl (fun _ _ => Iff.rfl) constants
    (spares_of_compile_error failed apart.code progress.sound.code) fun _ _ there => there⟩

/-- Less is known of fewer functions. -/
theorem Progress.restrict {among' : FunctionId → Prop} (fewer : ∀ id, among' id → among id) :
    Progress types functions image among' lands :=
  ⟨progress.owned, progress.sound, fun id mem => progress.made id (fewer id mem),
    fun id id' mem mem' => progress.apart id id' (fewer id mem) (fewer id' mem')⟩

end

end Compile

/-! ## Linking -/

def Image.withPending (image : Image) (pending : List CallSite) : Image :=
  { image with cache := { image.cache with pending } }

section Link

open Memory.CodeStore (Respects)

variable {types : TypeTable} {functions : FunctionTable} {image image' : Image}
  {among : FunctionId → Prop} {lands : FunctionId → UInt64 → Prop}
variable {call : CallSite} {pool : PagePool} {c : CompiledFunction}

variable {bytes : List UInt8}

theorem operand_absolute {cache : CodeCache} (absolute : call.mode = .absolute)
    (found : cache.operand functions call = .ok bytes) :
    ∃ target, cache.target? functions call.callee = some target ∧ bytes = encodeLE 8 target := by
  unfold CodeCache.operand at found
  split at found
  · cases found
  · rename_i target there
    rw [absolute] at found
    cases found
    exact ⟨target, there, rfl⟩

theorem patch_eq_ok (run : Image.patch functions call image = .ok () image')
    (absolute : call.mode = .absolute) :
    ∃ target code, image.cache.target? functions call.callee = some target ∧
      Written image.store.code call.patchAddress (encodeLE 8 target) code ∧
      image' = { image with store := { image.store with code } } := by
  unfold Image.patch at run
  rw [get_bind] at run
  obtain ⟨bytes, found, rest⟩ := ofExcept_bind_eq_ok_iff.mp run
  obtain ⟨target, there, rfl⟩ := operand_absolute absolute found
  obtain ⟨store, writing, rfl⟩ := onStore_eq_ok_iff.mp rest
  obtain ⟨code, wrote, rfl⟩ := CodeStore.writeCode_eq_ok (adaptExcept_eq_ok_iff.mp writing)
  exact ⟨target, code, there, PagePool.write_spec wrote, rfl⟩

theorem patch_error {e : CompileError} (run : Image.patch functions call image = .error e image') :
    image' = image := by
  unfold Image.patch at run
  rw [get_bind] at run
  rcases ofExcept_bind_eq_error_iff.mp run with ⟨_, same⟩ | ⟨bytes, _, failed⟩
  · exact same
  · obtain ⟨store, writing, rfl⟩ := onStore_eq_error failed
    obtain ⟨_, refused, _⟩ := adaptExcept_eq_error_iff.mp writing
    rw [CodeStore.writeCode_error refused]

variable {pool' : PagePool} {target : UInt64}

/-- Filling in the operand of a call. -/
theorem stored_patched (apart : pool'.Apart) {word : UInt64}
    (stored : pool.Stored a (Op.callAbsolute word).encode)
    (written : Written pool (a + 1) (encodeLE 8 target) pool') :
    pool'.Stored a (Op.callAbsolute target).encode := by
  have before := apart.of_grows written.grows
  have taken := stored.taken
  rw [Op.length_encode] at taken
  refine ⟨?_, by rw [Op.length_encode]; exact written.taken taken⟩
  -- The opcode stays, the operand is new, and both lie in the page that held the old instruction.
  obtain ⟨k, page, at_, read⟩ := stored.holds
  obtain ⟨low, high⟩ := PagePool.inside_of_read? read
  rw [Op.length_encode] at high
  have high : a.toNat + 9 ≤ page.base.toNat + page.size := high
  have below := before.below at_
  have next : (a + 1).toNat = a.toNat + 1 := by
    rw [UInt64.toNat_add]
    show (a.toNat + 1) % 2 ^ 64 = _
    omega
  obtain ⟨opcode, _⟩ := Holds.append [0x23] before stored.holds
  obtain ⟨page', at', base, size⟩ := written.grows _ _ at_
  refine Holds.join [0x23] apart at' ?_ ?_ (by simp) (by simp) ?_ written.here
  · rw [contains_iff, base, size]
    omega
  · rw [contains_iff, base, size]
    show page.base.toNat ≤ (a + 1).toNat ∧ (a + 1).toNat < page.base.toNat + page.size
    omega
  · refine written.holds opcode (.inl ?_)
    rw [next]
    exact Nat.le_refl _

theorem stored_clear (stored : pool.Stored b bytes)
    (written : Written pool a (encodeLE 8 target) pool') (clear : Clear b bytes.length a 8) :
    pool'.Stored b bytes := by
  refine ⟨written.holds stored.holds ?_, written.taken stored.taken⟩
  rwa [length_encodeLE]

theorem toNat_address (apart : pool.Apart) (sound : pool.Sound) (taken : pool.Taken c.entry c.size)
    (offset : Nat) (inside : offset ≤ c.size) :
    (c.address offset).toNat = c.entry.toNat + offset := by
  have below := taken.below apart sound
  rw [CompiledFunction.address, UInt64.toNat_add, UInt64.toNat_ofNat']
  omega

section

variable (apart : image.store.Apart) (progress : Progress types functions image among lands)

include apart progress

/-- An open call is one of the function, with its operand behind the opcode, or its operand lies
apart from the function's code. -/
theorem site_cases {id : FunctionId} {groups : List (List Piece)}
    (made : Made types functions image lands id f c groups) (mem : among id)
    (pending : site ∈ image.cache.pending) (owner : among site.caller) :
    (∃ q ∈ placedOf (sourceOf types functions id f) groups, ∃ callee,
        q.piece.fixup = .call callee .absolute ∧ q.next = q.offset + 9 ∧
        site = siteOf (sourceOf types functions id f) c q callee ∧
        site.patchAddress.toNat = c.entry.toNat + q.offset + 1) ∨
      Clear c.entry c.size site.patchAddress 8 := by
  by_cases own : site.caller = id
  · obtain ⟨q, placed, callee, fixup, rfl⟩ := made.sites site pending own
    obtain ⟨_, operand, next⟩ := operand_open made.laid placed fixup
    have inside := made.laid.piece_inside placed
    refine .inl ⟨q, placed, callee, fixup, next, rfl, ?_⟩
    have address := toNat_address apart.code progress.sound.code made.taken q.operand (by omega)
    show (c.address q.operand).toNat = _
    omega
  · obtain ⟨f', c', groups', made'⟩ := progress.made _ owner
    obtain ⟨q, placed, callee, fixup, same⟩ := made'.sites site pending rfl
    obtain ⟨_, operand, next⟩ := operand_open made'.laid placed fixup
    have inside := made'.laid.piece_inside placed
    have address := toNat_address apart.code progress.sound.code made'.taken q.operand (by omega)
    have patch : site.patchAddress = c'.address q.operand := by rw [same]; rfl
    have ranges := progress.apart id _ mem owner (Ne.symm own) c c' made.cached made'.cached
    unfold Clear at ranges ⊢
    rw [patch]
    exact .inr (by omega)

/-- A piece meets no operand but its own. -/
theorem clear_of_site {id : FunctionId} {groups : List (List Piece)}
    (made : Made types functions image lands id f c groups) (mem : among id) {p : Placed}
    (placed : p ∈ placedOf (sourceOf types functions id f) groups)
    (pending : site ∈ image.cache.pending) (owner : among site.caller) :
    (∃ callee, p.piece.fixup = .call callee .absolute ∧
        site = siteOf (sourceOf types functions id f) c p callee) ∨
      Clear (c.address p.offset) p.piece.op.length site.patchAddress 8 := by
  have inside := made.laid.piece_inside placed
  have next : p.next = p.offset + p.piece.op.length := rfl
  have address := toNat_address apart.code progress.sound.code made.taken p.offset (by omega)
  rcases site_cases apart progress made mem pending owner with
    ⟨q, placed', callee, fixup, next', same, patch⟩ | clear
  · rcases eq_or_apart_of_mem_row placed placed' with rfl | between
    · exact .inl ⟨callee, fixup, same⟩
    · exact .inr (by unfold Clear; omega)
  · exact .inr (by unfold Clear at clear ⊢; omega)

end

/-- Filling in a call changes its operand and nothing else. -/
theorem Progress.patch {rest : List CallSite}
    (progress : Progress types functions (image.withPending (call :: rest)) among lands)
    (owner : among call.caller) (run : Image.patch functions call image = .ok () image')
    (reached : ∀ callee address, image.cache.target? functions callee = some address →
      lands callee address)
    (apart : image'.store.Apart) :
    Progress types functions (image'.withPending rest) among lands := by
  obtain ⟨_, _, _, called⟩ := progress.made _ owner
  have absolute := (called.sites call List.mem_cons_self rfl).absolute
  obtain ⟨target, code, there, written, rfl⟩ := patch_eq_ok run absolute
  have before : (image.withPending (call :: rest)).store.Apart :=
    ⟨apart.code.of_grows written.grows, apart.constants⟩
  refine ⟨fun site mem => progress.owned site (List.mem_cons_of_mem _ mem),
    ⟨written.sound progress.sound.code, progress.sound.constants, progress.sound.known⟩,
    fun id mem => ?_, progress.apart⟩
  obtain ⟨f, c, groups, made⟩ := progress.made id mem
  refine ⟨f, c, groups, made.known, made.native, made.cached, made.laid.evolves (.refl _),
    written.taken made.taken, ?_, fun p placed => ?_,
    fun site mem => made.sites site (List.mem_cons_of_mem _ mem)⟩
  · refine stored_clear made.prologue written ?_
    rw [Op.length_encode]
    have size := made.laid.size
    rcases site_cases before progress made mem List.mem_cons_self owner with
      ⟨q, placed, _, _, _, _, patch⟩ | clear
    · have inside := made.laid.piece_inside placed
      exact .inl (by omega)
    · unfold Clear at clear ⊢
      omega
  · obtain ⟨op, stands, stored⟩ := made.pieces p placed
    by_cases own : ∃ callee, p.piece.fixup = .call callee .absolute ∧
        call = siteOf (sourceOf types functions id f) c p callee
    · obtain ⟨callee, fixup, rfl⟩ := own
      obtain ⟨_, operand, _⟩ := operand_open made.laid placed fixup
      have patch : (siteOf (sourceOf types functions id f) c p callee).patchAddress
          = c.address p.offset + 1 := by
        show c.address p.operand = _
        rw [operand, CompiledFunction.address, UInt64.ofNat_add, ← UInt64.add_assoc]
        rfl
      rw [patch] at written
      refine ⟨.callAbsolute target, .landed fixup (reached callee target there), ?_⟩
      cases stands with
      | settled _ closed => exact absurd fixup (closed callee)
      | waiting | landed => exact stored_patched apart.code stored written
    · have clear := (clear_of_site before progress made mem placed List.mem_cons_self
        owner).resolve_left own
      refine ⟨op, ?_, stored_clear stored written ?_⟩
      · cases stands with
        | settled settled closed => exact .settled settled closed
        | landed fixup there => exact .landed fixup there
        | waiting fixup mem =>
          refine .waiting fixup ((List.mem_cons.mp mem).resolve_left fun same => own ?_)
          exact ⟨_, fixup, same.symm⟩
      · rw [Op.length_encode, stands.length made.laid placed]
        exact clear

theorem leaves_patch (respects : Respects R) (functions : FunctionTable) (call : CallSite)
    (image : Image) :
    ∃ store, leaves (Image.patch functions call image) = { image with store } ∧
      R image.store store := by
  unfold Image.patch
  rw [get_bind]
  cases image.cache.operand functions call with
  | error e => exact ⟨image.store, rfl, respects.refl _⟩
  | ok bytes =>
    refine ⟨_, leaves_onStore _ image, ?_⟩
    rw [leaves_adaptExcept]
    exact respects.writeCode _ _ _

theorem leaves_linkAll (respects : Respects R) (functions : FunctionTable) (calls : List CallSite)
    (count : Nat) (image : Image) :
    R image.store (leaves (Image.linkAll functions calls count image)).store ∧
      (leaves (Image.linkAll functions calls count image)).cache.entries = image.cache.entries ∧
      ∀ site ∈ (leaves (Image.linkAll functions calls count image)).cache.pending,
        site ∈ image.cache.pending ∨ site ∈ calls := by
  induction calls generalizing count image with
  | nil => exact ⟨respects.refl _, rfl, fun site mem => .inl mem⟩
  | cons call rest ih =>
    obtain ⟨store, left, changed⟩ := leaves_patch respects functions call image
    unfold Image.linkAll
    cases run : Image.patch functions call image with
    | error e mid =>
      rw [run] at left
      cases left
      exact ⟨changed, rfl, fun site mem => .inr mem⟩
    | ok _ mid =>
      rw [run] at left
      cases left
      obtain ⟨later, entries, pending⟩ := ih (count + 1) { image with store }
      refine ⟨respects.trans changed later, entries, fun site mem => ?_⟩
      rcases pending site mem with old | new
      · exact .inl old
      · exact .inr (List.mem_cons_of_mem _ new)

/-- Filling in calls in order, up to the first that cannot be. -/
theorem Progress.linkAll {calls : List CallSite} {count : Nat} (empty : image.cache.pending = [])
    (progress : Progress types functions (image.withPending calls) among lands)
    (owners : ∀ site ∈ calls, among site.caller)
    (reached : ∀ callee address, image.cache.target? functions callee = some address →
      lands callee address)
    (apart : (leaves (Image.linkAll functions calls count image)).store.Apart) :
    Progress types functions (leaves (Image.linkAll functions calls count image)) among lands := by
  induction calls generalizing image count with
  | nil =>
    have same : image.withPending [] = image := by rw [Image.withPending, ← empty]
    rw [same] at progress
    exact progress
  | cons call rest ih =>
    obtain ⟨store, left, _⟩ := leaves_patch CodeStore.respects_evolves functions call image
    unfold Image.linkAll at apart ⊢
    cases run : Image.patch functions call image with
    | error e mid =>
      cases patch_error run
      exact progress
    | ok _ mid =>
      rw [run] at left apart
      cases left
      have next := (leaves_linkAll CodeStore.respects_evolves functions rest (count + 1)
        { image with store }).1
      exact ih empty (progress.patch (owners call List.mem_cons_self) run reached
        (next.apart apart)) (fun site mem => owners site (List.mem_cons_of_mem _ mem)) reached
        apart

section

variable (progress : Progress types functions image among lands)

include progress

theorem Progress.link (owners : ∀ site ∈ image.cache.pending, among site.caller)
    (reached : ∀ callee address, image.cache.target? functions callee = some address →
      lands callee address)
    (apart : (leaves (Image.link functions image)).store.Apart) :
    Progress types functions (leaves (Image.link functions image)) among lands :=
  @Progress.linkAll _ _ (image.withPending []) _ _ _ 0 rfl progress owners reached apart

theorem Progress.mono {lands' : FunctionId → UInt64 → Prop}
    (further : ∀ callee address, lands callee address → lands' callee address) :
    Progress types functions image among lands' := by
  refine ⟨progress.owned, progress.sound, fun id mem => ?_, progress.apart⟩
  obtain ⟨f, c, groups, made⟩ := progress.made id mem
  exact ⟨f, c, groups, made.keeps rfl (fun _ _ => Iff.rfl) (.refl _) (.refl _) further⟩

end

end Link

/-- The instruction that a piece becomes in the end. -/
inductive Filled (offsets : Array Nat) (self : FunctionId) (target : FunctionId → Option UInt64)
    (p : Placed) : Op → Prop where
  | settled {piece : Piece} (settled : Settled offsets self p piece)
      (closed : ∀ callee, p.piece.fixup ≠ .call callee .absolute) :
      Filled offsets self target p piece.op
  | call {callee : FunctionId} {address : UInt64} (fixup : p.piece.fixup = .call callee .absolute)
      (there : target callee = some address) :
      Filled offsets self target p (.callAbsolute address)

/-- The code of a function with every operand filled in. -/
structure InPlace (s : Source) (c : CompiledFunction) (groups : List (List Piece))
    (pool : PagePool) (target : FunctionId → Option UInt64) : Prop where
  taken : pool.Taken c.entry c.size
  prologue : pool.Stored c.entry s.prologue.encode
  pieces : ∀ p ∈ placedOf s groups, ∃ op, Filled c.offsets s.id target p op ∧
    pool.Stored (c.address p.offset) op.encode

/-- When no call waits any more, the code of a function is in place. -/
theorem Made.inPlace {id : FunctionId} {c : CompiledFunction} {groups : List (List Piece)}
    {target : FunctionId → Option UInt64} (empty : image.cache.pending = [])
    (made : Made types functions image (fun callee address => target callee = some address) id f c groups) :
    InPlace (sourceOf types functions id f) c groups image.store.code target := by
  refine ⟨made.taken, made.prologue, fun p mem => ?_⟩
  obtain ⟨op, stands, stored⟩ := made.pieces p mem
  refine ⟨op, ?_, stored⟩
  cases stands with
  | settled settled closed => exact .settled settled closed
  | waiting fixup mem =>
    rw [empty] at mem
    cases mem
  | landed fixup there => exact .call fixup there

theorem finish_eq_ok {image' : Image} (run : Image.finish image = .ok () image') :
    image.cache.pending = [] ∧ image.store.executable = false ∧
      image' = { image with
        store := { image.store with
          code := image.store.code.protectAll .readExecute
          constants := image.store.constants.protectAll .readOnly
          executable := true }
        finished := true } := by
  unfold Image.finish at run
  rw [get_bind] at run
  dsimp only at run
  split at run
  · cases run
  · rename_i none
    obtain ⟨_, mid, first, last⟩ := bind_eq_ok_iff.mp run
    obtain ⟨store, closed, rfl⟩ := onStore_eq_ok_iff.mp first
    have closed := adaptExcept_eq_ok_iff.mp closed
    rw [CodeStore.makeExecutable_eq] at closed
    split at closed
    · cases closed
    · rename_i opened
      cases closed
      cases last
      exact ⟨List.length_eq_zero_iff.mp (Nat.eq_zero_of_not_pos none), by simpa using opened, rfl⟩

/-- Closing the store changes nothing of what has been compiled. -/
theorem Progress.finish {image' : Image} {among : FunctionId → Prop}
    {lands : FunctionId → UInt64 → Prop} (progress : Progress types functions image among lands)
    (run : Image.finish image = .ok () image') : Progress types functions image' among lands := by
  obtain ⟨_, _, rfl⟩ := finish_eq_ok run
  have sound := progress.sound
  refine ⟨progress.owned, ⟨CodeStore.sound_protectAll _ sound.code,
    CodeStore.sound_protectAll _ sound.constants, fun value address at_ =>
      CodeStore.keeps_protectAll _ _ _ _ (sound.known value address at_)⟩, fun id mem => ?_,
    progress.apart⟩
  obtain ⟨f, c, groups, made⟩ := progress.made id mem
  exact ⟨f, c, groups, made.keeps rfl (fun _ _ => Iff.rfl) (CodeStore.keeps_protectAll _ _)
    ⟨CodeStore.keeps_protectAll _ _, fun _ _ => CodeStore.taken_protectAll _⟩
    fun _ _ there => there⟩

/-- The code of a program that can be run: every function with a body is laid out and in place, in
a range of its own. -/
structure Linked (types : TypeTable) (functions : FunctionTable) (image : Image) : Prop where
  executable : image.store.executable = true
  sound : image.store.Sound
  code : ∀ id f, functions.get? id = some f → f.isNative = false → f.isDefined = true →
    ∃ c groups, image.cache.get? id = some c ∧
      Laid (sourceOf types functions id f) image.store c groups ∧
      InPlace (sourceOf types functions id f) c groups image.store.code
        (image.cache.target? functions)
  apart : ∀ id id' c c', image.cache.get? id = some c → image.cache.get? id' = some c' → id ≠ id' →
    Clear c.entry c.size c'.entry c'.size
  cached : ∀ id c, image.cache.get? id = some c →
    ∃ f, functions.get? id = some f ∧ f.isNative = false ∧ f.isDefined = true

/-- Compiled functions that are linked and closed make up a program that can be run. -/
theorem linked_of_progress {linked closed : Image} {among : FunctionId → Prop} {total : Nat}
    (progress : Progress types functions image among fun _ _ => False)
    (complete : ∀ id f, functions.get? id = some f → f.isNative = false → f.isDefined = true →
      among id)
    (within : ∀ id, image.cache.contains id = true →
      ∃ f, functions.get? id = some f ∧ f.isNative = false ∧ f.isDefined = true)
    (linking : Image.link functions image = .ok total linked)
    (closing : Image.finish linked = .ok () closed) (apart : closed.store.Apart) :
    Linked types functions closed := by
  have known : ∀ id, image.cache.contains id = true → among id := by
    intro id found
    obtain ⟨f, here, native, defined⟩ := within id found
    exact complete id f here native defined
  obtain ⟨empty, _, rfl⟩ := finish_eq_ok closing
  have before : linked.store.Apart :=
    ⟨apart.code.of_grows (CodeStore.grows_protectAll _ _),
      apart.constants.of_grows (CodeStore.grows_protectAll _ _)⟩
  have run : Image.linkAll functions image.cache.pending 0 (image.withPending [])
      = .ok total linked := linking
  have entries := (leaves_linkAll CodeStore.respects_evolves functions image.cache.pending 0
    (image.withPending [])).2.1
  rw [run] at entries
  have entries : linked.cache.entries = image.cache.entries := entries
  have same : ∀ id, linked.cache.get? id = image.cache.get? id := by
    intro id
    rw [CodeCache.get?, entries]
    rfl
  have targets : linked.cache.target? functions = image.cache.target? functions := by
    funext callee
    unfold CodeCache.target? CodeCache.entryOf?
    rw [same]
  have cached : ∀ id c, linked.cache.get? id = some c → image.cache.contains id = true := by
    intro id c found
    rw [CodeCache.contains, ← same, found]
    rfl
  have waiting : Progress types functions image among
      fun callee address => linked.cache.target? functions callee = some address :=
    progress.mono fun _ _ no => no.elim
  have done := waiting.link (fun site mem => known _ (progress.owned site mem))
    (fun callee address there => by rw [targets]; exact there) (by rw [linking]; exact before)
  rw [linking] at done
  have finished := done.finish closing
  refine ⟨rfl, finished.sound, fun id f here native defined => ?_,
    fun id id' c c' found found' other => ?_, fun id c found => within id (cached id c found)⟩
  · obtain ⟨g, c, groups, made⟩ := finished.made id (complete id f here native defined)
    cases made.known.symm.trans here
    exact ⟨c, groups, made.cached, made.laid, made.inPlace empty⟩
  · exact finished.apart id id' (known id (cached id c found)) (known id' (cached id' c' found'))
      other c c' found found'

/-! ## What stays true when an attempt fails -/

/-- What is known of an image whatever was tried on it: its store comes from the empty one, every
open call belongs to a compiled function, and only functions with `P` are compiled. -/
structure Image.Kept (P : FunctionId → Prop) (pageSize : Nat) (image : Image) : Prop where
  store : (CodeStore.empty pageSize).Evolves image.store
  owned : image.cache.Owned
  within : ∀ id, image.cache.contains id = true → P id

section Kept

open Memory.CodeStore (Evolves Respects)

variable {P : FunctionId → Prop} {pageSize : Nat} {image : Image}

theorem kept_empty (P : FunctionId → Prop) (pageSize : Nat) :
    (Image.empty pageSize).Kept P pageSize :=
  ⟨.refl _, (fun _ mem => nomatch mem), fun _ found => nomatch found⟩

theorem Image.Kept.mono {Q : FunctionId → Prop} (kept : image.Kept P pageSize)
    (more : ∀ id, P id → Q id) : image.Kept Q pageSize :=
  ⟨kept.store, kept.owned, fun id found => more id (kept.within id found)⟩

theorem empty_sound (pageSize : Nat) : (CodeStore.empty pageSize).Sound := by
  refine ⟨fun k page at_ => ?_, fun k page at_ => ?_, fun value address known => ?_⟩
  · cases at_
  · cases at_
  · have none : (∅ : Std.HashMap Number.Single UInt64)[value]? = none :=
      Std.HashMap.getElem?_empty
    cases none.symm.trans known

theorem Image.Kept.sound (kept : image.Kept P pageSize) (apart : image.store.Apart) :
    image.store.Sound :=
  (kept.store.sound apart (empty_sound pageSize)).1

theorem Image.Kept.onStore (kept : image.Kept P pageSize) {store : CodeStore}
    (evolves : image.store.Evolves store) : { image with store }.Kept P pageSize :=
  ⟨kept.store.trans evolves, kept.owned, kept.within⟩

theorem kept_compile (types : TypeTable) (functions : FunctionTable) {id : FunctionId}
    (kept : image.Kept P pageSize) (body : P id) :
    (leaves (Image.compile types functions id image)).Kept P pageSize := by
  have evolves := evolves_compile types functions id image.store
  cases run : Image.compile types functions id image with
  | error e image' =>
    obtain ⟨store, failed, rfl⟩ := imageCompile_eq_error run
    rw [failed] at evolves
    exact kept.onStore evolves
  | ok entry image' =>
    obtain ⟨c, calls, store, compiled, rfl⟩ := imageCompile_eq_ok run
    rw [compiled] at evolves
    obtain ⟨f, _, _, _, ran⟩ := compile_eq_ok compiled
    obtain ⟨function, callers⟩ := compileBody_caller ran
    have function : c.function = id := function
    refine ⟨kept.store.trans evolves, ?_, ?_⟩
    · exact kept.owned.insert fun site mem => (callers site mem).trans function.symm
    · intro other found
      rcases (CodeCache.contains_insert other).mp found with same | old
      · rw [← same, function]
        exact body
      · exact kept.within other old

theorem kept_link (functions : FunctionTable) (kept : image.Kept P pageSize) :
    (leaves (Image.link functions image)).Kept P pageSize := by
  obtain ⟨evolves, entries, pending⟩ := leaves_linkAll CodeStore.respects_evolves functions
    image.cache.pending 0 { image with cache := { image.cache with pending := [] } }
  have same : leaves (Image.link functions image) = leaves (Image.linkAll functions
    image.cache.pending 0 { image with cache := { image.cache with pending := [] } }) := rfl
  rw [same]
  have contains : ∀ id, (leaves (Image.linkAll functions image.cache.pending 0
      { image with cache := { image.cache with pending := [] } })).cache.contains id
        = image.cache.contains id := by
    intro id
    unfold CodeCache.contains CodeCache.get?
    rw [entries]
  refine ⟨kept.store.trans evolves, fun site mem => ?_, fun id found => ?_⟩
  · rw [contains]
    exact kept.owned site ((pending site mem).resolve_left fun no => nomatch no)
  · rw [contains] at found
    exact kept.within id found

/-- Closing an image closes its store or leaves the image as it is. -/
theorem leaves_finish (image : Image) :
    leaves (Image.finish image) = image ∨ ∃ finished, leaves (Image.finish image)
      = { image with store := leaves image.store.makeExecutable, finished } := by
  unfold Image.finish
  rw [get_bind]
  dsimp only
  split
  · exact .inl rfl
  · have left := leaves_onStore (CodeStore.makeExecutable.adaptExcept CompileError.memory) image
    rw [leaves_adaptExcept] at left
    refine .inr ?_
    cases run : Image.onStore (CodeStore.makeExecutable.adaptExcept CompileError.memory) image with
    | error e mid =>
      rw [run] at left
      rw [bind_of_error run]
      cases left
      exact ⟨_, rfl⟩
    | ok _ mid =>
      rw [run] at left
      rw [bind_of_ok run]
      cases left
      exact ⟨_, rfl⟩

theorem kept_finish (kept : image.Kept P pageSize) :
    (leaves (Image.finish image)).Kept P pageSize := by
  rcases leaves_finish image with same | ⟨finished, left⟩
  · rw [same]
    exact kept
  · rw [left]
    exact ⟨kept.store.trans (CodeStore.evolves_makeExecutable image.store), kept.owned,
      kept.within⟩

end Kept

end ManagedCode.Compile
