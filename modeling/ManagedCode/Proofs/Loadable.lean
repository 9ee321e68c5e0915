import ManagedCode.Proofs.Compilable
import ManagedCode.Proofs.Machine.Invocation

/-!
# Programs that load

A program loads exactly if every function that it calls is defined, every body passes the check and
every frame is small enough. There are no other reasons for an attempt to fail, whatever attempts
came before, and a failed attempt leaves a machine that can be written to and not run. The pages of
the store are those of memory that do not meet, and the code of a body is shorter than `2 ^ 31` bytes.

* `Vm.Loadable`: the programs that load.
* `load_error`: why an attempt to load fails.
* `open_of_unloaded`: as long as a program is not loaded, its pages can be written.
* `loads_exactly`: loading succeeds exactly for the programs that load.
-/

namespace ManagedCode.Vm

open Bytecode TypeSystem
open Compile (Image Oversized Resolvable sourceOf)
open Memory (CodeStore PagePool)
open Memory.CodeStore (Respects respects_evolves respects_open)

def CalleesDefined (vm : Vm) : Prop :=
  ∀ id f, vm.functions.get? id = some f → f.HasBody → ∀ i ∈ f.code, Resolvable vm.functions i

def BodiesPass (vm : Vm) : Prop :=
  ∀ id f, vm.functions.get? id = some f → f.HasBody →
    ∃ snapshots, Typing.verify ⟨vm.types, vm.functions, f⟩ = .ok snapshots

/-- Every function with a body has a frame whose slots can be counted. -/
def SmallFrames (vm : Vm) : Prop :=
  ∀ id f, vm.functions.get? id = some f → f.HasBody → f.SmallFrame

/-- The code of every body that passes the check stays below the reach of a distance. -/
def CodeShort (vm : Vm) : Prop :=
  ∀ id f snapshots, vm.functions.get? id = some f → f.HasBody →
    Typing.verify ⟨vm.types, vm.functions, f⟩ = .ok snapshots →
    (sourceOf vm.types vm.functions id (f.withSnapshots snapshots)).codeSize < 2 ^ 31

/-- What a program must be like to be loaded. -/
structure Loadable (vm : Vm) : Prop where
  callees : vm.CalleesDefined
  bodies : vm.BodiesPass
  frames : vm.SmallFrames

variable {vm vm' : Vm} {e : VmError}
variable {R : CodeStore → CodeStore → Prop}

/-! ## Callees -/

variable {f : Function} {ids : List FunctionId}

theorem missingCallee?_eq_none_iff :
    vm.missingCallee? f = none ↔ ∀ i ∈ f.code, Resolvable vm.functions i := by
  unfold missingCallee?
  rw [List.findSome?_eq_none_iff]
  simp only [Array.mem_toList_iff, Option.filter_eq_none_iff, Resolvable, function?]
  refine forall_congr' fun i => forall_congr' fun _ => forall_congr' fun callee =>
    forall_congr' fun _ => ?_
  cases vm.functions.get? callee <;> simp

/-- The two ways in which the check of the callees ends. -/
theorem checkCallees_cases (vm : Vm) (bodies : List (FunctionId × Function)) :
    (vm.checkCallees bodies = .ok () ∧
        ∀ id f, (id, f) ∈ bodies → ∀ i ∈ f.code, Resolvable vm.functions i) ∨
      ∃ caller callee,
        vm.checkCallees bodies = .error (.load (.unresolvedCallee caller callee)) ∧
        ∃ id f, (id, f) ∈ bodies ∧ ¬ ∀ i ∈ f.code, Resolvable vm.functions i := by
  induction bodies with
  | nil => exact .inl ⟨rfl, fun id f mem => nomatch mem⟩
  | cons head rest ih =>
    obtain ⟨id, f⟩ := head
    unfold checkCallees
    cases missing : vm.missingCallee? f with
    | some callee =>
      refine .inr ⟨_, _, rfl, id, f, List.mem_cons_self, fun all => ?_⟩
      cases missing.symm.trans (missingCallee?_eq_none_iff.mpr all)
    | none =>
      dsimp only
      refine ih.imp (fun good => ⟨good.1, fun id' f' mem => ?_⟩) ?_
      · rcases List.mem_cons.mp mem with same | later
        · cases same
          exact missingCallee?_eq_none_iff.mp missing
        · exact good.2 id' f' later
      · rintro ⟨caller, callee, failed, id', f', mem, bad⟩
        exact ⟨caller, callee, failed, id', f', List.mem_cons_of_mem _ mem, bad⟩

theorem checkCallees_bodies (tidy : vm.functions.Tidy) :
    (vm.checkCallees vm.bodies = .ok () ∧ vm.CalleesDefined) ∨
      ∃ caller callee,
        vm.checkCallees vm.bodies = .error (.load (.unresolvedCallee caller callee)) ∧
        ¬ vm.CalleesDefined := by
  refine (checkCallees_cases vm vm.bodies).imp (fun good => ⟨good.1, fun id f found body => ?_⟩) ?_
  · exact good.2 id f ((mem_bodies tidy).mpr ⟨found, body⟩)
  · rintro ⟨caller, callee, failed, id, f, mem, bad⟩
    obtain ⟨found, body⟩ := (mem_bodies tidy).mp mem
    exact ⟨caller, callee, failed, fun all => bad (all id f found body)⟩

/-! ## Bodies -/

/-- A check that fails is that of a body that does not pass. -/
theorem verifyAll_error (run : ids.forM verifyOne vm = .error e vm') :
    ∃ cause, e = .verify cause ∧ ∃ id ∈ ids, ∃ f, vm.functions.get? id = some f ∧
      Typing.verify ⟨vm.types, vm.functions, f⟩ = .error cause := by
  induction ids generalizing vm with
  | nil => cases run
  | cons id rest ih =>
    rw [forM_cons_apply] at run
    rcases verifyOne_cases id vm with ⟨_, same⟩ | ⟨f, cause, found, failed, same⟩ |
      ⟨f, snapshots, found, _, same⟩
    · rw [bind_of_ok same] at run
      obtain ⟨cause, rfl, id', mem, found⟩ := ih run
      exact ⟨cause, rfl, id', List.mem_cons_of_mem _ mem, found⟩
    · rw [bind_of_error same] at run
      cases run
      exact ⟨cause, rfl, id, List.mem_cons_self, f, found, failed⟩
    · rw [bind_of_ok same] at run
      obtain ⟨cause, rfl, id', mem, g, found', failed⟩ := ih run
      refine ⟨cause, rfl, id', List.mem_cons_of_mem _ mem, ?_⟩
      -- What was noted for the functions before does not matter.
      rcases FunctionTable.rechecked_set snapshots found id' with ⟨g', old, before, after⟩ | ⟨_, none⟩
      · cases found'.symm.trans after
        have agrees := (FunctionTable.rechecked_set snapshots found).agrees vm.types g' old
        exact ⟨g', before, (Typing.verify_agrees agrees).symm.trans failed⟩
      · cases found'.symm.trans none

/-! ## Code -/

section Rechecked

variable {types : TypeTable} {functions functions' : FunctionTable}

section

variable (rechecked : functions.Rechecked functions')

include rechecked

theorem lowerCall_rechecked (id : FunctionId) (f : Function) (index : Nat) (callee : FunctionId)
    (onObject : Bool) :
    (sourceOf types functions' id f).lowerCall index callee onObject
      = (sourceOf types functions id f).lowerCall index callee onObject := by
  unfold Compile.Source.lowerCall sourceOf
  dsimp only
  rcases rechecked callee with ⟨g, snapshots, found, found'⟩ | ⟨none, none'⟩
  · rw [found, found']
    dsimp only
    rw [Function.native?_withSnapshots]
    cases g.native? with
    | some routine => cases routine <;> rfl
    | none =>
      dsimp only
      unfold Compile.Source.lowerManaged Function.argumentCount
      rw [g.definition_withSnapshots]
      rfl
  · rw [none, none']

/-- The size of a function's code does not depend on the snapshots of other functions. -/
theorem codeSize_rechecked (id : FunctionId) (f : Function) :
    (sourceOf types functions' id f).codeSize = (sourceOf types functions id f).codeSize := by
  have lower : ∀ index i, (sourceOf types functions' id f).lower index 0 i
      = (sourceOf types functions id f).lower index 0 i := by
    intro index i
    cases i with
    | call callee => exact lowerCall_rechecked rechecked id f index callee false
    | callInstance callee => exact lowerCall_rechecked rechecked id f index callee true
    | _ => rfl
  unfold Compile.Source.codeSize Compile.Source.lengthAt
  simp only [lower]
  rfl

theorem resolvable_rechecked {i : Instr} (resolvable : Resolvable functions i) :
    Resolvable functions' i := by
  intro callee names
  obtain ⟨g, found, defined⟩ := resolvable callee names
  rcases rechecked callee with ⟨g', snapshots, before, after⟩ | ⟨none, _⟩
  · cases found.symm.trans before
    refine ⟨_, after, ?_⟩
    rw [Function.isDefined_withSnapshots]
    exact defined
  · cases found.symm.trans none

end

variable {snapshots : Snapshots}

theorem smallFrame_withSnapshots : (f.withSnapshots snapshots).SmallFrame ↔ f.SmallFrame := by
  unfold Function.SmallFrame Function.argumentCount
  rw [f.definition_withSnapshots, f.locals_withSnapshots]

/-- A body that passed the check, with the snapshots that were found, is ready to be compiled. -/
theorem ready_of_verify (built : types.WellFormed) (rechecked : functions.Rechecked functions')
    {id : FunctionId} (body : f.HasBody)
    (found : functions'.get? id = some (f.withSnapshots snapshots))
    (passed : Typing.verify ⟨types, functions, f⟩ = .ok snapshots)
    (resolvable : ∀ i ∈ f.code, Resolvable functions i) :
    (sourceOf types functions' id (f.withSnapshots snapshots)).Ready where
  found := found
  body := (f.hasBody_withSnapshots snapshots).mpr body
  types := built
  checked := by
    have closed := (Typing.checked_of_verify passed).2.agrees (rechecked.agrees types f snapshots)
    have same := f.snapshots_withSnapshots snapshots body
    show Typing.Checked ⟨types, functions', f.withSnapshots snapshots⟩
      (f.withSnapshots snapshots).snapshots
    rwa [same]
  resolvable := by
    intro i mem
    have mem : i ∈ (f.withSnapshots snapshots).code := mem
    rw [f.code_withSnapshots] at mem
    exact resolvable_rechecked rechecked (resolvable i mem)

end Rechecked

theorem respects_compileOne (respects : Respects R) (id : FunctionId) (vm : Vm) :
    ∃ image, leaves (compileOne id vm) = { vm with image } ∧ R vm.image.store image.store := by
  refine ⟨_, leaves_onImage _ vm, ?_⟩
  rw [leaves_discard]
  unfold Image.compile
  have changed := Compile.respects_compile respects vm.types vm.functions id vm.image.store
  have left := Compile.leaves_onStore (Compile.compile vm.types vm.functions id) vm.image
  cases run : Image.onStore (Compile.compile vm.types vm.functions id) vm.image with
  | error e mid =>
    rw [run] at left
    cases left
    rw [bind_of_error run]
    exact changed
  | ok result mid =>
    rw [run] at left
    cases left
    rw [bind_of_ok run]
    exact changed

theorem respects_compileAll (respects : Respects R) (ids : List FunctionId) (vm : Vm) :
    ∃ image, leaves (ids.forM compileOne vm) = { vm with image } ∧ R vm.image.store image.store := by
  induction ids generalizing vm with
  | nil => exact ⟨vm.image, rfl, respects.refl _⟩
  | cons id rest ih =>
    rw [forM_cons_apply]
    obtain ⟨image, left, changed⟩ := respects_compileOne respects id vm
    cases run : compileOne id vm with
    | error e mid =>
      rw [bind_of_error run]
      exact ⟨image, (congrArg leaves run).symm.trans left, changed⟩
    | ok _ mid =>
      rw [bind_of_ok run]
      cases (congrArg leaves run).symm.trans left
      obtain ⟨image', left', later⟩ := ih { vm with image }
      exact ⟨image', left', respects.trans changed later⟩

/-- Checked functions compile, unless a frame is too large. -/
theorem compileAll_error (run : ids.forM compileOne vm = .error e vm')
    (ready : ∀ id ∈ ids, ∃ f, (sourceOf vm.types vm.functions id f).Ready ∧ (sourceOf vm.types vm.functions id f).codeSize < 2 ^ 31)
    (opened : vm.image.store.Open) (sound : vm.image.store.Sound) (apart : vm'.image.store.Apart) :
    ∃ cause, e = .compile cause ∧ Oversized vm.functions cause := by
  induction ids generalizing vm with
  | nil => cases run
  | cons id rest ih =>
    rw [forM_cons_apply] at run
    rcases bind_eq_error_iff.mp run with failed | ⟨_, mid, first, failed⟩
    · obtain ⟨f, ready, short⟩ := ready id List.mem_cons_self
      obtain ⟨cause, image, rfl, compiling, rfl⟩ := onImage_eq_error failed
      exact ⟨cause, rfl, Compile.compile_error ready short opened sound apart
        (discard_eq_error_iff.mp compiling)⟩
    · obtain ⟨image, left, evolves⟩ := respects_compileOne respects_evolves id vm
      obtain ⟨image', left', keeps⟩ := respects_compileOne respects_open id vm
      rw [first] at left left'
      cases left
      cases left'
      obtain ⟨last, left, later⟩ := respects_compileAll respects_evolves rest { vm with image }
      rw [failed] at left
      cases left
      exact @ih { vm with image } failed
        (fun id' mem => ready id' (List.mem_cons_of_mem _ mem)) (keeps opened)
        (evolves.sound (later.apart apart) sound).1

/-- The last stages succeed on compiled functions. -/
theorem linkAndFinish_ok {among : FunctionId → Prop} {lands : FunctionId → UInt64 → Prop}
    (progress : Compile.Progress vm.types vm.functions vm.image among lands)
    (owners : ∀ site ∈ vm.image.cache.pending, among site.caller)
    (complete : ∀ id, vm.functions.HasBody id → among id)
    (resolvable : vm.CalleesDefined) (opened : vm.image.store.Open)
    (apart : vm.image.store.Apart) : ∃ vm', linkAndFinish vm = .ok () vm' := by
  obtain ⟨total, linked, linking, cache, opened'⟩ :=
    Compile.link_ok progress owners complete resolvable opened apart
  obtain ⟨closed, closing⟩ := Compile.finish_ok (show linked.cache.pending = [] by rw [cache]) opened'
  have first : onImage (fun _ functions => discard (Image.link functions)) vm
      = .ok () { vm with image := linked } :=
    onImage_eq_ok_iff.mpr ⟨linked, discard_eq_ok_iff.mpr ⟨total, linking⟩, rfl⟩
  have second : onImage (fun _ _ => Image.finish) { vm with image := linked }
      = .ok () { vm with image := closed } :=
    onImage_eq_ok_iff.mpr ⟨closed, closing, rfl⟩
  unfold linkAndFinish
  rw [bind_of_ok first, bind_of_ok second]
  exact ⟨_, rfl⟩

/-- The last stages fail before the store is closed. -/
theorem linkAndFinish_error (respects : Respects R) (run : linkAndFinish vm = .error e vm') :
    ∃ image, vm' = { vm with image } ∧ R vm.image.store image.store := by
  have changed := (Compile.leaves_linkAll respects vm.functions vm.image.cache.pending 0
    { vm.image with cache := { vm.image.cache with pending := [] } }).1
  unfold linkAndFinish at run
  rcases bind_eq_error_iff.mp run with failed | ⟨_, _, linking, run⟩
  · obtain ⟨cause, image, _, stopped, rfl⟩ := onImage_eq_error failed
    have stopped : Image.linkAll vm.functions vm.image.cache.pending 0
        { vm.image with cache := { vm.image.cache with pending := [] } } = .error cause image :=
      discard_eq_error_iff.mp stopped
    rw [stopped] at changed
    exact ⟨image, rfl, changed⟩
  · obtain ⟨image, linked, rfl⟩ := onImage_eq_ok_iff.mp linking
    obtain ⟨total, linked⟩ := discard_eq_ok_iff.mp linked
    have linked : Image.linkAll vm.functions vm.image.cache.pending 0
        { vm.image with cache := { vm.image.cache with pending := [] } } = .ok total image := linked
    rw [linked] at changed
    rcases bind_eq_error_iff.mp run with failed | ⟨_, _, _, failed⟩
    · obtain ⟨cause, image', _, stopped, rfl⟩ := onImage_eq_error failed
      cases Compile.finish_error stopped
      exact ⟨_, rfl, changed⟩
    · cases failed

/-! ## Attempts to load -/

/-- A failed attempt does not load the program, and the store is only filled. -/
theorem respects_load_error (respects : Respects R) (unloaded : vm.loaded = false)
    (run : load vm = .error e vm') : vm'.loaded = false ∧ R vm.image.store vm'.image.store := by
  rw [load_eq unloaded] at run
  rcases ofExcept_bind_eq_error_iff.mp run with ⟨_, rfl⟩ | ⟨_, _, run⟩
  · exact ⟨unloaded, respects.refl _⟩
  obtain ⟨functions, left, _⟩ := leaves_verifyAll vm.bodyIds vm
  rcases bind_eq_error_iff.mp run with failed | ⟨_, _, verifying, run⟩
  · rw [failed] at left
    cases left
    exact ⟨unloaded, respects.refl _⟩
  rw [verifying] at left
  cases left
  obtain ⟨image, left, changed⟩ := respects_compileAll respects vm.bodyIds { vm with functions }
  rcases bind_eq_error_iff.mp run with failed | ⟨_, _, compiling, run⟩
  · rw [failed] at left
    cases left
    exact ⟨unloaded, changed⟩
  · rw [compiling] at left
    cases left
    obtain ⟨image', rfl, later⟩ := linkAndFinish_error respects run
    exact ⟨unloaded, respects.trans changed later⟩

theorem leaves_declare (d : Definition) (vm : Vm) :
    (leaves (declare d vm)).image = vm.image ∧ (leaves (declare d vm)).loaded = vm.loaded := by
  rcases declare_cases d vm with ⟨e, refused⟩ | ⟨_, _, registered⟩
  · rw [refused]
    exact ⟨rfl, rfl⟩
  · rw [registered]
    exact ⟨rfl, rfl⟩

theorem leaves_define (id : FunctionId) (body : Body) (vm : Vm) :
    (leaves (define id body vm)).image = vm.image ∧
      (leaves (define id body vm)).loaded = vm.loaded := by
  rcases define_cases id body vm with ⟨e, refused⟩ | ⟨f, _, _, _, defined⟩
  · rw [refused]
    exact ⟨rfl, rfl⟩
  · rw [defined]
    exact ⟨rfl, rfl⟩

/-- As long as a program is not loaded, its code can be written and not run. -/
theorem open_of_unloaded (assembled : Assembled vm) (unloaded : vm.loaded = false) :
    vm.image.store.Open := by
  induction assembled with
  | create made =>
    obtain ⟨_, _, _, _, _, _, rfl⟩ := create_eq_ok made
    exact CodeStore.open_empty (by decide)
  | type _ _ ih => exact ih unloaded
  | @declare vm d _ ih =>
    obtain ⟨image, loaded⟩ := leaves_declare d vm
    rw [image]
    exact ih (loaded.symm.trans unloaded)
  | @define vm id body _ ih =>
    obtain ⟨image, loaded⟩ := leaves_define id body vm
    rw [image]
    exact ih (loaded.symm.trans unloaded)
  | @load vm _ ih =>
    cases before : vm.loaded with
    | true =>
      rw [load_refused before] at unloaded
      cases before.symm.trans unloaded
    | false =>
      cases run : load vm with
      | ok _ last =>
        rw [run] at unloaded
        cases (loaded_of_load run).symm.trans unloaded
      | error e last => exact (respects_load_error respects_open before run).2 (ih before)

/-- When all functions are compiled, the last stages cannot fail. -/
theorem linkAndFinish_of_compiled (prepared : Prepared vm) {functions : FunctionTable} {mid : Vm}
    (rechecked : vm.functions.Rechecked functions) (callees : vm.CalleesDefined)
    (opened : vm.image.store.Open) (sound : vm.image.store.Sound)
    (compiling : vm.bodyIds.forM compileOne { vm with functions } = .ok () mid)
    (apart : mid.image.store.Apart) : ∃ vm', linkAndFinish mid = .ok () vm' := by
  obtain ⟨image, rfl, evolves, progress⟩ :=
    compileAll_progress (fun _ => False) (fun _ _ => False) compiling
  obtain ⟨_, left, keeps⟩ := respects_compileAll respects_open vm.bodyIds { vm with functions }
  obtain ⟨_, left', kept⟩ := leaves_compileAll vm.bodyIds { vm with functions } prepared.image
    fun id mem => (mem_bodyIds prepared.functions).mp mem
  rw [compiling] at left left'
  cases left
  cases left'
  have complete : ∀ id, functions.HasBody id → id ∈ vm.bodyIds ∨ False := by
    intro id body
    exact .inl ((mem_bodyIds prepared.functions).mpr ((rechecked.hasBody_iff id).mp body))
  have initial : Compile.Progress vm.types functions vm.image (fun _ => False) fun _ _ => False :=
    ⟨prepared.image.owned, sound, (fun _ no => no.elim), fun _ _ no => no.elim⟩
  refine linkAndFinish_ok (progress apart initial) (fun site mem => ?_) complete ?_
    (keeps opened) apart
  · exact complete _ ((rechecked.hasBody_iff _).mpr (kept.within _ (kept.owned site mem)))
  · intro id g found body i mem
    rcases rechecked id with ⟨f, snapshots, found', after⟩ | ⟨_, none⟩
    · cases found.symm.trans after
      rw [f.code_withSnapshots] at mem
      exact resolvable_rechecked rechecked
        (callees id f found' ((f.hasBody_withSnapshots _).mp body) i mem)
    · cases found.symm.trans none

/-- Why an attempt to load fails. -/
theorem load_error (prepared : Prepared vm) (unloaded : vm.loaded = false)
    (opened : vm.image.store.Open) (short : vm.CodeShort) (apart : vm'.image.store.Apart)
    (run : load vm = .error e vm') :
    (∃ caller callee, e = .load (.unresolvedCallee caller callee) ∧ ¬ vm.CalleesDefined) ∨
      (∃ cause, e = .verify cause ∧ ¬ vm.BodiesPass) ∨
      ∃ signature, e = .compile (.frameTooLarge signature) ∧ ¬ vm.SmallFrames := by
  have sound := prepared.image.sound
    ((respects_load_error respects_evolves unloaded run).2.apart apart)
  rw [load_eq unloaded] at run
  rcases checkCallees_bodies prepared.functions with ⟨checked, callees⟩ |
    ⟨caller, callee, checked, bad⟩
  case inr =>
    rw [checked] at run
    cases run
    exact .inl ⟨caller, callee, rfl, bad⟩
  rw [bind_of_ok (ofExcept_eq_ok_iff.mpr ⟨checked, rfl⟩)] at run
  rcases bind_eq_error_iff.mp run with failed | ⟨_, _, verifying, run⟩
  · obtain ⟨cause, rfl, id, mem, f, found, failed⟩ := verifyAll_error failed
    obtain ⟨f', found', body⟩ := (mem_bodyIds prepared.functions).mp mem
    cases found.symm.trans found'
    refine .inr (.inl ⟨cause, rfl, fun all => ?_⟩)
    obtain ⟨snapshots, passed⟩ := all id f found body
    cases failed.symm.trans passed
  obtain ⟨functions, rfl, rechecked, _, passed⟩ := verifyAll_eq_ok verifying
  have ready : ∀ id ∈ vm.bodyIds, ∃ f, (sourceOf vm.types functions id f).Ready ∧
      (sourceOf vm.types functions id f).codeSize < 2 ^ 31 := by
    intro id mem
    obtain ⟨f, found, body⟩ := (mem_bodyIds prepared.functions).mp mem
    obtain ⟨snapshots, passed, found'⟩ := passed id mem f found
    refine ⟨_, ready_of_verify prepared.types.wellFormed rechecked body found' passed
      (callees id f found body), ?_⟩
    rw [codeSize_rechecked rechecked]
    exact short id f snapshots found body passed
  rcases bind_eq_error_iff.mp run with failed | ⟨_, _, compiling, run⟩
  · obtain ⟨cause, rfl, ⟨signature, rfl⟩, id, g, found, body, large⟩ :=
      compileAll_error failed ready opened sound apart
    refine .inr (.inr ⟨signature, rfl, fun all => large ?_⟩)
    rcases rechecked id with ⟨f, snapshots, found', after⟩ | ⟨_, none⟩
    · cases found.symm.trans after
      exact smallFrame_withSnapshots.mpr (all id f found' ((f.hasBody_withSnapshots _).mp body))
    · cases found.symm.trans none
  · obtain ⟨last, same, later⟩ := linkAndFinish_error respects_evolves run
    rw [same] at apart
    obtain ⟨_, done⟩ := linkAndFinish_of_compiled prepared rechecked callees opened sound compiling
      (later.apart apart)
    cases run.symm.trans done

/-- A program that was loaded is one that loads. -/
theorem loadable_of_load (prepared : Prepared vm) (run : load vm = .ok () vm')
    (apart : vm'.image.store.Apart) : vm.Loadable := by
  obtain ⟨_, _, linked, _⟩ := load_linked prepared run apart
  rw [load_eq (unloaded_of_load run)] at run
  obtain ⟨_, checked, run⟩ := ofExcept_bind_eq_ok_iff.mp run
  obtain ⟨_, _, verifying, run⟩ := bind_eq_ok_iff.mp run
  obtain ⟨functions, rfl, _, _, passed⟩ := verifyAll_eq_ok verifying
  obtain ⟨_, _, compiling, run⟩ := bind_eq_ok_iff.mp run
  obtain ⟨_, rfl, _⟩ := compileAll_progress (fun _ => False) (fun _ _ => False) compiling
  obtain ⟨_, _, linking, run⟩ := bind_eq_ok_iff.mp run
  obtain ⟨_, _, rfl⟩ := onImage_eq_ok_iff.mp linking
  obtain ⟨_, _, closing, run⟩ := bind_eq_ok_iff.mp run
  obtain ⟨_, _, rfl⟩ := onImage_eq_ok_iff.mp closing
  cases run
  have passes := fun id f (found : vm.functions.get? id = some f) (body : f.HasBody) =>
    passed id ((mem_bodyIds prepared.functions).mpr ⟨f, found, body⟩) f found
  refine ⟨?_, fun id f found body => ?_, fun id f found body => ?_⟩
  · rcases checkCallees_bodies prepared.functions with ⟨_, callees⟩ | ⟨_, _, failed, _⟩
    · exact callees
    · cases checked.symm.trans failed
  · obtain ⟨snapshots, passed, _⟩ := passes id f found body
    exact ⟨snapshots, passed⟩
  · obtain ⟨snapshots, _, found'⟩ := passes id f found body
    have body' := (f.hasBody_withSnapshots snapshots).mpr body
    obtain ⟨_, _, _, laid, _⟩ := linked.code id _ found' body'.1 body'.2
    exact smallFrame_withSnapshots.mp ⟨laid.arguments, laid.locals⟩

theorem invoke_of_unloaded (unloaded : vm.loaded = false) (fuel : Nat) (id : FunctionId)
    (arguments : List UInt64) : invoke fuel id arguments vm = .error (.load .notLoaded) vm := by
  unfold invoke
  rw [get_bind, entryFor, if_neg (by simp [unloaded])]
  rfl

/-- Loading succeeds exactly for the programs that load, whatever was tried before. A failed attempt
names a callee without a body, a body that does not pass the check or a frame that is too large, and
leaves the machine without a program: no page can be run, and no function can be called. -/
theorem loads_exactly (assembled : Assembled vm) (unloaded : vm.loaded = false)
    (short : vm.CodeShort) (apart : (leaves (load vm)).image.store.Apart) :
    ((∃ vm', load vm = .ok () vm') ↔ vm.Loadable) ∧
      ∀ e vm', load vm = .error e vm' →
        ((∃ caller callee, e = .load (.unresolvedCallee caller callee)) ∨
          (∃ cause, e = .verify cause) ∨ ∃ signature, e = .compile (.frameTooLarge signature)) ∧
        vm'.loaded = false ∧ vm'.image.store.executable = false ∧
        (∀ page ∈ vm'.image.store.code.pages, page.protection = .readWrite) ∧
        (∀ page ∈ vm'.image.store.constants.pages, page.protection = .readWrite) ∧
        ∀ fuel id arguments, invoke fuel id arguments vm' = .error (.load .notLoaded) vm' := by
  have opened := open_of_unloaded assembled unloaded
  have why := fun e vm' (run : load vm = .error e vm') =>
    load_error assembled.prepared unloaded opened short (by rw [run] at apart; exact apart) run
  refine ⟨⟨?_, fun loadable => ?_⟩, fun e vm' run => ?_⟩
  · rintro ⟨vm', run⟩
    exact loadable_of_load assembled.prepared run (by rw [run] at apart; exact apart)
  · cases run : load vm with
    | ok _ vm' => exact ⟨vm', rfl⟩
    | error e vm' =>
      rcases why e vm' run with ⟨_, _, _, bad⟩ | ⟨_, _, bad⟩ | ⟨_, _, bad⟩
      · exact absurd loadable.callees bad
      · exact absurd loadable.bodies bad
      · exact absurd loadable.frames bad
  · obtain ⟨unloaded', keeps⟩ := respects_load_error respects_open unloaded run
    have opened' := keeps opened
    have writable : ∀ {pool : PagePool}, pool.Writable → ∀ page ∈ pool.pages,
        page.protection = .readWrite := by
      intro pool writable page mem
      obtain ⟨k, at_⟩ := Array.mem_iff_getElem?.mp mem
      exact writable.pages at_
    refine ⟨?_, unloaded', opened'.executable, writable opened'.code, writable opened'.constants,
      invoke_of_unloaded unloaded'⟩
    rcases why e vm' run with ⟨caller, callee, same, _⟩ | ⟨cause, same, _⟩ | ⟨signature, same, _⟩
    · exact .inl ⟨caller, callee, same⟩
    · exact .inr (.inl ⟨cause, same⟩)
    · exact .inr (.inr ⟨signature, same⟩)

theorem loads_exactly_seven : load Sample.assembled = .ok () Sample.machine ∧
    Sample.assembled.Loadable := by
  have each : Sample.assembled.functions.toList.all (fun entry =>
      match Typing.verify ⟨Sample.assembled.types, Sample.assembled.functions, entry.2⟩ with
      | .ok snapshots => (sourceOf Sample.assembled.types Sample.assembled.functions entry.1
          (entry.2.withSnapshots snapshots)).codeSize < 2 ^ 31
      | .error _ => true) = true := by
    decide +kernel
  refine ⟨Sample.load_eq, (loads_exactly Sample.assembled_assembled (by decide +kernel)
    (fun id f snapshots found body passed => ?_) ?_).1.mp ⟨_, Sample.load_eq⟩⟩
  · have here := List.all_eq_true.mp each _ (SlotTable.mem_toList_of_get? found)
    rw [passed] at here
    exact of_decide_eq_true here
  · rw [Sample.load_eq]
    exact Sample.loaded.apart

end ManagedCode.Vm
