import ManagedCode.Proofs.Linking
import ManagedCode.Proofs.SlotTable
import ManagedCode.Proofs.Snapshots
import ManagedCode.Proofs.TypeTable
import ManagedCode.Vm.State

/-!
# Loaded programs

A program is assembled by declaring and defining types and functions; attempts to load it may fail
in between. Once it is loaded, every function with a body has been checked and its code stands in
the store with every operand filled in.

* `Vm.Assembled`: the machines that such a history leads to.
* `Vm.Prepared`: what holds of all of them.
* `Linked`: what the code of a loaded program looks like.
* `load_linked`: loading a program checks and links it.
-/

namespace ManagedCode

open Bytecode TypeSystem
open Compile (Image Laid InPlace)
open Memory (CodeStore PagePool)
open Typing (Checked Scope)

/-! ## Function tables -/

namespace Bytecode

/-- Whether a function has a body. -/
def Function.HasBody (f : Function) : Prop := f.isNative = false ∧ f.isDefined = true

def FunctionTable.HasBody (functions : FunctionTable) (id : FunctionId) : Prop :=
  ∃ f, functions.get? id = some f ∧ f.HasBody

theorem Function.hasBody_iff {f : Function} :
    f.HasBody ↔ ∃ body snapshots, f.implementation = .body body snapshots := by
  unfold HasBody isNative native? isDefined
  cases f.implementation <;> simp

theorem Function.native?_of_hasBody {f : Function} (body : f.HasBody) : f.native? = none :=
  Option.isSome_eq_false_iff.mp body.1 |> Option.isNone_iff_eq_none.mp

namespace Function

variable (f : Function) (snapshots snapshots' : Snapshots)

@[simp] theorem definition_withSnapshots :
    (f.withSnapshots snapshots).definition = f.definition := by
  unfold withSnapshots
  split <;> rfl

theorem implementation_withSnapshots :
    (f.withSnapshots snapshots).implementation =
      match f.implementation with
      | .body b _ => .body b snapshots
      | other => other := by
  unfold withSnapshots
  cases implementation : f.implementation <;> simp [implementation]

@[simp] theorem locals_withSnapshots : (f.withSnapshots snapshots).locals = f.locals := by
  unfold locals
  rw [implementation_withSnapshots]
  cases f.implementation <;> rfl

@[simp] theorem code_withSnapshots : (f.withSnapshots snapshots).code = f.code := by
  unfold code
  rw [implementation_withSnapshots]
  cases f.implementation <;> rfl

@[simp] theorem native?_withSnapshots : (f.withSnapshots snapshots).native? = f.native? := by
  unfold native?
  rw [implementation_withSnapshots]
  cases f.implementation <;> rfl

theorem hasBody_withSnapshots : (f.withSnapshots snapshots).HasBody ↔ f.HasBody := by
  rw [hasBody_iff, hasBody_iff, implementation_withSnapshots]
  cases f.implementation <;> simp

theorem isDefined_withSnapshots : (f.withSnapshots snapshots).isDefined = f.isDefined := by
  unfold isDefined
  rw [implementation_withSnapshots]
  cases f.implementation <;> rfl

theorem snapshots_withSnapshots (body : f.HasBody) :
    (f.withSnapshots snapshots).snapshots = snapshots := by
  obtain ⟨b, old, implementation⟩ := hasBody_iff.mp body
  unfold Function.snapshots
  rw [implementation_withSnapshots, implementation]

theorem withSnapshots_withSnapshots :
    (f.withSnapshots snapshots).withSnapshots snapshots' = f.withSnapshots snapshots' := by
  unfold withSnapshots
  cases implementation : f.implementation <;> simp [implementation]

theorem withSnapshots_self : f.withSnapshots f.snapshots = f := by
  obtain ⟨definition, implementation⟩ := f
  unfold withSnapshots Function.snapshots
  cases implementation <;> rfl

end Function

/-- The second table has the functions of the first, perhaps with other snapshots. -/
def FunctionTable.Rechecked (functions functions' : FunctionTable) : Prop :=
  ∀ id, (∃ f snapshots, functions.get? id = some f ∧
      functions'.get? id = some (f.withSnapshots snapshots)) ∨
    (functions.get? id = none ∧ functions'.get? id = none)

namespace FunctionTable

variable {functions functions' functions'' : FunctionTable}
variable {f : Function}

theorem Rechecked.refl (functions : FunctionTable) : Rechecked functions functions := by
  intro id
  cases found : functions.get? id with
  | none => exact .inr ⟨rfl, rfl⟩
  | some f => exact .inl ⟨f, f.snapshots, rfl, by rw [f.withSnapshots_self]⟩

theorem Rechecked.trans (first : Rechecked functions functions')
    (second : Rechecked functions' functions'') : Rechecked functions functions'' := by
  intro id
  rcases first id with ⟨f, snapshots, found, found'⟩ | ⟨none, none'⟩
  · rcases second id with ⟨g, snapshots', before, after⟩ | ⟨none, _⟩
    · cases found'.symm.trans before
      rw [Function.withSnapshots_withSnapshots] at after
      exact .inl ⟨f, snapshots', found, after⟩
    · cases none.symm.trans found'
  · rcases second id with ⟨g, snapshots', before, _⟩ | ⟨_, none''⟩
    · cases none'.symm.trans before
    · exact .inr ⟨none, none''⟩

section

variable (rechecked : Rechecked functions functions')

include rechecked

theorem Rechecked.hasBody_iff (id : FunctionId) : functions'.HasBody id ↔ functions.HasBody id := by
  rcases rechecked id with ⟨f, snapshots, found, found'⟩ | ⟨none, none'⟩
  · unfold HasBody
    rw [found, found']
    constructor
    · rintro ⟨g, same, body⟩
      cases same
      exact ⟨f, rfl, (f.hasBody_withSnapshots _).mp body⟩
    · rintro ⟨g, same, body⟩
      cases same
      exact ⟨_, rfl, (f.hasBody_withSnapshots _).mpr body⟩
  · unfold HasBody
    rw [none, none']

theorem Rechecked.callee {types : TypeTable} {g : Function} (id : FunctionId) :
    Scope.callee ⟨types, functions', g⟩ id = Scope.callee ⟨types, functions, f⟩ id := by
  unfold Scope.callee
  rcases rechecked id with ⟨f, snapshots, found, found'⟩ | ⟨none, none'⟩
  · dsimp only
    rw [found, found']
    exact congrArg Except.ok (f.definition_withSnapshots snapshots)
  · dsimp only
    rw [none, none']

/-- A function keeps what its check depends on while others are checked. -/
theorem Rechecked.agrees (types : TypeTable) (f : Function) (snapshots : Snapshots) :
    Scope.Agrees ⟨types, functions, f⟩ ⟨types, functions', f.withSnapshots snapshots⟩ :=
  ⟨rfl, rechecked.callee, f.definition_withSnapshots _, f.locals_withSnapshots _,
    f.code_withSnapshots _⟩

end

theorem rechecked_set {id : FunctionId} (snapshots : Snapshots)
    (found : functions.get? id = some f) :
    Rechecked functions (functions.set id (f.withSnapshots snapshots)) := by
  intro other
  rw [SlotTable.get?_set]
  by_cases same : other = id
  · subst same
    have known : functions.contains other = true := by
      rw [SlotTable.contains, found]
      rfl
    rw [if_pos ⟨rfl, known⟩]
    exact .inl ⟨f, snapshots, found, rfl⟩
  · rw [if_neg (fun both => same both.1)]
    exact Rechecked.refl functions other

/-- What holds of the functions of every program: none is ever removed, slots that no handle can
name have no body, and native functions are the runtime's own. -/
structure Tidy (functions : FunctionTable) : Prop where
  full : functions.free = []
  bounded : ∀ (i : Nat) (slot : Slot Function) (f : Function), SlotTable.handleLimit ≤ i →
    functions.slots[i]? = some slot → slot.value = some f → ¬ f.HasBody
  natives : ∀ id f routine, functions.get? id = some f → f.native? = some routine →
    f = .ofNative routine

theorem tidy_empty : Tidy (.empty : FunctionTable) := by
  refine ⟨rfl, fun i slot f _ at_ => ?_, fun id f routine found => ?_⟩
  · cases at_
  · cases SlotTable.get?_eq_some_iff.mp found

theorem Tidy.insert (tidy : Tidy functions) (bare : ¬ f.HasBody)
    (native : ∀ routine, f.native? = some routine → f = .ofNative routine) :
    Tidy (SlotTable.insert functions f).2 := by
  refine ⟨SlotTable.free_insert tidy.full _, fun i slot g far at_ value => ?_,
    fun id g routine found native' => ?_⟩
  · unfold SlotTable.insert at at_
    rw [tidy.full] at at_
    dsimp only at at_
    rw [Array.getElem?_push] at at_
    split at at_
    · cases at_
      cases value
      exact bare
    · exact tidy.bounded i slot g far at_ value
  · rcases SlotTable.get?_insert_cases tidy.full found with rfl | old
    · exact native routine native'
    · exact tidy.natives id g routine old native'

theorem Tidy.set (tidy : Tidy functions) (id : FunctionId)
    (native : ∀ routine, f.native? = some routine → f = .ofNative routine) :
    Tidy (SlotTable.set functions id f) := by
  refine ⟨(SlotTable.free_set _ _).trans tidy.full, fun i slot g far at_ value => ?_,
    fun other g routine found native' => ?_⟩
  · rw [SlotTable.slots_set far] at at_
    exact tidy.bounded i slot g far at_ value
  · rw [SlotTable.get?_set] at found
    split at found
    · cases found
      exact native routine native'
    · exact tidy.natives other g routine found native'

theorem Tidy.recheck (tidy : Tidy functions) {id : FunctionId} (found : functions.get? id = some f)
    (snapshots : Snapshots) : Tidy (SlotTable.set functions id (f.withSnapshots snapshots)) := by
  refine tidy.set id fun routine native => ?_
  rw [Function.native?_withSnapshots] at native
  have same := tidy.natives id f routine found native
  subst same
  rfl

end FunctionTable

end Bytecode

/-! ## Checking every function -/

/-- A function has been checked in a program. -/
structure CheckedIn (types : TypeTable) (functions : FunctionTable) (f : Function) : Prop where
  definition : Typing.checkDefinition ⟨types, functions, f⟩ = .ok ()
  body : Checked ⟨types, functions, f⟩ f.snapshots

namespace Vm

variable {functions : FunctionTable} {ids : List FunctionId}

section Verify

open FunctionTable (Rechecked)

variable {vm vm' : Vm}

/-- The three ways in which the check of one function ends. -/
theorem verifyOne_cases (id : FunctionId) (vm : Vm) :
    (vm.functions.get? id = none ∧ verifyOne id vm = .ok () vm) ∨
      (∃ f e, vm.functions.get? id = some f ∧
        Typing.verify ⟨vm.types, vm.functions, f⟩ = .error e ∧
        verifyOne id vm = .error (.verify e) vm) ∨
      ∃ f snapshots, vm.functions.get? id = some f ∧
        Typing.verify ⟨vm.types, vm.functions, f⟩ = .ok snapshots ∧
        verifyOne id vm
          = .ok () { vm with functions := vm.functions.set id (f.withSnapshots snapshots) } := by
  unfold verifyOne
  rw [get_bind]
  cases found : vm.functions.get? id with
  | none =>
    refine .inl ⟨rfl, ?_⟩
    rw [show vm.function? id = none from found]
    rfl
  | some f =>
    rw [show vm.function? id = some f from found]
    dsimp only
    cases run : Typing.verify ⟨vm.types, vm.functions, f⟩ with
    | error e => exact .inr (.inl ⟨f, e, rfl, run, rfl⟩)
    | ok snapshots => exact .inr (.inr ⟨f, snapshots, rfl, run, rfl⟩)

/-- Checking functions changes their snapshots only. -/
theorem leaves_verifyAll (ids : List FunctionId) (vm : Vm) :
    ∃ functions, leaves (ids.forM verifyOne vm) = { vm with functions } ∧
      Rechecked vm.functions functions ∧ (vm.functions.Tidy → functions.Tidy) := by
  induction ids generalizing vm with
  | nil => exact ⟨vm.functions, rfl, .refl _, fun tidy => tidy⟩
  | cons id rest ih =>
    rw [forM_cons_apply]
    rcases verifyOne_cases id vm with ⟨_, run⟩ | ⟨_, e, _, _, run⟩ | ⟨f, snapshots, found, _, run⟩
    · rw [bind_of_ok run]
      exact ih vm
    · rw [bind_of_error run]
      exact ⟨vm.functions, rfl, .refl _, fun tidy => tidy⟩
    · rw [bind_of_ok run]
      obtain ⟨functions, left, rechecked, tidy⟩ :=
        ih { vm with functions := vm.functions.set id (f.withSnapshots snapshots) }
      exact ⟨functions, left, (FunctionTable.rechecked_set _ found).trans rechecked,
        fun before => tidy (before.recheck found snapshots)⟩

/-- The check does not depend on the snapshots that there are. -/
theorem verify_rechecked (types : TypeTable) {functions' : FunctionTable}
    (rechecked : Rechecked functions functions') {id : FunctionId} {f : Function}
    (found : functions.get? id = some f) :
    ∃ snapshots, functions'.get? id = some (f.withSnapshots snapshots) ∧
      Typing.verify ⟨types, functions', f.withSnapshots snapshots⟩
        = Typing.verify ⟨types, functions, f⟩ := by
  rcases rechecked id with ⟨g, snapshots, before, after⟩ | ⟨none, _⟩
  · cases found.symm.trans before
    exact ⟨snapshots, after, Typing.verify_agrees (rechecked.agrees types f snapshots)⟩
  · cases found.symm.trans none

/-- Functions that passed the check have the snapshots that it found. -/
theorem verifyAll_eq_ok (run : ids.forM verifyOne vm = .ok () vm') :
    ∃ functions, vm' = { vm with functions } ∧ Rechecked vm.functions functions ∧
      (∀ id, id ∉ ids → functions.get? id = vm.functions.get? id) ∧
      ∀ id ∈ ids, ∀ f, vm.functions.get? id = some f →
        ∃ snapshots, Typing.verify ⟨vm.types, vm.functions, f⟩ = .ok snapshots ∧
          functions.get? id = some (f.withSnapshots snapshots) := by
  induction ids generalizing vm with
  | nil =>
    cases run
    exact ⟨vm'.functions, rfl, .refl _, fun _ _ => rfl, fun id mem => nomatch mem⟩
  | cons id rest ih =>
    rw [forM_cons_apply] at run
    obtain ⟨_, mid, first, later⟩ := bind_eq_ok_iff.mp run
    rcases verifyOne_cases id vm with ⟨none, same⟩ | ⟨_, e, _, _, same⟩ |
      ⟨f, snapshots, found, passed, same⟩
    · cases same.symm.trans first
      obtain ⟨functions, rfl, rechecked, others, checked⟩ := ih later
      refine ⟨functions, rfl, rechecked, fun id' new => others id' fun mem => new
        (List.mem_cons_of_mem _ mem), fun id' mem f found => ?_⟩
      rcases List.mem_cons.mp mem with rfl | again
      · cases none.symm.trans found
      · exact checked id' again f found
    · cases same.symm.trans first
    · cases same.symm.trans first
      obtain ⟨functions, rfl, rechecked, others, checked⟩ := ih later
      have set := FunctionTable.rechecked_set snapshots found
      refine ⟨functions, rfl, set.trans rechecked, fun id' new => ?_, fun id' mem g found' => ?_⟩
      · rw [others id' fun mem => new (List.mem_cons_of_mem _ mem)]
        dsimp only
        rw [SlotTable.get?_set, if_neg]
        rintro ⟨rfl, _⟩
        exact new List.mem_cons_self
      · by_cases again : id' ∈ rest
        · -- The function is checked once more, with the same result.
          obtain ⟨old, before, agrees⟩ := verify_rechecked vm.types set found'
          obtain ⟨last, passed', after⟩ := checked id' again _ before
          rw [Function.withSnapshots_withSnapshots] at after
          exact ⟨last, agrees.symm.trans passed', after⟩
        · have same : id' = id := (List.mem_cons.mp mem).resolve_right again
          subst same
          cases found.symm.trans found'
          have known : vm.functions.contains id' = true := by
            rw [SlotTable.contains, found]
            rfl
          refine ⟨snapshots, passed, (others id' again).trans ?_⟩
          dsimp only
          rw [SlotTable.get?_set, if_pos ⟨rfl, known⟩]

/-- Functions that passed the check are checked, whatever else was. -/
theorem verifyAll_checked (run : ids.forM verifyOne vm = .ok () vm') :
    ∃ functions, vm' = { vm with functions } ∧ Rechecked vm.functions functions ∧
      ∀ id ∈ ids, ∀ f, functions.get? id = some f → f.HasBody → CheckedIn vm.types functions f := by
  obtain ⟨functions, rfl, rechecked, _, checked⟩ := verifyAll_eq_ok run
  refine ⟨functions, rfl, rechecked, fun id mem g found body => ?_⟩
  rcases rechecked id with ⟨f, _, before, after⟩ | ⟨_, none⟩
  · obtain ⟨snapshots, passed, after⟩ := checked id mem f before
    cases found.symm.trans after
    obtain ⟨defined, closed⟩ := Typing.checked_of_verify passed
    have agrees := rechecked.agrees vm.types f snapshots
    refine ⟨by rw [Typing.checkDefinition_agrees agrees]; exact defined, ?_⟩
    rw [f.snapshots_withSnapshots snapshots ((f.hasBody_withSnapshots _).mp body)]
    exact closed.agrees agrees
  · cases none.symm.trans found

end Verify

/-! ## Compiling every function -/

section CompileAll

open Compile (Progress)

variable {vm vm' : Vm} {P : FunctionId → Prop}
variable {α : Type}

def compileOne (id : FunctionId) : EStateM VmError Vm Unit :=
  onImage fun types functions => discard (Image.compile types functions id)

variable {act : TypeTable → FunctionTable → EStateM Compile.CompileError Image α}

theorem onImage_eq_ok_iff {a : α} :
    onImage act vm = .ok a vm' ↔
      ∃ image, act vm.types vm.functions vm.image = .ok a image ∧ vm' = { vm with image } := by
  unfold onImage
  cases act vm.types vm.functions vm.image with
  | ok b image =>
    constructor
    · intro same
      cases same
      exact ⟨image, rfl, rfl⟩
    · rintro ⟨_, same, rfl⟩
      cases same
      rfl
  | error e image =>
    constructor
    · intro same
      cases same
    · rintro ⟨_, same, _⟩
      cases same

theorem onImage_eq_error {e : VmError} (run : onImage act vm = .error e vm') :
    ∃ cause image, e = .compile cause ∧ act vm.types vm.functions vm.image = .error cause image ∧
      vm' = { vm with image } := by
  unfold onImage at run
  cases acted : act vm.types vm.functions vm.image with
  | ok a image =>
    rw [acted] at run
    cases run
  | error cause image =>
    rw [acted] at run
    cases run
    exact ⟨cause, image, rfl, rfl, rfl⟩

theorem leaves_onImage (act : TypeTable → FunctionTable → EStateM Compile.CompileError Image α)
    (vm : Vm) :
    leaves (onImage act vm) = { vm with image := leaves (act vm.types vm.functions vm.image) } := by
  unfold onImage
  cases act vm.types vm.functions vm.image <;> rfl

/-- Compiling functions changes the image only. -/
theorem leaves_compileAll (ids : List FunctionId) (vm : Vm)
    (kept : vm.image.Kept P codePageSize) (bodies : ∀ id ∈ ids, P id) :
    ∃ image, leaves (ids.forM compileOne vm) = { vm with image } ∧ image.Kept P codePageSize := by
  induction ids generalizing vm with
  | nil => exact ⟨vm.image, rfl, kept⟩
  | cons id rest ih =>
    rw [forM_cons_apply]
    have left := leaves_onImage
      (fun types functions => discard (Image.compile types functions id)) vm
    have next := Compile.kept_compile vm.types vm.functions kept
      (bodies id List.mem_cons_self)
    rw [leaves_discard] at left
    cases run : compileOne id vm with
    | error e mid =>
      rw [bind_of_error run]
      exact ⟨_, (congrArg leaves run).symm.trans left, next⟩
    | ok _ mid =>
      rw [bind_of_ok run]
      have same := (congrArg leaves run).symm.trans left
      cases same
      exact ih _ next fun other mem => bodies other (List.mem_cons_of_mem _ mem)

theorem compileAll_progress (among : FunctionId → Prop) (lands : FunctionId → UInt64 → Prop)
    (run : ids.forM compileOne vm = .ok () vm') :
    ∃ image, vm' = { vm with image } ∧ vm.image.store.Evolves image.store ∧
      (image.store.Apart → Progress vm.types vm.functions vm.image among lands →
        Progress vm.types vm.functions image (fun id => id ∈ ids ∨ among id) lands) := by
  induction ids generalizing vm among with
  | nil =>
    cases run
    exact ⟨vm'.image, rfl, .refl _, fun _ progress => progress.restrict fun id mem =>
      mem.resolve_left fun no => nomatch no⟩
  | cons id rest ih =>
    rw [forM_cons_apply] at run
    obtain ⟨_, mid, first, later⟩ := bind_eq_ok_iff.mp run
    obtain ⟨image, compiled, rfl⟩ := onImage_eq_ok_iff.mp first
    obtain ⟨entry, compiled⟩ := discard_eq_ok_iff.mp compiled
    obtain ⟨c, calls, store, stored, rfl⟩ := Compile.imageCompile_eq_ok compiled
    have evolves := Compile.evolves_compile vm.types vm.functions id vm.image.store
    rw [stored] at evolves
    obtain ⟨image', rfl, evolves', progress'⟩ := ih _ later
    refine ⟨image', rfl, evolves.trans evolves', fun apart progress => ?_⟩
    refine (progress' apart (progress.compile compiled (evolves'.apart apart))).restrict ?_
    rintro other (mem | old)
    · exact (List.mem_cons.mp mem).elim (fun same => .inr (.inl same)) .inl
    · exact .inr (.inr old)

end CompileAll

/-! ## Histories -/

/-- The machines that a program can be assembled in: a fresh one, and what operations on types and
functions and attempts to load lead to. -/
inductive Assembled : Vm → Prop where
  | create {settings : Settings} {vm : Vm} (made : create settings = .ok vm) : Assembled vm
  | type {vm : Vm} (command : TypeTable.Command) (before : Assembled vm) :
      Assembled { vm with types := command.run vm.types }
  | declare {vm : Vm} (d : Definition) (before : Assembled vm) : Assembled (leaves (declare d vm))
  | define {vm : Vm} (id : FunctionId) (body : Body) (before : Assembled vm) :
      Assembled (leaves (define id body vm))
  | load {vm : Vm} (before : Assembled vm) : Assembled (leaves (load vm))

/-- What holds of a machine before its program runs. -/
structure Prepared (vm : Vm) : Prop where
  types : TypeTable.Built vm.types
  functions : vm.functions.Tidy
  image : vm.image.Kept vm.functions.HasBody codePageSize
  fresh : ∃ initial, create vm.settings = .ok initial ∧ vm.collector = initial.collector ∧
    vm.stack = initial.stack ∧ vm.calls = initial.calls

section Prepared

variable {vm : Vm}
variable {id : FunctionId}

theorem tidy_nativeFunctions : nativeFunctions.1.Tidy := by
  unfold nativeFunctions
  refine List.foldlRecOn
    (motive := fun (made : FunctionTable × Std.HashMap String FunctionId) => made.1.Tidy)
    Native.all _ FunctionTable.tidy_empty fun made tidy routine _ => ?_
  refine tidy.insert (fun body => nomatch body.1) fun other native => ?_
  cases native
  rfl

variable {settings : Settings}

/-- The parts of a machine without a program. -/
theorem create_eq_ok (made : create settings = .ok vm) :
    ∃ collector stack calls,
      Heap.Collector.commit settings.heapSize settings.journal = .ok collector ∧
      Stack.commitStack settings.stackSize = .ok stack ∧
      Stack.CallTable.commit settings.callCapacity = .ok calls ∧
      vm = ⟨settings, .primitives, nativeFunctions.1, nativeFunctions.2, .empty codePageSize,
        collector, stack, calls, "", none, false⟩ := by
  unfold create at made
  obtain ⟨_, _, made⟩ := except_bind_eq_ok_iff.mp made
  obtain ⟨collector, hasHeap, made⟩ := except_bind_eq_ok_iff.mp made
  obtain ⟨stack, hasStack, made⟩ := except_bind_eq_ok_iff.mp made
  obtain ⟨calls, hasCalls, made⟩ := except_bind_eq_ok_iff.mp made
  cases made
  exact ⟨collector, stack, calls, mapError_eq_ok_iff.mp hasHeap, mapError_eq_ok_iff.mp hasStack,
    mapError_eq_ok_iff.mp hasCalls, rfl⟩

theorem prepared_create (made : create settings = .ok vm) : Prepared vm := by
  obtain ⟨collector, stack, calls, _, _, _, rfl⟩ := create_eq_ok made
  exact ⟨.primitives, tidy_nativeFunctions, Compile.kept_empty _ _, ⟨_, made, rfl, rfl, rfl⟩⟩

theorem Prepared.type (prepared : Prepared vm) (command : TypeTable.Command) :
    Prepared { vm with types := command.run vm.types } :=
  { prepared with types := .run command prepared.types }

/-- Other functions, with bodies where the old ones have some. -/
theorem Prepared.define_functions (prepared : Prepared vm)
    {signatures : Std.HashMap String FunctionId} {main : Option FunctionId} (tidy : functions.Tidy)
    (bodies : ∀ id, vm.functions.HasBody id → functions.HasBody id) :
    Prepared { vm with functions, signatures, main } :=
  { prepared with functions := tidy, image := prepared.image.mono bodies }

theorem requireUnloaded_eq (vm : Vm) :
    requireUnloaded vm = if vm.loaded then .error (.load .alreadyLoaded) vm else .ok () vm := by
  unfold requireUnloaded
  rw [get_bind]
  split <;> rfl

theorem unloaded_or_refused (vm : Vm) :
    requireUnloaded vm = .error (.load .alreadyLoaded) vm ∨
      vm.loaded = false ∧ requireUnloaded vm = .ok () vm := by
  rw [requireUnloaded_eq]
  cases vm.loaded with
  | true => exact .inl rfl
  | false => exact .inr ⟨rfl, rfl⟩

/-- A declaration fails without a trace, or the function is registered. -/
theorem declare_cases (d : Definition) (vm : Vm) :
    (∃ e, Vm.declare d vm = .error e vm) ∨
      vm.loaded = false ∧ vm.checkDefinition d = .ok () ∧
        Vm.declare d vm
          = .ok (vm.functions.insert (.declared d)).1 (leaves (register d vm)) := by
  unfold Vm.declare
  rcases unloaded_or_refused vm with refused | ⟨unloaded, allowed⟩
  · exact .inl ⟨_, bind_of_error refused⟩
  · rw [bind_of_ok allowed, get_bind]
    cases vm.checkDefinition d with
    | error e => exact .inl ⟨e, rfl⟩
    | ok _ => exact .inr ⟨unloaded, rfl, rfl⟩

/-- A definition fails without a trace, or a function that had no body gets it. -/
theorem define_cases (id : FunctionId) (body : Body) (vm : Vm) :
    (∃ e, Vm.define id body vm = .error e vm) ∨
      ∃ f, vm.loaded = false ∧ vm.functions.get? id = some f ∧ f.implementation = .missing ∧
        Vm.define id body vm
          = .ok () { vm with functions := vm.functions.set id (f.withBody body) } := by
  unfold Vm.define
  rcases unloaded_or_refused vm with refused | ⟨unloaded, allowed⟩
  · exact .inl ⟨_, bind_of_error refused⟩
  · rw [bind_of_ok allowed, get_bind]
    cases found : vm.function? id with
    | none => exact .inl ⟨_, rfl⟩
    | some f =>
      obtain ⟨definition, implementation⟩ := f
      cases implementation with
      | missing => exact .inr ⟨_, unloaded, found, rfl, rfl⟩
      | native routine | body old snapshots => exact .inl ⟨_, rfl⟩

theorem define_of_missing (unloaded : vm.loaded = false) {f : Function}
    (found : vm.functions.get? id = some f) (missing : f.implementation = .missing) (body : Body) :
    Vm.define id body vm
      = .ok () { vm with functions := vm.functions.set id (f.withBody body) } := by
  obtain ⟨definition, _⟩ := f
  cases missing
  unfold Vm.define
  rw [bind_of_ok ((requireUnloaded_eq vm).trans (by rw [unloaded]; rfl)), get_bind,
    show vm.function? id = _ from found]
  rfl

theorem Prepared.declare (prepared : Prepared vm) (d : Definition) :
    Prepared (leaves (declare d vm)) := by
  rcases declare_cases d vm with ⟨e, refused⟩ | ⟨_, _, registered⟩
  · rw [refused]
    exact prepared
  · rw [registered]
    refine prepared.define_functions (prepared.functions.insert (f := .declared d) ?_ ?_) ?_
    · exact fun body => nomatch body.2
    · exact fun routine native => nomatch native
    · rintro id ⟨f, found, body⟩
      exact ⟨f, SlotTable.get?_insert_of_some prepared.functions.full found, body⟩

theorem Prepared.define (prepared : Prepared vm) (id : FunctionId) (body : Body) :
    Prepared (leaves (define id body vm)) := by
  rcases define_cases id body vm with ⟨e, refused⟩ | ⟨f, _, _, _, defined⟩
  · rw [refused]
    exact prepared
  · rw [defined]
    refine prepared.define_functions
      (prepared.functions.set id fun routine native => nomatch native) ?_
    rintro other ⟨g, found', body'⟩
    unfold FunctionTable.HasBody
    rw [SlotTable.get?_set]
    split
    · exact ⟨_, rfl, Function.hasBody_iff.mpr ⟨body, #[], rfl⟩⟩
    · exact ⟨g, found', body'⟩

/-- Everything but the snapshots and the image stays while a program is loaded. -/
theorem Prepared.rechecked (prepared : Prepared vm) {image : Image} {loaded : Bool}
    (rechecked : vm.functions.Rechecked functions) (tidy : functions.Tidy)
    (kept : image.Kept vm.functions.HasBody codePageSize) :
    Prepared { vm with functions, image, loaded } :=
  ⟨prepared.types, tidy, kept.mono fun id => (rechecked.hasBody_iff id).mpr, prepared.fresh⟩

def bodyIds (vm : Vm) : List FunctionId := vm.bodies.map Prod.fst

theorem mem_bodies (tidy : vm.functions.Tidy) {f : Function} :
    (id, f) ∈ vm.bodies ↔ vm.functions.get? id = some f ∧ f.HasBody := by
  have body : (!f.isNative && f.isDefined) = true ↔ f.HasBody := by
    rw [Bool.and_eq_true, Bool.not_eq_true']
    exact Iff.rfl
  unfold bodies
  rw [List.mem_filter, body]
  refine and_congr_left fun defined => ⟨fun listed => ?_, SlotTable.mem_toList_of_get?⟩
  rcases SlotTable.get?_of_mem_toList listed with found | ⟨i, slot, far, at_, value⟩
  · exact found
  · exact absurd defined (tidy.bounded i slot f far at_ value)

theorem mem_bodyIds (tidy : vm.functions.Tidy) : id ∈ vm.bodyIds ↔ vm.functions.HasBody id := by
  unfold bodyIds
  rw [List.mem_map]
  constructor
  · rintro ⟨⟨id, f⟩, mem, rfl⟩
    exact ⟨f, (mem_bodies tidy).mp mem⟩
  · rintro ⟨f, found⟩
    exact ⟨(id, f), (mem_bodies tidy).mpr found, rfl⟩

def linkAndFinish : EStateM VmError Vm Unit := do
  onImage fun _ functions => discard (Image.link functions)
  onImage fun _ _ => Image.finish
  modify ({ · with loaded := true })

theorem load_refused (loaded : vm.loaded = true) : load vm = .error (.load .alreadyLoaded) vm := by
  have refused := requireUnloaded_eq vm
  rw [if_pos loaded] at refused
  exact bind_of_error refused

theorem unloaded_of_load {vm' : Vm} (run : load vm = .ok () vm') : vm.loaded = false := by
  cases loaded : vm.loaded with
  | false => rfl
  | true => cases (load_refused loaded).symm.trans run

theorem load_eq (unloaded : vm.loaded = false) :
    load vm = (do
      MonadExcept.ofExcept (vm.checkCallees vm.bodies)
      vm.bodyIds.forM verifyOne
      vm.bodyIds.forM compileOne
      linkAndFinish : EStateM VmError Vm Unit) vm := by
  have allowed := requireUnloaded_eq vm
  rw [if_neg (by simp [unloaded])] at allowed
  have verified : vm.bodies.forM (fun entry => verifyOne entry.1) = vm.bodyIds.forM verifyOne :=
    funext (forM_map_apply Prod.fst verifyOne vm.bodies)
  have compiled : vm.bodies.forM (fun entry =>
      onImage fun types functions => discard (Image.compile types functions entry.1))
        = vm.bodyIds.forM compileOne :=
    funext (forM_map_apply Prod.fst compileOne vm.bodies)
  unfold load
  rw [bind_of_ok allowed, get_bind, get_bind, verified, compiled]
  rfl

theorem loaded_of_load {vm' : Vm} (run : load vm = .ok () vm') : vm'.loaded = true := by
  rw [load_eq (unloaded_of_load run)] at run
  obtain ⟨_, _, run⟩ := ofExcept_bind_eq_ok_iff.mp run
  obtain ⟨_, _, _, run⟩ := bind_eq_ok_iff.mp run
  obtain ⟨_, _, _, run⟩ := bind_eq_ok_iff.mp run
  obtain ⟨_, _, _, run⟩ := bind_eq_ok_iff.mp run
  obtain ⟨_, _, _, run⟩ := bind_eq_ok_iff.mp run
  cases run
  rfl

theorem leaves_linkAndFinish {P : FunctionId → Prop} (vm : Vm) (kept : vm.image.Kept P codePageSize) :
    ∃ image loaded, leaves (linkAndFinish vm) = { vm with image, loaded } ∧
      image.Kept P codePageSize := by
  unfold linkAndFinish
  have linked := leaves_onImage (fun _ functions => discard (Image.link functions)) vm
  rw [leaves_discard] at linked
  have kept' := Compile.kept_link vm.functions kept
  cases run : onImage (fun _ functions => discard (Image.link functions)) vm with
  | error e mid =>
    rw [bind_of_error run]
    exact ⟨_, vm.loaded, (congrArg leaves run).symm.trans linked, kept'⟩
  | ok _ mid =>
    rw [bind_of_ok run]
    cases (congrArg leaves run).symm.trans linked
    have finished := leaves_onImage (fun _ _ => Image.finish)
      { vm with image := leaves (Image.link vm.functions vm.image) }
    have kept'' := Compile.kept_finish kept'
    cases run' : onImage (fun _ _ => Image.finish)
        { vm with image := leaves (Image.link vm.functions vm.image) } with
    | error e last =>
      rw [bind_of_error run']
      exact ⟨_, vm.loaded, (congrArg leaves run').symm.trans finished, kept''⟩
    | ok _ last =>
      rw [bind_of_ok run']
      cases (congrArg leaves run').symm.trans finished
      exact ⟨_, true, rfl, kept''⟩

theorem Prepared.load (prepared : Prepared vm) : Prepared (leaves (load vm)) := by
  by_cases loaded : vm.loaded = true
  · rw [load_refused loaded]
    exact prepared
  · rw [load_eq (by simpa using loaded)]
    cases vm.checkCallees vm.bodies with
    | error e => exact prepared
    | ok _ =>
      show Prepared (leaves ((vm.bodyIds.forM verifyOne >>= fun _ =>
        vm.bodyIds.forM compileOne >>= fun _ => linkAndFinish) vm))
      obtain ⟨functions, left, rechecked, tidy⟩ := leaves_verifyAll vm.bodyIds vm
      have tidy := tidy prepared.functions
      cases verified : vm.bodyIds.forM verifyOne vm with
      | error e mid =>
        rw [bind_of_error verified]
        rw [verified] at left
        rw [show leaves (.error e mid) = mid from rfl] at left ⊢
        rw [left]
        exact prepared.rechecked rechecked tidy prepared.image
      | ok _ mid =>
        rw [bind_of_ok verified]
        rw [verified] at left
        cases left
        obtain ⟨image, left, kept⟩ := leaves_compileAll vm.bodyIds { vm with functions }
          prepared.image fun id mem => (mem_bodyIds prepared.functions).mp mem
        cases compiled : vm.bodyIds.forM compileOne { vm with functions } with
        | error e mid =>
          rw [bind_of_error compiled]
          rw [compiled] at left
          cases left
          exact prepared.rechecked rechecked tidy kept
        | ok _ mid =>
          rw [bind_of_ok compiled]
          rw [compiled] at left
          cases left
          obtain ⟨image', loaded', left, kept'⟩ :=
            leaves_linkAndFinish { vm with functions, image } kept
          rw [left]
          exact prepared.rechecked rechecked tidy kept'

theorem Assembled.prepared (assembled : Assembled vm) : Prepared vm := by
  induction assembled with
  | create made => exact prepared_create made
  | type command _ ih => exact ih.type command
  | declare d _ ih => exact ih.declare d
  | define id body _ ih => exact ih.define id body
  | load _ ih => exact ih.load

end Prepared

/-- Loading a program checks every function with a body and links their code. -/
theorem load_linked {vm vm' : Vm} (prepared : Prepared vm) (run : load vm = .ok () vm')
    (apart : vm'.image.store.Apart) :
    Prepared vm' ∧ vm'.loaded = true ∧ Compile.Linked vm'.types vm'.functions vm'.image ∧
      ∀ id f, vm'.functions.get? id = some f → f.HasBody →
        CheckedIn vm'.types vm'.functions f := by
  have prepared' : Prepared vm' := by
    have after := prepared.load
    rwa [run] at after
  rw [load_eq (unloaded_of_load run)] at run
  obtain ⟨_, _, rest⟩ := ofExcept_bind_eq_ok_iff.mp run
  obtain ⟨_, _, verifying, rest⟩ := bind_eq_ok_iff.mp rest
  obtain ⟨functions, rfl, rechecked, passed⟩ := verifyAll_checked verifying
  obtain ⟨_, _, compiling, rest⟩ := bind_eq_ok_iff.mp rest
  obtain ⟨image, rfl, evolves, progress⟩ :=
    compileAll_progress (fun _ => False) (fun _ _ => False) compiling
  obtain ⟨_, _, linking, rest⟩ := bind_eq_ok_iff.mp rest
  obtain ⟨linked, link, rfl⟩ := onImage_eq_ok_iff.mp linking
  obtain ⟨total, link⟩ := discard_eq_ok_iff.mp link
  obtain ⟨_, _, closing, rest⟩ := bind_eq_ok_iff.mp rest
  obtain ⟨closed, finish, rfl⟩ := onImage_eq_ok_iff.mp closing
  cases rest
  dsimp only at link finish progress passed evolves apart
  have bodies : ∀ id, functions.HasBody id ↔ id ∈ vm.bodyIds := fun id =>
    (rechecked.hasBody_iff id).trans (mem_bodyIds prepared.functions).symm
  -- The pages of every earlier store are among those of the last.
  have apartLinked : linked.store.Apart := by
    obtain ⟨_, _, rfl⟩ := Compile.finish_eq_ok finish
    exact ⟨apart.code.of_grows (CodeStore.grows_protectAll _ _),
      apart.constants.of_grows (CodeStore.grows_protectAll _ _)⟩
  have apartImage : image.store.Apart := by
    have step := (Compile.leaves_linkAll CodeStore.respects_evolves functions image.cache.pending 0
      { image with cache := { image.cache with pending := [] } }).1
    rw [show Image.linkAll functions image.cache.pending 0
      { image with cache := { image.cache with pending := [] } } = .ok total linked from link] at step
    exact step.apart apartLinked
  have initial : Compile.Progress vm.types functions vm.image (fun _ => False) fun _ _ => False :=
    ⟨prepared.image.owned, prepared.image.sound (evolves.apart apartImage),
      (fun _ no => no.elim), fun _ _ no => no.elim⟩
  obtain ⟨image', left, kept⟩ := leaves_compileAll vm.bodyIds { vm with functions } prepared.image
    fun id mem => (mem_bodyIds prepared.functions).mp mem
  rw [compiling] at left
  cases left
  refine ⟨prepared', rfl, ?_, ?_⟩
  · refine Compile.linked_of_progress (progress apartImage initial) ?_ ?_ link finish apart
    · intro id f found native defined
      exact .inl ((bodies id).mp ⟨f, found, native, defined⟩)
    · intro id found
      exact (rechecked.hasBody_iff id).mpr (kept.within id found)
  · intro id f found body
    exact passed id ((bodies id).mp ⟨f, found, body⟩) f found body

end Vm

end ManagedCode
