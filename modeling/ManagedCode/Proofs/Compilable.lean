import ManagedCode.Proofs.Effects
import ManagedCode.Proofs.OpenStore

/-!
# Functions that compile

A function that passes the check and calls only functions that exist compiles, unless a frame has
more slots than an instruction can name; and once all functions are compiled, every call between
them finds its target.

* `Function.SmallFrame`: the slots of a function can be named.
* `Oversized`: the one way in which compiling a checked function fails.
* `compile_error`: there is no other.
* `link_ok`: linking compiled functions succeeds.
-/

namespace ManagedCode

open Bytecode TypeSystem
open Memory (CodeStore PagePool)
open Target (Op Width)
open Typing (Checked)

namespace TypeSystem.TypeTable

/-- A type with values has one of the three widths. -/
theorem width_of_size_ne {t : TypeTable} {id : TypeId} (sized : t.size id ≠ 0) :
    ∃ width, Width.ofSize? (t.size id) = some width := by
  obtain ⟨shape, known⟩ := shape?_of_size_ne sized
  rw [size_of_shape? known] at sized ⊢
  cases shape with
  | primitive p => cases p with
    | void => exact absurd rfl sized
    | _ => exact ⟨_, rfl⟩
  | _ => exact ⟨_, rfl⟩

end TypeSystem.TypeTable

variable {f : Function}

theorem Bytecode.Function.hasBody_of_mem_code {i : Instr} (mem : i ∈ f.code) : f.HasBody := by
  rw [Function.hasBody_iff]
  unfold Function.code at mem
  cases implementation : f.implementation with
  | body b snapshots => exact ⟨b, snapshots, rfl⟩
  | _ =>
    rw [implementation] at mem
    cases Array.not_mem_empty _ mem

/-- The arguments and the locals of a function can be counted in sixteen bits. -/
def Bytecode.Function.SmallFrame (f : Function) : Prop :=
  f.argumentCount < 65536 ∧ f.locals.length < 65536

namespace Compile

/-- A frame is too large, that of some function with a body. -/
def Oversized (functions : FunctionTable) (e : CompileError) : Prop :=
  (∃ signature, e = .frameTooLarge signature) ∧
    ∃ id f, functions.get? id = some f ∧ f.HasBody ∧ ¬ f.SmallFrame

/-- Every callee of the instruction exists. -/
def Resolvable (functions : FunctionTable) (i : Instr) : Prop :=
  ∀ callee, i.callee? = some callee → ∃ f, functions.get? callee = some f ∧ f.isDefined = true

namespace Source

variable {s : Source} {e : CompileError}
variable {store store' : CodeStore} {groups : List (List Piece)}

theorem small_eq_error {count : Nat} (run : s.small count = .error e) :
    65536 ≤ count ∧ e = .frameTooLarge s.signature := by
  unfold small at run
  split at run
  · cases run
  · cases run
    exact ⟨by omega, rfl⟩

theorem width_ok {type : TypeId} (sized : s.types.size type ≠ 0) :
    ∃ width, s.width type = .ok width := by
  obtain ⟨width, found⟩ := TypeTable.width_of_size_ne sized
  refine ⟨width, ?_⟩
  unfold Source.width
  rw [found]

/-! ## Lowering -/

variable {callee : FunctionId} {instrs : List (Instr × Nat)} {pieces group : List Piece}

variable {onObject : Bool}

theorem lowerManaged_error {index : Nat} (found : s.functions.get? callee = some f)
    (body : f.HasBody) (run : s.lowerManaged index callee f onObject = .error e) :
    Oversized s.functions e := by
  unfold lowerManaged at run
  cases onObject with
  | false => cases run
  | true =>
    cases counted : s.small (f.argumentCount - 1) with
    | ok word =>
      rw [if_pos rfl, counted] at run
      cases run
    | error e' =>
      rw [if_pos rfl, counted] at run
      cases run
      obtain ⟨large, same⟩ := small_eq_error counted
      refine ⟨⟨_, same⟩, callee, f, found, body, fun fits => ?_⟩
      have := fits.1
      omega

theorem lowerCall_error {index : Nat} (found : s.functions.get? callee = some f)
    (defined : f.isDefined = true) (run : s.lowerCall index callee onObject = .error e) :
    Oversized s.functions e := by
  unfold lowerCall at run
  rw [found] at run
  dsimp only at run
  split at run
  · cases run
  · cases run
  · cases run
  · rename_i managed
    exact lowerManaged_error found ⟨by rw [Function.isNative, managed]; rfl, defined⟩ run

variable {index : Nat} {constant : UInt64} {i : Instr} {stack after : OperandTypes}

section

variable (types : s.types.WellFormed)

include types

theorem elementWidth_ok {array element : TypeId}
    (found : Typing.Scope.element ⟨s.types, s.functions, s.function⟩ array = .ok element) :
    ∃ width, s.elementWidth array = .ok width := by
  unfold Typing.Scope.element at found
  obtain ⟨_, _, found⟩ := except_bind_eq_ok_iff.mp found
  unfold elementWidth
  cases known : s.types.element? array with
  | none =>
    have known : (Typing.Scope.types ⟨s.types, s.functions, s.function⟩).element? array = none := known
    rw [known] at found
    cases found
  | some inner => exact width_ok (types.element array inner known)

theorem fieldWidth_ok {r : FieldRef}
    (found : Typing.Scope.checkField ⟨s.types, s.functions, s.function⟩ r = .ok ()) :
    ∃ width, s.width r.type = .ok width := by
  obtain ⟨layout, field, laid, at_, _, same⟩ := Typing.checkField_eq_ok found
  have fits := types.fits r.owner layout laid field (List.mem_of_getElem? at_)
  rw [← same]
  exact width_ok (fits.size ▸ fits.nonempty)

/-- An instruction that can be executed is lowered, unless it calls a function whose frame is too
large. -/
theorem lower_error (typed : Typing.step ⟨s.types, s.functions, s.function⟩ i stack = .ok after)
    (resolvable : Resolvable s.functions i) (run : s.lower index constant i = .error e) :
    Oversized s.functions e := by
  cases i with
  | call callee | callInstance callee =>
    obtain ⟨f, found, defined⟩ := resolvable callee rfl
    exact lowerCall_error found defined run
  | loadElement type | storeElement type =>
    obtain ⟨element, known, _⟩ := except_bind_eq_ok_iff.mp typed
    obtain ⟨width, moved⟩ := elementWidth_ok types known
    simp only [lower, moved] at run
    cases run
  | loadField r | storeField r =>
    obtain ⟨_, known, _⟩ := except_bind_eq_ok_iff.mp typed
    obtain ⟨width, moved⟩ := fieldWidth_ok types known
    simp only [lower, moved] at run
    cases run
  | _ => cases run

end

/-- What a checked body of calls to existing functions is given to the compiler with. -/
structure Ready (s : Source) : Prop where
  found : s.functions.get? s.id = some s.function
  body : s.function.HasBody
  types : s.types.WellFormed
  checked : Checked ⟨s.types, s.functions, s.function⟩ s.function.snapshots
  resolvable : ∀ i ∈ s.function.code, Resolvable s.functions i

/-- An instruction that control comes to can be executed. -/
theorem Ready.visited (ready : s.Ready) (at_ : s.function.code[index]? = some i)
    (reachable : s.function.isReachable index = true) :
    ∃ stack after next, Typing.step ⟨s.types, s.functions, s.function⟩ i stack = .ok after ∧
      Typing.Exploration.successors s.function.code index i = .ok next := by
  unfold Function.isReachable at reachable
  obtain ⟨stack, found⟩ := Option.isSome_iff_exists.mp reachable
  obtain ⟨snapshot, there, same⟩ := Option.bind_eq_some_iff.mp found
  have same : snapshot = some stack := same
  subst same
  obtain ⟨after, next, stepped, followed, _⟩ := ready.checked.visited index stack there i at_
  exact ⟨stack, after, next, stepped, followed⟩

section Store

open Memory.CodeStore (respects_evolves respects_open)

variable {store store' : CodeStore}

theorem lowerInstr_error (ready : s.Ready) (at_ : s.function.code[index]? = some i)
    (reachable : s.function.isReachable index = true) (opened : store.Open) (sound : store.Sound)
    (apart : store'.Apart) (run : s.lowerInstr index i store = .error e store') :
    Oversized s.functions e := by
  obtain ⟨stack, after, next, typed, follows⟩ := ready.visited at_ reachable
  have resolvable := ready.resolvable i (Array.mem_of_getElem? at_)
  unfold lowerInstr at run
  split at run
  · rename_i value
    rcases bind_eq_error_iff.mp run with failed | ⟨address, t, _, failed⟩
    · obtain ⟨e', failed, _⟩ := adaptExcept_eq_error_iff.mp failed
      have left : leaves (CodeStore.constant value store) = store' := by
        rw [failed]
        rfl
      obtain ⟨_, _, done⟩ := opened.constant_ok sound.constants (left ▸ apart.constants)
      cases failed.symm.trans done
    · exact lower_error ready.types typed resolvable (ofExcept_eq_error_iff.mp failed).1
  · exact lower_error ready.types typed resolvable (ofExcept_eq_error_iff.mp run).1

theorem mapM_lowerAt_error (ready : s.Ready)
    (each : ∀ at_ ∈ instrs, s.function.code[at_.2]? = some at_.1) (opened : store.Open)
    (sound : store.Sound) (apart : store'.Apart)
    (run : instrs.mapM s.lowerAt store = .error e store') : Oversized s.functions e := by
  induction instrs generalizing store with
  | nil => cases run
  | cons head rest ih =>
    rw [List.mapM_cons] at run
    rcases bind_eq_error_iff.mp run with failed | ⟨group, t, first, run⟩
    · unfold lowerAt at failed
      split at failed
      · rename_i reachable
        exact lowerInstr_error ready (each head List.mem_cons_self) reachable opened sound apart failed
      · cases failed
    · rcases bind_eq_error_iff.mp run with failed | ⟨_, _, _, failed⟩
      · have evolves := respects_lowerAt (s := s) respects_evolves.toRespectsConstants store head
        have opened' := respects_lowerAt (s := s) respects_open.toRespectsConstants store head opened
        have later := respects_mapM_lowerAt (s := s) respects_evolves.toRespectsConstants rest t
        rw [first] at evolves opened'
        rw [failed] at later
        exact ih (fun at_ mem => each at_ (List.mem_cons_of_mem _ mem)) opened'
          (evolves.sound (later.apart apart) sound).1 failed
      · cases failed

end Store

/-! ## Sizes -/

def lengthAt (s : Source) (at_ : Instr × Nat) : Nat :=
  if s.function.isReachable at_.2 then
    match s.lower at_.2 0 at_.1 with
    | .ok pieces => codeLength pieces
    | .error _ => 0
  else 0

def codeSize (s : Source) : Nat :=
  s.prologue.length +
    s.function.code.toList.zipIdx.foldr (fun at_ total => s.lengthAt at_ + total) 0

/-- The address of a constant does not change the size of the code. -/
theorem codeLength_lower (run : s.lower index constant i = .ok pieces) :
    ∃ pieces', s.lower index 0 i = .ok pieces' ∧ codeLength pieces' = codeLength pieces := by
  cases i with
  | loadFloat value =>
    cases run
    exact ⟨_, rfl, rfl⟩
  | _ => exact ⟨pieces, run, rfl⟩

theorem lowerInstr_eq_ok (run : s.lowerInstr index i store = .ok pieces store') :
    ∃ constant, s.lower index constant i = .ok pieces := by
  unfold lowerInstr at run
  split at run
  · obtain ⟨address, t, _, done⟩ := bind_eq_ok_iff.mp run
    exact ⟨address, (ofExcept_eq_ok_iff.mp done).1⟩
  · exact ⟨0, (ofExcept_eq_ok_iff.mp run).1⟩

theorem codeLength_lowerAt {at_ : Instr × Nat} (run : s.lowerAt at_ store = .ok group store') :
    codeLength group = s.lengthAt at_ := by
  unfold lowerAt at run
  unfold lengthAt
  split at run
  · rename_i reachable
    rw [if_pos reachable]
    obtain ⟨constant, lowered⟩ := lowerInstr_eq_ok run
    obtain ⟨pieces, same, length⟩ := codeLength_lower lowered
    rw [same]
    exact length.symm
  · rename_i unreachable
    cases run
    rw [if_neg unreachable]
    rfl

section

variable (run : instrs.mapM s.lowerAt store = .ok groups store')

include run

theorem codeLength_mapM_lowerAt :
    codeLength groups.flatten = instrs.foldr (fun at_ total => s.lengthAt at_ + total) 0 := by
  induction instrs generalizing store groups with
  | nil =>
    cases run
    rfl
  | cons head rest ih =>
    rw [List.mapM_cons] at run
    obtain ⟨group, t, first, run⟩ := bind_eq_ok_iff.mp run
    obtain ⟨more, u, others, run⟩ := bind_eq_ok_iff.mp run
    cases run
    rw [List.flatten_cons, codeLength_append, List.foldr_cons, ih others, codeLength_lowerAt first]

theorem mem_mapM_lowerAt (mem : group ∈ groups) :
    group = [] ∨ ∃ at_ ∈ instrs, s.function.isReachable at_.2 = true ∧
      ∃ constant, s.lower at_.2 constant at_.1 = .ok group := by
  induction instrs generalizing store groups with
  | nil =>
    cases run
    cases mem
  | cons head rest ih =>
    rw [List.mapM_cons] at run
    obtain ⟨first, t, lowered, run⟩ := bind_eq_ok_iff.mp run
    obtain ⟨more, u, others, run⟩ := bind_eq_ok_iff.mp run
    cases run
    rcases List.mem_cons.mp mem with rfl | later
    · unfold lowerAt at lowered
      split at lowered
      · rename_i reachable
        exact .inr ⟨head, List.mem_cons_self, reachable, lowerInstr_eq_ok lowered⟩
      · cases lowered
        exact .inl rfl
    · refine (ih others later).imp_right ?_
      rintro ⟨at_, mem, found⟩
      exact ⟨at_, List.mem_cons_of_mem _ mem, found⟩

end

/-- Branches lead to instructions of the function. -/
theorem target_lt (ready : s.Ready)
    (run : s.function.code.toList.zipIdx.mapM s.lowerAt store = .ok groups store') {piece : Piece}
    (mem : piece ∈ groups.flatten) {target : Nat} (fixup : piece.fixup = .branch target) :
    target < s.function.code.size := by
  obtain ⟨group, here, inside⟩ := List.mem_flatten.mp mem
  rcases mem_mapM_lowerAt run here with rfl | ⟨at_, listed, reachable, constant, lowered⟩
  · cases inside
  · have place : s.function.code[at_.2]? = some at_.1 := by
      rw [← Array.getElem?_toList]
      exact List.mem_zipIdx_iff_getElem?.mp listed
    have opened := (fits_lower lowered piece inside).2
    rw [Piece.Open, fixup] at opened
    obtain ⟨_, _, _, _, followed⟩ := ready.visited place reachable
    exact (Typing.Exploration.successors_eq_ok followed).1 target opened

end Source

/-! ## Settling -/

section Settling

variable {offsets : Array Nat} {p : Placed}

theorem settleBranch_ok (near : p.next < 2 ^ 31)
    (inside : ∀ target, p.piece.fixup = .branch target →
      ∃ offset, offsets[target]? = some offset ∧ offset < 2 ^ 31) :
    ∃ q, settleBranch offsets p = .ok q := by
  unfold settleBranch
  split
  · rename_i target fixup
    obtain ⟨offset, there, small⟩ := inside target fixup
    have close : distance? ((offset : Int) - p.next) = some (Int32.ofInt ((offset : Int) - p.next)) :=
      if_pos (by omega)
    rw [there, Option.bind_some, close]
    exact ⟨_, rfl⟩
  · exact ⟨p, rfl⟩

theorem next_settleBranch {q : Placed} (run : settleBranch offsets p = .ok q) : q.next = p.next := by
  obtain ⟨same, ⟨_, _, _, _, _, _, piece⟩ | ⟨_, rfl⟩⟩ := settleBranch_spec run
  · rw [Placed.next, Placed.next, same, piece, length_withDistance]
  · rfl

theorem settleCall_ok (self : FunctionId) (entry : UInt64) (near : p.next < 2 ^ 31) :
    ∃ q, settleCall self entry p = .ok q := by
  have near : p.next < 0x80000000 := near
  unfold settleCall
  rw [if_pos near]
  split <;> exact ⟨_, rfl⟩

end Settling

section Emission

open Memory.CodeStore (respects_evolves respects_open)

variable {s : Source} {store store' : CodeStore} {e : CompileError}

variable {groups : List (List Piece)}

/-- Pieces that are close enough to one another can be settled and written. -/
theorem emit_ok (short : s.prologue.length + codeLength groups.flatten < 2 ^ 31)
    (targets : ∀ piece ∈ groups.flatten, ∀ target, piece.fixup = .branch target → target < groups.length)
    (opened : store.Open) (sound : store.Sound) (apart : (leaves (s.emit groups store)).Apart) :
    ∃ result store', s.emit groups store = .ok result store' := by
  have near : ∀ p ∈ placedOf s groups, p.next < 2 ^ 31 := by
    intro p mem
    have := (le_of_mem_row mem).2
    omega
  have offsets : ∀ target, target < groups.length →
      ∃ offset, (offsetsFrom s.prologue.length groups).toArray[target]? = some offset ∧
        offset < 2 ^ 31 := by
    intro target bound
    have place := List.getElem?_eq_getElem (l := offsetsFrom s.prologue.length groups) (i := target)
      (by rw [length_offsetsFrom]; exact bound)
    have inside := offsetsFrom_inside (List.getElem?_eq_getElem bound) place
    exact ⟨_, by rw [List.getElem?_toArray]; exact place, by omega⟩
  obtain ⟨branched, branching⟩ : ∃ branched, (placedOf s groups).mapM
      (settleBranch (offsetsFrom s.prologue.length groups).toArray) = .ok branched :=
    exists_mapM_eq_ok fun p mem => settleBranch_ok (near p mem) fun target fixup =>
      offsets target (targets _ (mem_of_mem_row mem) target fixup)
  obtain ⟨entry, full, allocating⟩ := opened.allocateCode_ok
    (show s.prologue.length + codeLength groups.flatten ≤ Memory.moderateSize from Nat.le_of_lt short)
  obtain ⟨settled, calling⟩ : ∃ settled, branched.mapM (settleCall s.id entry) = .ok settled :=
    exists_mapM_eq_ok fun q mem => by
      obtain ⟨p, placed, settled⟩ := exists_of_mem_mapM branching mem
      exact settleCall_ok _ _ (by rw [next_settleBranch settled]; exact near p placed)
  have emitted : s.emit groups store = (do
      (CodeStore.writeCode entry
        (s.prologue.encode ++ (settled.map Placed.piece).flatMap (·.op.encode))).adaptExcept .memory
      return (⟨s.id, entry, s.prologue.length + codeLength groups.flatten,
        (offsetsFrom s.prologue.length groups).toArray⟩,
        settled.filterMap (openCall? s.id entry)) : EStateM CompileError CodeStore _) full := by
    unfold Source.emit
    rw [bind_of_ok (ofExcept_eq_ok_iff.mpr ⟨branching, rfl⟩),
      bind_of_ok (adaptExcept_eq_ok_iff.mpr allocating),
      bind_of_ok (ofExcept_eq_ok_iff.mpr ⟨calling, rfl⟩)]
  obtain ⟨code, allocated, rfl⟩ := CodeStore.allocateCode_eq_ok allocating
  have filled : CodeStore.Open { store with code } := by
    have after := respects_open.allocateCode store
      (s.prologue.length + codeLength groups.flatten) opened
    rwa [allocating] at after
  have length : (s.prologue.encode ++ (settled.map Placed.piece).flatMap (·.op.encode)).length
      = s.prologue.length + codeLength groups.flatten := by
    rw [List.length_append, Op.length_encode, length_flatMap_encode,
      (row_settled (mapM_mapM_eq_ok branching calling)).2]
  cases run : s.emit groups store with
  | ok result store' => exact ⟨_, _, rfl⟩
  | error e store' =>
    rw [run] at apart
    rw [emitted] at run
    rcases bind_eq_error_iff.mp run with failed | ⟨_, _, _, failed⟩
    · obtain ⟨_, failed, _⟩ := adaptExcept_eq_error_iff.mp failed
      have evolves := CodeStore.evolves_writeCode { store with code } entry
        (s.prologue.encode ++ (settled.map Placed.piece).flatMap (·.op.encode))
      rw [failed] at evolves
      have apart' := (evolves.apart apart).code
      have done := PagePool.allocate_spec (by decide) sound.code allocated apart'
      obtain ⟨last, wrote⟩ := CodeStore.Open.writeCode_ok filled apart' done.sound
        (by rw [length]; exact Nat.lt_add_right _ (CodeStore.length_pos _)) (length ▸ done.taken)
      cases failed.symm.trans wrote
    · cases failed

section

variable (ready : s.Ready) (short : s.codeSize < 2 ^ 31) (opened : store.Open) (sound : store.Sound)

include ready short opened sound

/-- What has been lowered of a checked function is written. -/
theorem emit_ok_of_lowered {mid : CodeStore} (lowering : s.lowerBody store = .ok groups mid)
    (apart : (leaves (s.emit groups mid)).Apart) :
    ∃ result store', s.emit groups mid = .ok result store' := by
  have lowering : s.function.code.toList.zipIdx.mapM s.lowerAt store = .ok groups mid := lowering
  have count : groups.length = s.function.code.size :=
    (Source.mapM_lowerAt_spec lowering).2.2.1.trans Array.length_toList
  have size : s.prologue.length + codeLength groups.flatten = s.codeSize := by
    rw [Source.codeLength_mapM_lowerAt lowering]
    rfl
  have opened' : mid.Open := by
    have after := Source.respects_mapM_lowerAt (s := s) respects_open.toRespectsConstants
      s.function.code.toList.zipIdx store opened
    rwa [lowering] at after
  have sound' : mid.Sound := by
    have evolves := Source.respects_mapM_lowerAt (s := s) respects_evolves.toRespectsConstants
      s.function.code.toList.zipIdx store
    rw [lowering] at evolves
    exact (evolves.sound ((respects_emit respects_evolves groups mid).apart apart) sound).1
  exact emit_ok (by rw [size]; exact short)
    (fun piece mem target fixup => count ▸ Source.target_lt ready lowering mem fixup) opened' sound'
    apart

/-- The body of a checked function compiles, unless a frame is too large. -/
theorem compileBody_error (apart : store'.Apart) (run : s.compileBody store = .error e store') :
    Oversized s.functions e := by
  rw [compileBody_eq] at run
  rcases ofExcept_bind_eq_error_iff.mp run with ⟨failed, _⟩ | ⟨_, _, run⟩
  · obtain ⟨large, same⟩ := Source.small_eq_error failed
    exact ⟨⟨_, same⟩, _, _, ready.found, ready.body, fun fits => by have := fits.1; omega⟩
  rcases ofExcept_bind_eq_error_iff.mp run with ⟨failed, _⟩ | ⟨_, _, run⟩
  · obtain ⟨large, same⟩ := Source.small_eq_error failed
    exact ⟨⟨_, same⟩, _, _, ready.found, ready.body, fun fits => by have := fits.2; omega⟩
  rcases bind_eq_error_iff.mp run with failed | ⟨groups, mid, lowering, failed⟩
  · refine Source.mapM_lowerAt_error ready (fun at_ mem => ?_) opened sound apart failed
    rw [← Array.getElem?_toList]
    exact List.mem_zipIdx_iff_getElem?.mp mem
  · obtain ⟨_, _, done⟩ := emit_ok_of_lowered ready short opened sound lowering
      (by rw [failed]; exact apart)
    cases failed.symm.trans done

end

end Emission

/-! ## Images -/

section Image

open Memory.CodeStore (respects_open)

variable {types : TypeTable} {functions : FunctionTable} {image image' : Image} {e : CompileError}

theorem isVerified_of_checked (checked : Checked ⟨types, functions, f⟩ f.snapshots) :
    f.isVerified = true := by
  have positive := (Array.getElem?_eq_some_iff.mp checked.entry).1
  have size : f.snapshots.size = f.code.size := checked.size
  have code : f.code.isEmpty = false := Array.isEmpty_eq_false_iff.mpr (by
    rintro empty
    rw [size, empty] at positive
    cases positive)
  have snapshots : f.snapshots.isEmpty = false := Array.isEmpty_eq_false_iff.mpr (by
    rintro empty
    rw [empty] at positive
    cases positive)
  rw [Function.isVerified, code, snapshots]
  exact Bool.or_true _

/-- A checked function compiles, unless a frame is too large. -/
theorem compile_error {id : FunctionId} (ready : (sourceOf types functions id f).Ready)
    (short : (sourceOf types functions id f).codeSize < 2 ^ 31) (opened : image.store.Open)
    (sound : image.store.Sound) (apart : image'.store.Apart)
    (run : Image.compile types functions id image = .error e image') : Oversized functions e := by
  have found : functions.get? id = some f := ready.found
  have native : f.isNative = false := ready.body.1
  have verified : f.isVerified = true := isVerified_of_checked ready.checked
  have body : Compile.compile types functions id = (sourceOf types functions id f).compileBody := by
    unfold Compile.compile
    rw [found]
    dsimp only
    rw [if_neg (by simp [native]), if_neg (by simp [verified])]
    rfl
  obtain ⟨store, stopped, rfl⟩ := imageCompile_eq_error run
  rw [body] at stopped
  exact compileBody_error ready short opened sound apart stopped

theorem patch_ok {call : CallSite} {target : UInt64} (absolute : call.mode = .absolute)
    (there : image.cache.target? functions call.callee = some target)
    (taken : image.store.code.Taken call.patchAddress 8) (opened : image.store.Open)
    (apart : image.store.code.Apart) (sound : image.store.code.Sound) :
    ∃ image', Image.patch functions call image = .ok () image' := by
  have operand : image.cache.operand functions call = .ok (encodeLE 8 target) := by
    unfold CodeCache.operand
    rw [there, absolute]
  have length : (encodeLE 8 target).length = 8 := length_encodeLE 8 target
  obtain ⟨store, wrote⟩ := opened.writeCode_ok apart sound (by rw [length]; decide)
    (length ▸ taken)
  refine ⟨{ image with store }, ?_⟩
  unfold Image.patch
  rw [get_bind, bind_of_ok (ofExcept_eq_ok_iff.mpr ⟨operand, rfl⟩)]
  exact onStore_eq_ok_iff.mpr ⟨store, adaptExcept_eq_ok_iff.mpr wrote, rfl⟩

theorem linkAll_ok {calls : List CallSite} (count : Nat)
    (each : ∀ call ∈ calls, call.mode = .absolute ∧
      (∃ target, image.cache.target? functions call.callee = some target) ∧
      image.store.code.Taken call.patchAddress 8)
    (opened : image.store.Open) (apart : image.store.code.Apart) (sound : image.store.code.Sound) :
    ∃ total image', Image.linkAll functions calls count image = .ok total image' ∧
      image'.cache = image.cache ∧ image'.store.Open := by
  induction calls generalizing image count with
  | nil => exact ⟨count, image, rfl, rfl, opened⟩
  | cons call rest ih =>
    obtain ⟨absolute, ⟨target, there⟩, taken⟩ := each call List.mem_cons_self
    obtain ⟨mid, patched⟩ := patch_ok absolute there taken opened apart sound
    have opened' : mid.store.Open := by
      obtain ⟨store, left, keeps⟩ := leaves_patch respects_open functions call image
      rw [patched] at left
      cases left
      exact keeps opened
    obtain ⟨_, code, _, written, rfl⟩ := patch_eq_ok patched absolute
    obtain ⟨total, last, linked, kept⟩ := ih (count + 1)
      (fun call mem => by
        obtain ⟨absolute, there, taken⟩ := each call (List.mem_cons_of_mem _ mem)
        exact ⟨absolute, there, written.taken taken⟩)
      opened' (written.apart apart) (written.sound sound)
    refine ⟨total, last, ?_, kept⟩
    unfold Image.linkAll
    rw [patched]
    exact linked

/-- When all functions are compiled, every call finds its target. -/
theorem link_ok {among : FunctionId → Prop} {lands : FunctionId → UInt64 → Prop}
    (progress : Progress types functions image among lands)
    (owners : ∀ site ∈ image.cache.pending, among site.caller)
    (complete : ∀ id, functions.HasBody id → among id)
    (resolvable : ∀ id f, functions.get? id = some f → f.HasBody → ∀ i ∈ f.code,
      Resolvable functions i)
    (opened : image.store.Open) (apart : image.store.Apart) :
    ∃ total image', Image.link functions image = .ok total image' ∧
      image'.cache = { image.cache with pending := [] } ∧ image'.store.Open := by
  refine linkAll_ok 0 (fun site mem => ?_) opened apart.code progress.sound.code
  obtain ⟨f, c, groups, made⟩ := progress.made _ (owners site mem)
  obtain ⟨p, placed, callee, fixup, same⟩ := made.sites site mem rfl
  obtain ⟨_, operand, next⟩ := operand_open made.laid placed fixup
  have inside := made.laid.piece_inside placed
  refine ⟨by rw [same]; rfl, ?_, ?_⟩
  · -- The callee is a routine or has been compiled.
    obtain ⟨index, i, group, at_, here, lowered⟩ := made.laid.origin placed
    have names := (lowered.fits _ here).2
    rw [Piece.Open, fixup] at names
    have mem' := Array.mem_of_getElem? at_
    obtain ⟨g, found, defined⟩ :=
      resolvable _ f made.known (Function.hasBody_of_mem_code mem') i mem' callee names
    have callee_eq : site.callee = callee := by rw [same]; rfl
    rw [callee_eq]
    unfold CodeCache.target?
    rw [found]
    dsimp only
    cases native : g.native? with
    | some routine => exact ⟨_, rfl⟩
    | none =>
      have body : g.HasBody := ⟨by rw [Function.isNative, native]; rfl, defined⟩
      obtain ⟨_, c', _, made'⟩ := progress.made callee (complete callee ⟨g, found, body⟩)
      refine ⟨c'.entry, ?_⟩
      show (image.cache.get? callee).map CompiledFunction.entry = _
      rw [made'.cached]
      rfl
  · have taken := made.taken
    have split : c.size = p.operand + (8 + (c.size - p.next)) := by omega
    rw [split] at taken
    have rest := (taken.append apart.code progress.sound.code).2
    have patch : site.patchAddress = c.address p.operand := by rw [same]; rfl
    rw [patch]
    exact (rest.append apart.code progress.sound.code).1

theorem finish_error (run : Image.finish image = .error e image') : image' = image := by
  unfold Image.finish at run
  rw [get_bind] at run
  dsimp only at run
  split at run
  · cases run
    rfl
  · rcases bind_eq_error_iff.mp run with failed | ⟨_, _, _, failed⟩
    · obtain ⟨store, refused, rfl⟩ := onStore_eq_error failed
      obtain ⟨_, sealed, _⟩ := adaptExcept_eq_error_iff.mp refused
      rw [CodeStore.makeExecutable_eq] at sealed
      split at sealed
      · cases sealed
        rfl
      · cases sealed
    · cases failed

theorem finish_ok (closed : image.cache.pending = []) (opened : image.store.Open) :
    ∃ image', Image.finish image = .ok () image' := by
  have sealed := CodeStore.makeExecutable_eq image.store
  rw [if_neg (by simp [opened.executable])] at sealed
  have run := onStore_eq_ok_iff.mpr
    ⟨_, adaptExcept_eq_ok_iff (f := CompileError.memory).mpr sealed, rfl⟩
  unfold Image.finish
  rw [get_bind, closed]
  exact ⟨_, bind_of_ok run⟩

end Image

end Compile

end ManagedCode
