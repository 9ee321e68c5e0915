import ManagedCode.Compile.Image
import ManagedCode.Proofs.CodeStore

/-!
# Where the pieces of a function come to lie

The pieces of a function follow one another behind the prologue, and the offset of an instruction is
that of its first piece. After branches and self calls are settled the pieces are written to a range
of their own.

* `row_flatten`: the groups in a row are the pieces in a row.
* `Laid`: the groups of a compiled function and their offsets.
* `compileBody_spec`: what a compiled function has in the store.
-/

namespace ManagedCode.Compile

open Bytecode TypeSystem
open Memory (CodeStore PagePool)
open Target (Op Buffer)

/-! ## Rows -/

section Rows

variable {i offset start : Nat} {groups : List (List Piece)} {group pieces : List Piece}
  {p : Placed}

theorem codeLength_cons (piece : Piece) (pieces : List Piece) :
    codeLength (piece :: pieces) = piece.op.length + codeLength pieces := rfl

theorem codeLength_append (front back : List Piece) :
    codeLength (front ++ back) = codeLength front + codeLength back := by
  induction front with
  | nil => exact (Nat.zero_add _).symm
  | cons piece front ih =>
    rw [List.cons_append, codeLength_cons, codeLength_cons, ih, Nat.add_assoc]

theorem row_append (offset : Nat) (front back : List Piece) :
    Placed.row offset (front ++ back)
      = Placed.row offset front ++ Placed.row (offset + codeLength front) back := by
  induction front generalizing offset with
  | nil => rfl
  | cons piece front ih =>
    show ⟨offset, piece⟩ :: Placed.row (offset + piece.op.length) (front ++ back) = _
    rw [ih, codeLength_cons, ← Nat.add_assoc]
    rfl

/-- The offset of each group when the first starts at `start`. -/
def offsetsFrom : Nat → List (List Piece) → List Nat
  | _, [] => []
  | start, group :: rest => start :: offsetsFrom (start + codeLength group) rest

theorem length_offsetsFrom (start : Nat) (groups : List (List Piece)) :
    (offsetsFrom start groups).length = groups.length := by
  induction groups generalizing start with
  | nil => rfl
  | cons group rest ih => rw [offsetsFrom, List.length_cons, List.length_cons, ih]

theorem foldl_placeGroups (done : Array Nat) (start : Nat) (groups : List (List Piece)) :
    groups.foldl (fun (offsets, next) group => (offsets.push next, next + codeLength group))
        (done, start)
      = (done ++ (offsetsFrom start groups).toArray, start + codeLength groups.flatten) := by
  induction groups generalizing done start with
  | nil =>
    show (done, start) = (done ++ #[], start + 0)
    rw [Array.append_empty, Nat.add_zero]
  | cons group rest ih =>
    rw [List.foldl_cons, ih, List.flatten_cons, codeLength_append, Nat.add_assoc]
    refine congrArg (·, _) ?_
    apply Array.ext'
    rw [Array.toList_append, Array.toList_append, Array.toList_push, List.append_assoc]
    rfl

theorem placeGroups_eq (start : Nat) (groups : List (List Piece)) :
    placeGroups start groups
      = ((offsetsFrom start groups).toArray, start + codeLength groups.flatten) := by
  rw [placeGroups, foldl_placeGroups, Array.empty_append]

/-- The groups in a row are the pieces in a row. -/
theorem row_flatten (start : Nat) (groups : List (List Piece)) :
    ((offsetsFrom start groups).zip groups).flatMap (fun (offset, group) => Placed.row offset group)
      = Placed.row start groups.flatten := by
  induction groups generalizing start with
  | nil => rfl
  | cons group rest ih =>
    rw [offsetsFrom, List.zip_cons_cons, List.flatMap_cons, ih, List.flatten_cons, row_append]

section Rows

variable (at_ : groups[i]? = some group) (placed : (offsetsFrom start groups)[i]? = some offset)

include at_ placed

/-- The row of one group is part of the row of all. -/
theorem mem_row_flatten (mem : p ∈ Placed.row offset group) :
    p ∈ Placed.row start groups.flatten := by
  rw [← row_flatten, List.mem_flatMap]
  refine ⟨(offset, group), ?_, mem⟩
  refine List.mem_of_getElem? (i := i) ?_
  rw [List.getElem?_zip_eq_some]
  exact ⟨placed, at_⟩

/-- A group starts where the one before it ends. -/
theorem offsetsFrom_succ :
    (offsetsFrom start groups ++ [start + codeLength groups.flatten])[i + 1]?
      = some (offset + codeLength group) := by
  induction groups generalizing start i with
  | nil => cases at_
  | cons head rest ih =>
    rw [List.flatten_cons, codeLength_append, ← Nat.add_assoc]
    cases i with
    | zero =>
      cases at_
      cases placed
      cases rest <;> rfl
    | succ i => exact ih at_ placed

/-- A group lies behind the start and before the end of all. -/
theorem offsetsFrom_inside :
    start ≤ offset ∧ offset + codeLength group ≤ start + codeLength groups.flatten := by
  induction groups generalizing start i with
  | nil => cases at_
  | cons head rest ih =>
    rw [List.flatten_cons, codeLength_append]
    cases i with
    | zero =>
      cases at_
      cases placed
      omega
    | succ i =>
      have later := ih at_ placed
      omega

end Rows

/-- A group ends before a later one starts. -/
theorem offsetsFrom_mono {offset' : Nat} {j : Nat} (before : i < j) (at_ : groups[i]? = some group)
    (placed : (offsetsFrom start groups)[i]? = some offset)
    (placed' : (offsetsFrom start groups)[j]? = some offset') :
    offset + codeLength group ≤ offset' := by
  induction groups generalizing start i j with
  | nil => cases at_
  | cons head rest ih =>
    obtain ⟨j, rfl⟩ : ∃ k, j = k + 1 := ⟨j - 1, by omega⟩
    have placed' : (offsetsFrom (start + codeLength head) rest)[j]? = some offset' := placed'
    have bound : j < rest.length := by
      rw [← length_offsetsFrom (start + codeLength head) rest]
      exact (List.getElem?_eq_some_iff.mp placed').1
    cases i with
    | zero =>
      cases at_
      cases placed
      exact (offsetsFrom_inside (List.getElem?_eq_getElem bound) placed').1
    | succ i => exact ih (by omega) at_ placed placed'

theorem le_of_mem_row (mem : p ∈ Placed.row offset pieces) :
    offset ≤ p.offset ∧ p.next ≤ offset + codeLength pieces := by
  induction pieces generalizing offset with
  | nil => cases mem
  | cons piece rest ih =>
    rw [codeLength_cons]
    rcases List.mem_cons.mp mem with rfl | later
    · refine ⟨Nat.le_refl _, ?_⟩
      show offset + piece.op.length ≤ _
      omega
    · have := ih later
      omega

theorem mem_of_mem_row (mem : p ∈ Placed.row offset pieces) : p.piece ∈ pieces := by
  induction pieces generalizing offset with
  | nil => cases mem
  | cons piece rest ih =>
    rcases List.mem_cons.mp mem with rfl | later
    · exact List.mem_cons_self
    · exact List.mem_cons_of_mem _ (ih later)

/-- Two pieces of a row are the same or do not meet. -/
theorem eq_or_apart_of_mem_row {q : Placed} (memP : p ∈ Placed.row offset pieces)
    (memQ : q ∈ Placed.row offset pieces) : p = q ∨ p.next ≤ q.offset ∨ q.next ≤ p.offset := by
  induction pieces generalizing offset with
  | nil => cases memP
  | cons piece rest ih =>
    rcases List.mem_cons.mp memP with rfl | laterP <;>
      rcases List.mem_cons.mp memQ with rfl | laterQ
    · exact .inl rfl
    · exact .inr (.inl (le_of_mem_row laterQ).1)
    · exact .inr (.inr (le_of_mem_row laterP).1)
    · exact ih laterP laterQ

end Rows

/-! ## Settling -/

/-- Fills in what is known before linking. -/
def settle (offsets : Array Nat) (self : FunctionId) (entry : UInt64) (p : Placed) :
    Except CompileError Placed :=
  settleBranch offsets p >>= settleCall self entry

/-- What settling makes of a piece: a branch gets the distance to its target, a call of the
function itself the distance to the entry, and any other piece stays as it is. -/
inductive Settled (offsets : Array Nat) (self : FunctionId) (p : Placed) : Piece → Prop where
  | branch {target offset : Nat} {d : Int32} (fixup : p.piece.fixup = .branch target)
      (there : offsets[target]? = some offset) (near : distance? ((offset : Int) - p.next) = some d) :
      Settled offsets self p ⟨withDistance p.piece.op d, .none⟩
  | self (fixup : p.piece.fixup = .call self .relative) (near : p.next < 0x80000000) :
      Settled offsets self p ⟨withDistance p.piece.op (Int32.ofInt (-p.next)), .none⟩
  | kept (noBranch : ∀ target, p.piece.fixup ≠ .branch target)
      (notSelf : p.piece.fixup ≠ .call self .relative) : Settled offsets self p p.piece

section Settling

variable {offsets : Array Nat} {self : FunctionId} {entry : UInt64} {p q : Placed}

theorem settleBranch_spec (run : settleBranch offsets p = .ok q) :
    q.offset = p.offset ∧
      ((∃ target offset d, p.piece.fixup = .branch target ∧ offsets[target]? = some offset ∧
          distance? ((offset : Int) - p.next) = some d ∧
          q.piece = ⟨withDistance p.piece.op d, .none⟩) ∨
        (∀ target, p.piece.fixup ≠ .branch target) ∧ q = p) := by
  unfold settleBranch at run
  split at run
  · rename_i target fixup
    split at run
    · rename_i d found
      cases run
      obtain ⟨offset, there, near⟩ := Option.bind_eq_some_iff.mp found
      exact ⟨rfl, .inl ⟨target, offset, d, fixup, there, near, rfl⟩⟩
    · cases run
  · rename_i other
    cases run
    exact ⟨rfl, .inr ⟨other, rfl⟩⟩

theorem settle_spec (run : settle offsets self entry p = .ok q) :
    q.offset = p.offset ∧ Settled offsets self p q.piece := by
  obtain ⟨r, first, second⟩ := except_bind_eq_ok_iff.mp run
  obtain ⟨same, branch | ⟨noBranch, rfl⟩⟩ := settleBranch_spec first
  · obtain ⟨target, offset, d, fixup, there, near, piece⟩ := branch
    unfold settleCall at second
    rw [piece, if_neg (by simp)] at second
    cases second
    refine ⟨same, ?_⟩
    rw [piece]
    exact .branch fixup there near
  · unfold settleCall at second
    split at second
    · rename_i fixup
      split at second
      · rename_i near
        cases second
        exact ⟨rfl, .self fixup near⟩
      · cases second
    · rename_i notSelf
      cases second
      exact ⟨rfl, .kept noBranch notSelf⟩

theorem length_withDistance (op : Op) (d : Int32) : (withDistance op d).length = op.length := by
  cases op <;> rfl

theorem Settled.length {piece : Piece} (settled : Settled offsets self p piece) :
    piece.op.length = p.piece.op.length := by
  cases settled with
  | branch | self => exact length_withDistance _ _
  | kept => rfl

/-- Settled pieces lie where the pieces lay. -/
theorem row_settled {start : Nat} {pieces : List Piece} {settled : List Placed}
    (mapped : (Placed.row start pieces).mapM (settle offsets self entry) = .ok settled) :
    settled = Placed.row start (settled.map Placed.piece) ∧
      codeLength (settled.map Placed.piece) = codeLength pieces := by
  induction pieces generalizing start settled with
  | nil =>
    cases mapped
    exact ⟨rfl, rfl⟩
  | cons piece rest ih =>
    obtain ⟨q, more, first, others, rfl⟩ := mapM_cons_eq_ok_iff.mp mapped
    obtain ⟨offset, done⟩ := settle_spec first
    have size : q.piece.op.length = piece.op.length := done.length
    obtain ⟨row, total⟩ := ih others
    rw [List.map_cons, codeLength_cons, codeLength_cons, size, total]
    refine ⟨?_, rfl⟩
    show q :: more
      = ⟨start, q.piece⟩ :: Placed.row (start + q.piece.op.length) (more.map Placed.piece)
    rw [size, ← row, ← show q.offset = start from offset]

end Settling

/-! ## Bytes -/

section Bytes

theorem toList_loop (bytes : ByteArray) (i : Nat) (done : List UInt8) :
    ByteArray.toList.loop bytes i done = done.reverse ++ bytes.data.toList.drop i := by
  rw [ByteArray.toList.loop]
  split
  · rename_i inside
    rw [toList_loop, List.reverse_cons, List.append_assoc]
    have inside' : i < bytes.data.toList.length := inside
    rw [List.drop_eq_getElem_cons inside', List.singleton_append]
    congr 2
    show bytes.data[i]! = _
    rw [getElem!_pos bytes.data i inside, Array.getElem_toList]
  · rename_i past
    rw [List.drop_eq_nil_of_le (Nat.not_lt.mp past), List.append_nil]
termination_by bytes.size - i

theorem toList_eq_data (bytes : ByteArray) : bytes.toList = bytes.data.toList :=
  toList_loop bytes 0 []

theorem data_foldl_push (encoded : List UInt8) (bytes : ByteArray) :
    (encoded.foldl ByteArray.push bytes).data.toList = bytes.data.toList ++ encoded := by
  induction encoded generalizing bytes with
  | nil => rw [List.foldl_nil, List.append_nil]
  | cons b rest ih => rw [List.foldl_cons, ih, ByteArray.data_push, Array.toList_push,
      List.append_assoc, List.singleton_append]

/-- A buffer holds the bytes of what was emitted, in order. -/
theorem toList_emitAll (ops : List Op) (buffer : Buffer) :
    (buffer.emitAll ops).bytes.toList = buffer.bytes.toList ++ ops.flatMap Op.encode := by
  rw [toList_eq_data, toList_eq_data]
  induction ops generalizing buffer with
  | nil => rw [List.flatMap_nil, List.append_nil]; rfl
  | cons op rest ih =>
    show ((buffer.emit op).emitAll rest).bytes.data.toList = _
    rw [ih, List.flatMap_cons, ← List.append_assoc]
    exact congrArg (· ++ _) (data_foldl_push op.encode buffer.bytes)

end Bytes

/-! ## Lowered instructions -/

/-- An open operand stands in an instruction that has one, and only a call of the function itself
names its target by a distance. -/
def Piece.WellFormed (self : FunctionId) (p : Piece) : Prop :=
  match p.fixup with
  | .none => True
  | .branch _ => p.op = .jump 0 ∨ ∃ kind condition, p.op = .jumpIf kind condition 0
  | .call callee .relative => callee = self ∧ p.op = .callRelative 0
  | .call _ .absolute => p.op = .callAbsolute 0

/-- A piece that is open neither for a branch nor for a call is closed. -/
theorem Piece.WellFormed.fixup_eq_none {self : FunctionId} {p : Piece} (form : p.WellFormed self)
    (noBranch : ∀ target, p.fixup ≠ .branch target) (notSelf : p.fixup ≠ .call self .relative)
    (closed : ∀ callee, p.fixup ≠ .call callee .absolute) : p.fixup = .none := by
  unfold Piece.WellFormed at form
  split at form
  · assumption
  · rename_i target fixup
    exact absurd fixup (noBranch target)
  · rename_i callee fixup
    exact absurd (form.1 ▸ fixup) notSelf
  · rename_i callee fixup
    exact absurd fixup (closed callee)

/-- What a piece of an instruction is open for comes from the operand of the instruction. -/
def Piece.Open (i : Instr) (p : Piece) : Prop :=
  match p.fixup with
  | .none => p.op.patchOffset? = none
  | .branch target => i.target? = some target
  | .call callee _ => i.callee? = some callee

namespace Source

variable {s : Source}
variable {index : Nat} {group pieces : List Piece} {i : Instr} {callee : FunctionId}
  {onObject : Bool} {store : CodeStore}

/-- The check that a method is called on an object. -/
def checkPieces (f : Function) (onObject : Bool) : List Piece :=
  if onObject then [.done (.nullCheck (UInt16.ofNat (f.argumentCount - 1)))] else []

def callPiece (s : Source) (callee : FunctionId) : Piece :=
  if callee = s.id then ⟨.callRelative 0, .call callee .relative⟩
  else ⟨.callAbsolute 0, .call callee .absolute⟩

def resultPieces (f : Function) : List Piece :=
  if f.definition.returnType = .void then [] else [.done .pushResult]

def callPieces (s : Source) (index : Nat) (callee : FunctionId) (f : Function) (onObject : Bool) :
    List Piece :=
  checkPieces f onObject ++
    ([.done (.pushFrame s.id.toBits (UInt32.ofNat index)), s.callPiece callee, .done .popFrame]
      ++ resultPieces f)

/-- The machine instructions that calls are made of. -/
inductive Calls (s : Source) (index : Nat) (callee : FunctionId) (f : Function) : Piece → Prop where
  | collect (native : f.native? = some .collect) :
      Calls s index callee f (.done (.collect s.id.toBits (UInt32.ofNat index)))
  | printCallStack (native : f.native? = some .printCallStack) :
      Calls s index callee f (.done (.printCallStack s.id.toBits (UInt32.ofNat index)))
  | routine : Calls s index callee f ⟨.callAbsolute 0, .call callee .absolute⟩
  | check (depth : UInt16) : Calls s index callee f (.done (.nullCheck depth))
  | note : Calls s index callee f (.done (.pushFrame s.id.toBits (UInt32.ofNat index)))
  | call : Calls s index callee f (s.callPiece callee)
  | drop : Calls s index callee f (.done .popFrame)
  | result : Calls s index callee f (.done .pushResult)

theorem small_eq_ok_iff {count : Nat} {word : UInt16} :
    s.small count = .ok word ↔ count < 65536 ∧ word = UInt16.ofNat count := by
  unfold small
  split
  · rename_i fits
    exact ⟨fun same => ⟨fits, by cases same; rfl⟩, fun ⟨_, same⟩ => by rw [same]⟩
  · rename_i large
    exact ⟨(fun same => nomatch same), fun ⟨fits, _⟩ => absurd fits large⟩

theorem lowerManaged_eq_ok {f : Function}
    (lowered : s.lowerManaged index callee f onObject = .ok pieces) :
    (onObject = true → f.argumentCount - 1 < 65536) ∧
      pieces = s.callPieces index callee f onObject := by
  unfold lowerManaged at lowered
  cases onObject with
  | false =>
    cases lowered
    exact ⟨(fun no => nomatch no), rfl⟩
  | true =>
    obtain ⟨depth, fit, rest⟩ := except_bind_eq_ok_iff.mp lowered
    obtain ⟨fits, rfl⟩ := small_eq_ok_iff.mp fit
    cases rest
    exact ⟨fun _ => fits, rfl⟩

theorem wellFormed_callPiece (callee : FunctionId) : (s.callPiece callee).WellFormed s.id := by
  unfold callPiece
  split
  · rename_i same
    exact ⟨same, rfl⟩
  · exact rfl

variable {p : Piece} {constant : UInt64}

theorem calls_of_lowerCall (lowered : s.lowerCall index callee onObject = .ok pieces)
    (mem : p ∈ pieces) : ∃ f, s.functions.get? callee = some f ∧ s.Calls index callee f p := by
  unfold lowerCall at lowered
  split at lowered
  · cases lowered
  · rename_i f found
    refine ⟨f, found, ?_⟩
    split at lowered
    · cases lowered
      cases List.mem_singleton.mp mem
      exact .collect ‹_›
    · cases lowered
      cases List.mem_singleton.mp mem
      exact .printCallStack ‹_›
    · cases lowered
      cases List.mem_singleton.mp mem
      exact .routine
    · obtain ⟨_, rfl⟩ := lowerManaged_eq_ok lowered
      unfold callPieces checkPieces resultPieces at mem
      simp only [List.mem_append, List.mem_cons, List.not_mem_nil, or_false] at mem
      rcases mem with check | (rfl | rfl | rfl) | result
      · split at check
        · cases List.mem_singleton.mp check
          exact .check _
        · cases check
      · exact .note
      · exact .call
      · exact .drop
      · split at result
        · cases result
        · cases List.mem_singleton.mp result
          exact .result

/-- The machine instructions of a return. -/
theorem mem_lower_ret (lowered : s.lower index constant .ret = .ok pieces) (mem : p ∈ pieces) :
    p = .done .popResult ∨ p = .done .leave ∨
      p = .done (.ret (UInt16.ofNat s.function.argumentCount)) := by
  cases lowered
  rcases List.mem_append.mp mem with result | frame
  · split at result
    · cases result
    · exact .inl (List.mem_singleton.mp result)
  · exact .inr (by simpa using frame)

/-- An instruction that needs a width is one machine instruction. -/
theorem eq_of_width {ε : Type} {width : Except ε Target.Width} {op : Target.Width → Op}
    (lowered : (do return [Piece.done (op (← width))]) = Except.ok pieces) (mem : p ∈ pieces) :
    ∃ w, width = .ok w ∧ p = .done (op w) := by
  obtain ⟨w, moved, same⟩ := except_bind_eq_ok_iff.mp lowered
  cases same
  exact ⟨w, moved, List.mem_singleton.mp mem⟩

theorem fits_lowerCall (names : i.callee? = some callee)
    (lowered : s.lowerCall index callee onObject = .ok pieces) :
    ∀ p ∈ pieces, p.WellFormed s.id ∧ p.Open i := by
  intro p mem
  obtain ⟨f, _, made⟩ := calls_of_lowerCall lowered mem
  cases made with
  | routine => exact ⟨rfl, names⟩
  | call =>
    refine ⟨wellFormed_callPiece callee, ?_⟩
    unfold callPiece
    split <;> exact names
  | _ => exact ⟨trivial, rfl⟩

/-- The pieces of an instruction. -/
theorem fits_lower (lowered : s.lower index constant i = .ok pieces) :
    ∀ p ∈ pieces, p.WellFormed s.id ∧ p.Open i := by
  cases i with
  | nop =>
    cases lowered
    exact fun p mem => by cases mem
  | branch target =>
    cases lowered
    exact List.forall_mem_singleton.mpr ⟨.inl rfl, rfl⟩
  | branchIf condition target =>
    cases lowered
    exact List.forall_mem_singleton.mpr ⟨.inr ⟨_, _, rfl⟩, rfl⟩
  | call callee | callInstance callee => exact fits_lowerCall rfl lowered
  | ret =>
    intro p mem
    rcases mem_lower_ret lowered mem with rfl | rfl | rfl <;> exact ⟨trivial, rfl⟩
  | loadElement | storeElement | loadField | storeField =>
    intro p mem
    obtain ⟨width, _, rfl⟩ := eq_of_width lowered mem
    exact ⟨trivial, rfl⟩
  | _ =>
    cases lowered
    exact List.forall_mem_singleton.mpr ⟨trivial, rfl⟩

def prologue (s : Source) : Op :=
  .enter (UInt16.ofNat s.function.argumentCount) (UInt16.ofNat s.function.locals.length)

/-- What became of an instruction: its pieces, with the constant that it loads in the store, or
nothing where control never comes. -/
def Lowered (s : Source) (store : CodeStore) (index : Nat) (i : Instr) (group : List Piece) : Prop :=
  if s.function.isReachable index then
    ∃ constant, s.lower index constant i = .ok group ∧
      ∀ value, i = .loadFloat value → store.Constant value constant
  else group = []

theorem Lowered.fits (lowered : s.Lowered store index i group) :
    ∀ p ∈ group, p.WellFormed s.id ∧ p.Open i := by
  unfold Lowered at lowered
  split at lowered
  · obtain ⟨constant, done, _⟩ := lowered
    exact fits_lower done
  · subst lowered
    exact fun p mem => nomatch mem

theorem Lowered.evolves {store' : CodeStore} (lowered : s.Lowered store index i group)
    (keeps : store.constants.Keeps store'.constants) : s.Lowered store' index i group := by
  unfold Lowered at lowered ⊢
  split at lowered
  · rename_i reachable
    obtain ⟨constant, done, there⟩ := lowered
    rw [if_pos reachable]
    exact ⟨constant, done, fun value same => keeps _ _ (there value same)⟩
  · rename_i unreachable
    rw [if_neg unreachable]
    exact lowered

section LowerInstr

open Memory.CodeStore (RespectsConstants respects_evolves)

variable {store store' : CodeStore} {R : CodeStore → CodeStore → Prop}

theorem respects_lowerInstr (respects : RespectsConstants R) (store : CodeStore) (index : Nat)
    (i : Instr) : R store (leaves (s.lowerInstr index i store)) := by
  unfold lowerInstr
  split
  · refine respects.bind ?_ fun address t => ?_
    · rw [leaves_adaptExcept]
      exact respects.constant store _
    · rw [leaves_ofExcept]
      exact respects.refl t
  · rw [leaves_ofExcept]
    exact respects.refl store

theorem lowerInstr_spec (reachable : s.function.isReachable index = true)
    (run : s.lowerInstr index i store = .ok group store') :
    store'.code = store.code ∧ store'.executable = store.executable ∧
      (store'.Apart → store.Sound → s.Lowered store' index i group) := by
  unfold lowerInstr at run
  unfold Lowered
  rw [if_pos reachable]
  split at run
  · rename_i value
    obtain ⟨address, t, first, second⟩ := bind_eq_ok_iff.mp run
    obtain ⟨lowered, rfl⟩ := ofExcept_eq_ok_iff.mp second
    obtain ⟨code, executable, there⟩ := CodeStore.constant_spec (adaptExcept_eq_ok_iff.mp first)
    refine ⟨code, executable, fun apart sound => ⟨address, lowered, fun other same => ?_⟩⟩
    cases same
    exact there apart sound
  · rename_i other
    obtain ⟨lowered, rfl⟩ := ofExcept_eq_ok_iff.mp run
    exact ⟨rfl, rfl, fun _ _ => ⟨0, lowered, fun value same => absurd same (other value)⟩⟩

/-- The pieces of an instruction that control may not come to. -/
def lowerAt (s : Source) (at_ : Instr × Nat) : EStateM CompileError CodeStore (List Piece) :=
  if s.function.isReachable at_.2 then s.lowerInstr at_.2 at_.1 else pure []

theorem respects_lowerAt (respects : RespectsConstants R) (store : CodeStore) (at_ : Instr × Nat) :
    R store (leaves (s.lowerAt at_ store)) := by
  unfold lowerAt
  split
  · exact respects_lowerInstr respects store _ _
  · exact respects.refl store

theorem lowerAt_spec (run : s.lowerAt (i, index) store = .ok group store') :
    store'.code = store.code ∧ store'.executable = store.executable ∧
      (store'.Apart → store.Sound → s.Lowered store' index i group) := by
  unfold lowerAt at run
  split at run
  · rename_i reachable
    exact lowerInstr_spec reachable run
  · rename_i unreachable
    cases run
    refine ⟨rfl, rfl, fun _ _ => ?_⟩
    rw [Lowered, if_neg unreachable]

theorem respects_mapM_lowerAt (respects : RespectsConstants R) (instrs : List (Instr × Nat))
    (store : CodeStore) : R store (leaves (instrs.mapM s.lowerAt store)) := by
  induction instrs generalizing store with
  | nil => exact respects.refl store
  | cons at_ rest ih =>
    rw [List.mapM_cons]
    refine respects.bind (respects_lowerAt respects store at_) fun group t => ?_
    exact respects.bind (ih t) fun groups u => respects.refl u

/-- Every instruction of a body is lowered, one after the other. -/
theorem mapM_lowerAt_spec {instrs : List Instr} {start : Nat} {groups : List (List Piece)}
    (run : (instrs.zipIdx start).mapM s.lowerAt store = .ok groups store') :
    store'.code = store.code ∧ store'.executable = store.executable ∧
      groups.length = instrs.length ∧
      (store'.Apart → store.Sound → ∀ k i, instrs[k]? = some i →
        ∃ group, groups[k]? = some group ∧ s.Lowered store' (start + k) i group) := by
  induction instrs generalizing start store groups with
  | nil =>
    cases run
    exact ⟨rfl, rfl, rfl, fun _ _ k i at_ => nomatch at_⟩
  | cons head rest ih =>
    rw [List.zipIdx_cons, List.mapM_cons] at run
    obtain ⟨group, t, first, run⟩ := bind_eq_ok_iff.mp run
    obtain ⟨more, u, others, run⟩ := bind_eq_ok_iff.mp run
    cases run
    obtain ⟨code, executable, lowered⟩ := lowerAt_spec first
    obtain ⟨code', executable', length, lowered'⟩ := ih others
    have evolves := respects_lowerAt (s := s) respects_evolves.toRespectsConstants store
      (head, start)
    rw [first] at evolves
    have evolves' := respects_mapM_lowerAt (s := s) respects_evolves.toRespectsConstants
      (rest.zipIdx (start + 1)) t
    rw [others] at evolves'
    refine ⟨code'.trans code, executable'.trans executable, by simp [length], ?_⟩
    intro apart sound k i at_
    have sound' := (evolves.sound (evolves'.apart apart) sound).1
    cases k with
    | zero =>
      cases at_
      exact ⟨group, rfl, (lowered (evolves'.apart apart) sound).evolves
        (evolves'.sound apart sound').2⟩
    | succ k =>
      have later := lowered' apart sound' k i at_
      rw [Nat.add_assoc, Nat.add_comm 1 k] at later
      exact later

end LowerInstr

end Source

/-! ## Compiled functions -/

def CompiledFunction.address (c : CompiledFunction) (offset : Nat) : UInt64 :=
  c.entry + UInt64.ofNat offset

/-- The pieces of a compiled function with their offsets. -/
def placedOf (s : Source) (groups : List (List Piece)) : List Placed :=
  Placed.row s.prologue.length groups.flatten

/-- How a function was laid out: the groups of its instructions follow one another behind the
prologue. -/
structure Laid (s : Source) (store : CodeStore) (c : CompiledFunction)
    (groups : List (List Piece)) : Prop where
  function : c.function = s.id
  arguments : s.function.argumentCount < 65536
  locals : s.function.locals.length < 65536
  count : groups.length = s.function.code.size
  offsets : c.offsets = (offsetsFrom s.prologue.length groups).toArray
  size : c.size = s.prologue.length + codeLength groups.flatten
  lowered : ∀ i instr, s.function.code[i]? = some instr →
    ∃ group, groups[i]? = some group ∧ s.Lowered store i instr group

/-- The code of a function as it is written, with the calls of other functions still open. -/
structure Emitted (s : Source) (c : CompiledFunction) (groups : List (List Piece))
    (pool : PagePool) : Prop where
  taken : pool.Taken c.entry c.size
  prologue : pool.Stored c.entry s.prologue.encode
  pieces : ∀ p ∈ placedOf s groups, ∃ piece, Settled c.offsets s.id p piece ∧
    pool.Stored (c.address p.offset) piece.op.encode

def siteOf (s : Source) (c : CompiledFunction) (p : Placed) (callee : FunctionId) : CallSite :=
  ⟨s.id, callee, c.address p.operand, c.address p.next, .absolute⟩

/-- Whether a call is open in one of the pieces. -/
def OpenIn (s : Source) (c : CompiledFunction) (groups : List (List Piece)) (site : CallSite) :
    Prop :=
  ∃ p ∈ placedOf s groups, ∃ callee, p.piece.fixup = .call callee .absolute ∧
    site = siteOf s c p callee

section Compiled

open Memory.CodeStore (Respects)

variable {s : Source} {store store' : CodeStore}
variable {c : CompiledFunction} {groups : List (List Piece)} {pool : PagePool}
  {settled : List Placed} {calls : List CallSite}

section

variable (laid : Laid s store c groups)

include laid

theorem Laid.evolves (keeps : store.constants.Keeps store'.constants) : Laid s store' c groups :=
  { laid with
    lowered := fun i instr at_ =>
      let ⟨group, here, lowered⟩ := laid.lowered i instr at_
      ⟨group, here, lowered.evolves keeps⟩ }

/-- Every piece was made for an instruction. -/
theorem Laid.origin {p : Placed} (mem : p ∈ placedOf s groups) :
    ∃ i instr group, s.function.code[i]? = some instr ∧ p.piece ∈ group ∧
      s.Lowered store i instr group := by
  rw [placedOf, ← row_flatten, List.mem_flatMap] at mem
  obtain ⟨⟨offset, group⟩, mem, inside⟩ := mem
  obtain ⟨i, at_⟩ := List.mem_iff_getElem?.mp mem
  obtain ⟨_, here⟩ := List.getElem?_zip_eq_some.mp at_
  have bound : i < s.function.code.size := by
    rw [← laid.count]
    exact (List.getElem?_eq_some_iff.mp here).1
  obtain ⟨group', here', lowered⟩ := laid.lowered i _ (Array.getElem?_eq_getElem bound)
  cases here.symm.trans here'
  exact ⟨i, _, group, Array.getElem?_eq_getElem bound, mem_of_mem_row inside, lowered⟩

theorem Laid.wellFormed : ∀ p ∈ placedOf s groups, p.piece.WellFormed s.id := by
  intro p mem
  obtain ⟨_, _, group, _, here, lowered⟩ := laid.origin mem
  exact (lowered.fits _ here).1

end

/-- Bytes in a row are the bytes of each piece at its offset. -/
theorem stored_row (apart : pool.Apart) (sound : pool.Sound) {entry : UInt64} {start : Nat}
    {pieces : List Piece}
    (stored : pool.Stored (entry + UInt64.ofNat start) (pieces.flatMap (·.op.encode))) :
    ∀ p ∈ Placed.row start pieces,
      pool.Stored (entry + UInt64.ofNat p.offset) p.piece.op.encode := by
  induction pieces generalizing start with
  | nil => exact fun p mem => nomatch mem
  | cons piece rest ih =>
    rw [List.flatMap_cons] at stored
    obtain ⟨first, later⟩ := stored.append apart sound
    rw [Op.length_encode, UInt64.add_assoc, ← UInt64.ofNat_add] at later
    intro p mem
    rcases List.mem_cons.mp mem with rfl | mem
    · exact first
    · exact ih later p mem

theorem length_flatMap_encode (pieces : List Piece) :
    (pieces.flatMap (·.op.encode)).length = codeLength pieces := by
  induction pieces with
  | nil => rfl
  | cons piece rest ih =>
    rw [List.flatMap_cons, List.length_append, Op.length_encode, ih, codeLength_cons]

theorem mem_openCalls (wellFormed : ∀ p ∈ placedOf s groups, p.piece.WellFormed s.id)
    (mapped : (placedOf s groups).mapM (settle c.offsets s.id c.entry) = .ok settled)
    (site : CallSite) :
    site ∈ settled.filterMap (openCall? s.id c.entry) ↔ OpenIn s c groups site := by
  rw [List.mem_filterMap]
  constructor
  · rintro ⟨q, mem, opened⟩
    obtain ⟨p, mem', run⟩ := exists_of_mem_mapM mapped mem
    obtain ⟨same, done⟩ := settle_spec run
    have form := wellFormed p mem'
    refine ⟨p, mem', ?_⟩
    unfold openCall? Placed.operand Placed.next at opened
    rw [same] at opened
    generalize q.piece = piece at done opened
    cases done with
    | branch | self => cases opened
    | kept noBranch notSelf =>
      -- A call that is named by a distance is one of the function itself, which is settled.
      unfold Piece.WellFormed at form
      split at opened
      · rename_i callee mode fixup
        rw [fixup] at form
        cases opened
        cases mode with
        | absolute => exact ⟨callee, fixup, rfl⟩
        | relative =>
          obtain ⟨rfl, _⟩ := form
          exact absurd fixup notSelf
      · cases opened
  · rintro ⟨p, mem, callee, fixup, rfl⟩
    obtain ⟨q, mem', run⟩ := exists_of_mapM_eq_ok mapped mem
    obtain ⟨same, done⟩ := settle_spec run
    refine ⟨q, mem', ?_⟩
    unfold openCall? Placed.operand Placed.next
    rw [same]
    generalize q.piece = piece at done
    cases done with
    | branch other | self other => rw [fixup] at other; cases other
    | kept =>
      rw [fixup]
      rfl

/-- The code that is written for settled pieces. -/
theorem emitted_of_stored (apart : pool.Apart) (sound : pool.Sound)
    (taken : pool.Taken c.entry c.size)
    (mapped : (placedOf s groups).mapM (settle c.offsets s.id c.entry) = .ok settled)
    (stored : pool.Stored c.entry
      (s.prologue.encode ++ (settled.map Placed.piece).flatMap (·.op.encode))) :
    Emitted s c groups pool := by
  obtain ⟨first, later⟩ := stored.append apart sound
  rw [Op.length_encode] at later
  refine ⟨taken, first, fun p mem => ?_⟩
  obtain ⟨q, mem', run⟩ := exists_of_mapM_eq_ok mapped mem
  obtain ⟨same, done⟩ := settle_spec run
  refine ⟨q.piece, done, ?_⟩
  rw [CompiledFunction.address, ← same]
  refine stored_row apart sound later q ?_
  rw [← (row_settled mapped).1]
  exact mem'

theorem toList_emitSettled (op : Op) (settled : List Placed) :
    (Buffer.empty.emitAll (op :: settled.map (·.piece.op))).bytes.toList
      = op.encode ++ (settled.map Placed.piece).flatMap (·.op.encode) := by
  rw [toList_emitAll, List.flatMap_cons, List.flatMap_map, List.flatMap_map, toList_eq_data]
  rfl

/-- Settles the pieces of a lowered body and writes them behind the prologue. -/
def Source.emit (s : Source) (groups : List (List Piece)) :
    EStateM CompileError CodeStore (CompiledFunction × List CallSite) := do
  let offsets := (offsetsFrom s.prologue.length groups).toArray
  let size := s.prologue.length + codeLength groups.flatten
  let placed ← MonadExcept.ofExcept ((placedOf s groups).mapM (settleBranch offsets))
  let entry ← (CodeStore.allocateCode size).adaptExcept .memory
  let placed ← MonadExcept.ofExcept (placed.mapM (settleCall s.id entry))
  let calls := placed.filterMap (openCall? s.id entry)
  (CodeStore.writeCode entry
    (s.prologue.encode ++ (placed.map Placed.piece).flatMap (·.op.encode))).adaptExcept .memory
  return (⟨s.id, entry, size, offsets⟩, calls)

/-- A body is lowered and written if the slots of its frame can be counted. -/
theorem compileBody_eq (s : Source) (store : CodeStore) :
    s.compileBody store = (do
      let _ ← MonadExcept.ofExcept (s.small s.function.argumentCount)
      let _ ← MonadExcept.ofExcept (s.small s.function.locals.length)
      s.lowerBody >>= s.emit : EStateM CompileError CodeStore _) store := by
  unfold Source.compileBody
  cases arguments : s.small s.function.argumentCount with
  | error e => rfl
  | ok word =>
    cases locals : s.small s.function.locals.length with
    | error e => rfl
    | ok word' =>
      obtain ⟨_, rfl⟩ := Source.small_eq_ok_iff.mp arguments
      obtain ⟨_, rfl⟩ := Source.small_eq_ok_iff.mp locals
      refine congrArg (fun rest => (s.lowerBody >>= rest) store) (funext fun groups => ?_)
      rw [placeGroups_eq]
      dsimp only
      rw [row_flatten]
      simp only [toList_emitSettled]
      rfl

variable {R : CodeStore → CodeStore → Prop}

theorem respects_emit (respects : Respects R) (groups : List (List Piece)) (store : CodeStore) :
    R store (leaves (s.emit groups store)) := by
  unfold Source.emit
  refine respects.bind (by rw [leaves_ofExcept]; exact respects.refl _) fun branched t => ?_
  refine respects.bind (by rw [leaves_adaptExcept]; exact respects.allocateCode _ _)
    fun entry t => ?_
  refine respects.bind (by rw [leaves_ofExcept]; exact respects.refl _) fun settled t => ?_
  refine respects.bind (by rw [leaves_adaptExcept]; exact respects.writeCode _ _ _) fun _ t => ?_
  exact respects.refl t

theorem respects_compileBody (respects : Respects R) (s : Source) (store : CodeStore) :
    R store (leaves (s.compileBody store)) := by
  rw [compileBody_eq]
  refine respects.bind (by rw [leaves_ofExcept]; exact respects.refl _) fun _ t => ?_
  refine respects.bind (by rw [leaves_ofExcept]; exact respects.refl _) fun _ t => ?_
  exact respects.bind (Source.respects_mapM_lowerAt respects.toRespectsConstants _ _) fun groups u =>
    respects_emit respects groups u

variable {e : CompileError}

/-- Where code cannot be written, at most room was made for it. -/
theorem spares_of_emit_error (run : s.emit groups store = .error e store')
    (apart : store'.code.Apart) (sound : store.code.Sound) : store.code.Spares store'.code := by
  unfold Source.emit at run
  rcases ofExcept_bind_eq_error_iff.mp run with ⟨_, rfl⟩ | ⟨branched, _, run⟩
  · exact .refl _
  rcases bind_eq_error_iff.mp run with failed | ⟨entry, t, allocating, run⟩
  · obtain ⟨_, failed, _⟩ := adaptExcept_eq_error_iff.mp failed
    rw [CodeStore.allocateCode_error failed]
    exact .refl _
  obtain ⟨code, allocated, rfl⟩ :=
    CodeStore.allocateCode_eq_ok (adaptExcept_eq_ok_iff.mp allocating)
  have left : store' = { store with code } := by
    rcases ofExcept_bind_eq_error_iff.mp run with ⟨_, same⟩ | ⟨settled, _, run⟩
    · exact same
    rcases bind_eq_error_iff.mp run with failed | ⟨_, _, _, failed⟩
    · obtain ⟨_, failed, _⟩ := adaptExcept_eq_error_iff.mp failed
      exact CodeStore.writeCode_error failed
    · cases failed
  subst left
  exact (PagePool.allocate_spec (by decide) sound allocated apart).spares

theorem spares_of_compileBody_error (run : s.compileBody store = .error e store')
    (apart : store'.code.Apart) (sound : store.code.Sound) : store.code.Spares store'.code := by
  rw [compileBody_eq] at run
  rcases ofExcept_bind_eq_error_iff.mp run with ⟨_, rfl⟩ | ⟨_, _, run⟩
  · exact .refl _
  rcases ofExcept_bind_eq_error_iff.mp run with ⟨_, rfl⟩ | ⟨_, _, run⟩
  · exact .refl _
  -- Lowering puts constants only, so that the code is untouched before it is written.
  have lowered : (leaves (s.lowerBody store)).code = store.code :=
    Source.respects_mapM_lowerAt (s := s) CodeStore.respects_code _ store
  rcases bind_eq_error_iff.mp run with failed | ⟨groups, mid, lowering, failed⟩
  · rw [failed] at lowered
    have same : store'.code = store.code := lowered
    rw [same]
    exact .refl _
  · rw [lowering] at lowered
    have same : mid.code = store.code := lowered
    rw [← same] at sound ⊢
    exact spares_of_emit_error failed apart sound

/-- Settled pieces that are written to a range just handed out. -/
theorem emitted_of_written (groups : List (List Piece)) {pool' pool'' : PagePool}
    (sound : pool.Sound) (apart : pool''.Apart)
    (allocated : PagePool.allocate c.size Memory.codeAlignment pool = .ok c.entry pool')
    (written : PagePool.Written pool' c.entry
      (s.prologue.encode ++ (settled.map Placed.piece).flatMap (·.op.encode)) pool'')
    (size : c.size = s.prologue.length + codeLength groups.flatten)
    (mapped : (placedOf s groups).mapM (settle c.offsets s.id c.entry) = .ok settled) :
    Emitted s c groups pool'' ∧ pool.Keeps pool'' ∧
      ∀ b len, pool.Taken b len → pool''.Taken b len ∧ PagePool.Clear b len c.entry c.size := by
  have length : (s.prologue.encode ++ (settled.map Placed.piece).flatMap (·.op.encode)).length
      = c.size := by
    rw [List.length_append, Op.length_encode, length_flatMap_encode, (row_settled mapped).2, size]
  have done := PagePool.allocate_spec (by decide) sound allocated (apart.of_grows written.grows)
  have sound'' := written.sound done.sound
  have taken := written.taken done.taken
  have fresh : ∀ b len, pool.Taken b len →
      pool''.Taken b len ∧ PagePool.Clear b len c.entry c.size :=
    fun b len taken => ⟨written.taken (done.kept taken), done.fresh taken⟩
  rw [← length] at done
  obtain ⟨stored, keeps⟩ := PagePool.Written.stored done written
  exact ⟨emitted_of_stored apart sound'' taken mapped stored, keeps, fresh⟩

/-- What it takes to write lowered groups: the pieces settle, a range is handed out for them and
their code is written to it. -/
theorem emit_eq_ok (run : s.emit groups store = .ok (c, calls) store') :
    ∃ settled code code', c.function = s.id ∧
      c.size = s.prologue.length + codeLength groups.flatten ∧
      c.offsets = (offsetsFrom s.prologue.length groups).toArray ∧
      (placedOf s groups).mapM (settle c.offsets s.id c.entry) = .ok settled ∧
      PagePool.allocate c.size Memory.codeAlignment store.code = .ok c.entry code ∧
      PagePool.Written code c.entry
        (s.prologue.encode ++ (settled.map Placed.piece).flatMap (·.op.encode)) code' ∧
      calls = settled.filterMap (openCall? s.id c.entry) ∧ store' = { store with code := code' } := by
  unfold Source.emit at run
  obtain ⟨branched, branching, run⟩ := ofExcept_bind_eq_ok_iff.mp run
  obtain ⟨entry, opened, allocating, run⟩ := bind_eq_ok_iff.mp run
  obtain ⟨settled, calling, run⟩ := ofExcept_bind_eq_ok_iff.mp run
  obtain ⟨_, written, writing, done⟩ := bind_eq_ok_iff.mp run
  cases done
  obtain ⟨code, allocated, rfl⟩ :=
    CodeStore.allocateCode_eq_ok (adaptExcept_eq_ok_iff.mp allocating)
  obtain ⟨code', wrote, rfl⟩ := CodeStore.writeCode_eq_ok (adaptExcept_eq_ok_iff.mp writing)
  exact ⟨settled, code, code', rfl, rfl, rfl, mapM_mapM_eq_ok branching calling, allocated,
    PagePool.write_spec wrote, rfl, rfl⟩

/-- A body is lowered and then written. -/
theorem compileBody_eq_ok {result : CompiledFunction × List CallSite}
    (run : s.compileBody store = .ok result store') :
    ∃ groups mid, s.function.argumentCount < 65536 ∧ s.function.locals.length < 65536 ∧
      s.function.code.toList.zipIdx.mapM s.lowerAt store = .ok groups mid ∧
      s.emit groups mid = .ok result store' := by
  rw [compileBody_eq] at run
  obtain ⟨_, arguments, run⟩ := ofExcept_bind_eq_ok_iff.mp run
  obtain ⟨_, locals, run⟩ := ofExcept_bind_eq_ok_iff.mp run
  obtain ⟨groups, mid, lowering, run⟩ := bind_eq_ok_iff.mp run
  exact ⟨groups, mid, (Source.small_eq_ok_iff.mp arguments).1, (Source.small_eq_ok_iff.mp locals).1,
    lowering, run⟩

section

variable (run : s.compileBody store = .ok (c, calls) store')

include run

/-- What a compiled function has in the store: its own range, which holds its code, laid out as its
groups say. The calls that are returned are the open ones, and nothing that was there is lost. -/
theorem compileBody_spec (apart : store'.Apart) (sound : store.Sound) :
    ∃ groups, Laid s store' c groups ∧ Emitted s c groups store'.code ∧
      (∀ site, site ∈ calls ↔ OpenIn s c groups site) ∧ store.code.Keeps store'.code ∧
      ∀ b len, store.code.Taken b len →
        store'.code.Taken b len ∧ PagePool.Clear b len c.entry c.size := by
  obtain ⟨groups, mid, fitsA, fitsL, lowering, emitting⟩ := compileBody_eq_ok run
  have before : mid.Apart := by
    have evolves := respects_emit CodeStore.respects_evolves groups mid (s := s)
    rw [emitting] at evolves
    exact evolves.apart apart
  obtain ⟨settled, code, code', function, size, offsets, mapped, allocated, written, rfl, rfl⟩ :=
    emit_eq_ok emitting
  obtain ⟨same, _, count, lowered⟩ := Source.mapM_lowerAt_spec lowering
  rw [same] at allocated
  obtain ⟨emitted, keeps, fresh⟩ :=
    emitted_of_written groups sound.code apart.code allocated written size mapped
  have laid : Laid s mid c groups := by
    refine ⟨function, fitsA, fitsL, by rw [count, Array.length_toList], offsets, size,
      fun i instr at_ => ?_⟩
    rw [← Array.getElem?_toList] at at_
    have there := lowered before sound i instr at_
    rwa [Nat.zero_add] at there
  exact ⟨groups, laid.evolves (.refl _), emitted, mem_openCalls laid.wellFormed mapped, keeps, fresh⟩

theorem compileBody_caller : c.function = s.id ∧ ∀ site ∈ calls, site.caller = s.id := by
  obtain ⟨groups, mid, _, _, _, emitting⟩ := compileBody_eq_ok run
  obtain ⟨settled, _, _, function, _, _, _, _, _, rfl, _⟩ := emit_eq_ok emitting
  refine ⟨function, fun site mem => ?_⟩
  obtain ⟨p, _, found⟩ := List.mem_filterMap.mp mem
  unfold openCall? at found
  split at found
  · cases found
    rfl
  · cases found

end

end Compiled

end ManagedCode.Compile
