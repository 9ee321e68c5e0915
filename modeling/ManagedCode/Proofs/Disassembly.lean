import ManagedCode.Proofs.Machine.Invocation

/-!
# What the code of a function decodes to

The bytes between the entry of a function and its end are the code of the prologue and of the
machine instructions that its bytecode was lowered to, with every open operand filled in. Reading
them back gives these instructions at the offsets that were noted when they were placed.

* `Renders`: machine instructions that stand for a row of pieces.
* `Resolved`: the machine instruction that stands for a piece.
* `Disassembled`: the bytes of a function decode, instruction by instruction, to what was lowered.
* `Vm.code_structure`: this holds of every function of a loaded program, and its listing shows it.
-/

variable {address : UInt64}

namespace ManagedCode.Memory.PagePool

variable {pool : PagePool}

theorem stored_nil (sound : pool.Sound) (taken : pool.Taken address 0) :
    pool.Stored address [] := by
  refine ⟨?_, taken⟩
  obtain ⟨k, page, offset, at_, here, high⟩ := taken
  have inside := sound _ _ at_
  refine ⟨k, page, at_, ?_⟩
  have bound : offset + 0 ≤ page.region.size := Nat.le_trans high inside
  exact Region.read?_of_offset? (Region.offset?_of_inside here bound)

/-- Two ranges of stored bytes that follow one another in a range that was handed out. -/
theorem Stored.join (apart : pool.Apart) (sound : pool.Sound) {front back : List UInt8}
    (taken : pool.Taken address (front.length + back.length)) (first : pool.Stored address front)
    (second : pool.Stored (address + UInt64.ofNat front.length) back) :
    pool.Stored address (front ++ back) := by
  refine ⟨?_, by rw [List.length_append]; exact taken⟩
  cases front with
  | nil =>
    have same : address + UInt64.ofNat 0 = address := UInt64.add_zero address
    rw [List.length_nil, same] at second
    exact second.holds
  | cons b front =>
    cases back with
    | nil =>
      rw [List.append_nil]
      exact first.holds
    | cons b' back =>
      have below := taken.below apart sound
      obtain ⟨k, page, offset, at_, here, high⟩ := taken
      have inside := sound _ _ at_
      rw [List.length_cons, List.length_cons] at high below
      have next : (address + UInt64.ofNat (b :: front).length).toNat
          = address.toNat + (front.length + 1) := by
        rw [UInt64.toNat_add, UInt64.toNat_ofNat', List.length_cons]
        omega
      refine Holds.join (b :: front) apart at_ ?_ ?_ (by simp) (by simp) first.holds second.holds
      · rw [contains_iff]
        omega
      · rw [contains_iff, next]
        omega

end ManagedCode.Memory.PagePool

namespace ManagedCode.Memory.CodeStore

/-- Bytes of code are read where they are held. -/
theorem read_of_holds {store : CodeStore} (apart : store.code.Apart) {bytes : List UInt8}
    (some_ : 0 < bytes.length) (holds : store.code.Holds address bytes) :
    store.read address bytes.length = .ok bytes := by
  obtain ⟨page, offset, found, here, bound, same⟩ := page?_of_holds apart some_ holds
  have read : (store.code.page? address <|> store.constants.page? address).bind
      (·.region.read? address bytes.length) = some bytes := by
    rw [found]
    show page.region.read? address bytes.length = some bytes
    rw [Region.read?_of_offset? (Region.offset?_of_inside here bound), same]
  unfold CodeStore.read
  dsimp only
  rw [read]

end ManagedCode.Memory.CodeStore

namespace ManagedCode.Compile

open Bytecode TypeSystem
open Memory (CodeStore PagePool)
open Target (Op)

/-! ## Machine instructions for pieces -/

def Line.code (lines : List Line) : List UInt8 := lines.flatMap (·.2.encode)

/-- Machine instructions that stand for pieces in a row, each at the offset of its piece and as long
as the piece. -/
inductive Renders (R : Placed → Op → Prop) : Nat → List Piece → List Line → Prop
  | nil (start : Nat) : Renders R start [] []
  | cons {start : Nat} {piece : Piece} {op : Op} {pieces : List Piece} {lines : List Line} :
      op.length = piece.op.length → R ⟨start, piece⟩ op →
      Renders R (start + piece.op.length) pieces lines →
      Renders R start (piece :: pieces) ((start, op) :: lines)

/-- Machine instructions that stand for groups of pieces in a row. -/
inductive RendersAll (R : Placed → Op → Prop) : Nat → List (List Piece) → List (List Line) → Prop
  | nil (start : Nat) : RendersAll R start [] []
  | cons {start : Nat} {group : List Piece} {block : List Line} {groups : List (List Piece)}
      {blocks : List (List Line)} : Renders R start group block →
      RendersAll R (start + codeLength group) groups blocks →
      RendersAll R start (group :: groups) (block :: blocks)

variable {group : List Piece}

section Renders

variable {R R' : Placed → Op → Prop} {start : Nat}
variable {lines : List Line} {pieces : List Piece} {groups : List (List Piece)}

theorem Renders.mono (renders : Renders R start pieces lines)
    (more : ∀ p ∈ Placed.row start pieces, ∀ op, R p op → R' p op) :
    Renders R' start pieces lines := by
  induction renders with
  | nil start => exact .nil start
  | cons length here _ ih =>
    exact .cons length (more _ List.mem_cons_self _ here)
      (ih fun p mem => more p (List.mem_cons_of_mem _ mem))

theorem exists_renders
    (each : ∀ p ∈ Placed.row start pieces, ∃ op, op.length = p.piece.op.length ∧ R p op) :
    ∃ lines, Renders R start pieces lines := by
  induction pieces generalizing start with
  | nil => exact ⟨[], .nil start⟩
  | cons piece rest ih =>
    obtain ⟨op, length, here⟩ := each _ List.mem_cons_self
    obtain ⟨lines, renders⟩ := ih fun p mem => each p (List.mem_cons_of_mem _ mem)
    exact ⟨_, .cons length here renders⟩

theorem length_code (renders : Renders R start pieces lines) :
    (Line.code lines).length = codeLength pieces := by
  induction renders with
  | nil => rfl
  | cons length _ _ ih =>
    unfold Line.code at ih ⊢
    rw [List.flatMap_cons, List.length_append, Op.length_encode, ih, codeLength_cons, length]

theorem renders_append {front back : List Piece} (renders : Renders R start (front ++ back) lines) :
    ∃ first second, lines = first ++ second ∧ Renders R start front first ∧
      Renders R (start + codeLength front) back second := by
  induction front generalizing start lines with
  | nil => exact ⟨[], lines, rfl, .nil start, renders⟩
  | cons piece front ih =>
    cases renders with
    | cons length here later =>
      obtain ⟨first, second, rfl, renders, renders'⟩ := ih later
      rw [codeLength_cons, ← Nat.add_assoc]
      exact ⟨_, second, rfl, .cons length here renders, renders'⟩

/-- Machine instructions for all pieces come in blocks, one for each group. -/
theorem Renders.blocks (renders : Renders R start groups.flatten lines) :
    ∃ blocks, lines = blocks.flatten ∧ RendersAll R start groups blocks := by
  induction groups generalizing start lines with
  | nil =>
    cases renders
    exact ⟨[], rfl, .nil start⟩
  | cons group groups ih =>
    rw [List.flatten_cons] at renders
    obtain ⟨block, rest, rfl, here, later⟩ := renders_append renders
    obtain ⟨blocks, rfl, others⟩ := ih later
    exact ⟨block :: blocks, List.flatten_cons.symm, .cons here others⟩

theorem RendersAll.length {blocks : List (List Line)} (renders : RendersAll R start groups blocks) :
    blocks.length = groups.length := by
  induction renders with
  | nil => rfl
  | cons _ _ ih => rw [List.length_cons, List.length_cons, ih]

theorem code_append (front back : List Line) :
    Line.code (front ++ back) = Line.code front ++ Line.code back :=
  List.flatMap_append

/-- The block of a group stands at the group's offset, in the bytes as among the instructions. -/
theorem RendersAll.block {blocks : List (List Line)} (renders : RendersAll R start groups blocks)
    {i offset : Nat} (at_ : groups[i]? = some group)
    (placed : (offsetsFrom start groups)[i]? = some offset) :
    ∃ block, blocks[i]? = some block ∧ Renders R offset group block ∧
      ∃ before after, Line.code blocks.flatten = before ++ (Line.code block ++ after) ∧
        start + before.length = offset := by
  induction renders generalizing i with
  | nil => cases at_
  | cons here later ih =>
    rw [List.flatten_cons, code_append]
    cases i with
    | zero =>
      cases at_
      cases placed
      exact ⟨_, rfl, here, [], _, rfl, rfl⟩
    | succ i =>
      obtain ⟨block, found, renders, before, after, split, place⟩ := ih at_ placed
      rename_i first _ _
      refine ⟨block, found, renders, Line.code first ++ before, after, ?_, ?_⟩
      · rw [split, List.append_assoc]
      · rw [List.length_append, length_code here, ← place]
        omega

/-- Bytes of pieces that are stored one by one are stored as a whole. -/
theorem stored_of_renders {pool : PagePool} (apart : pool.Apart) (sound : pool.Sound)
    {c : CompiledFunction}
    (renders : Renders (fun p op => pool.Stored (c.address p.offset) op.encode) start pieces lines)
    (taken : pool.Taken (c.address start) (codeLength pieces)) :
    pool.Stored (c.address start) (Line.code lines) := by
  induction renders with
  | nil => exact PagePool.stored_nil sound taken
  | cons length here later ih =>
    rename_i start piece op pieces lines
    have code : Line.code ((start, op) :: lines) = op.encode ++ Line.code lines := rfl
    have next : c.address (start + piece.op.length)
        = c.address start + UInt64.ofNat op.encode.length := by
      rw [CompiledFunction.address, CompiledFunction.address, UInt64.ofNat_add, Op.length_encode,
        length, UInt64.add_assoc]
    rw [codeLength_cons] at taken
    obtain ⟨_, rest⟩ := taken.append apart sound
    have rest' : pool.Taken (c.address (start + piece.op.length)) (codeLength pieces) := by
      rw [next, Op.length_encode, length]
      exact rest
    have stored := ih rest'
    rw [code]
    refine PagePool.Stored.join apart sound ?_ here (next ▸ stored)
    rw [Op.length_encode, length, length_code later]
    exact taken

/-- The code of pieces in a row decodes to their machine instructions. -/
theorem decodeAll_code {fuel : Nat} (renders : Renders R start pieces lines)
    (enough : lines.length ≤ fuel) : decodeAll fuel start (Line.code lines) = .ok lines := by
  induction renders generalizing fuel with
  | nil =>
    cases fuel <;> rfl
  | cons length here later ih =>
    rename_i start piece op pieces lines
    have code : Line.code ((start, op) :: lines) = op.encode ++ Line.code lines := rfl
    rw [List.length_cons] at enough
    obtain ⟨rounds, rfl⟩ : ∃ rounds, fuel = rounds + 1 := ⟨fuel - 1, by omega⟩
    have rest := ih (show lines.length ≤ rounds by omega)
    rw [← length] at rest
    rw [code, decodeAll, Target.decode_encode_append]
    · dsimp only
      rw [rest]
      rfl
    · intro none
      have none := congrArg List.length none
      rw [List.length_append, Op.length_encode, List.length_nil] at none
      have := CodeStore.length_pos op
      omega

theorem length_le_code (renders : Renders R start pieces lines) :
    lines.length ≤ codeLength pieces := by
  induction renders with
  | nil => exact Nat.le_refl _
  | cons _ _ _ ih =>
    rename_i piece _ _ _ _ _ _
    rw [List.length_cons, codeLength_cons]
    have := CodeStore.length_pos piece.op
    omega

end Renders

/-! ## Filled operands -/

/-- The machine instruction that stands for a piece in the end, where a call of a function goes to an
address that `lands` allows. Distances count from the end of the instruction. -/
inductive Resolved (c : CompiledFunction) (lands : FunctionId → UInt64 → Prop) (p : Placed) :
    Op → Prop
  | plain : p.piece.fixup = .none → Resolved c lands p p.piece.op
  | branch {target offset : Nat} {d : Int32} : p.piece.fixup = .branch target →
      c.offsets[target]? = some offset → (p.next : Int) + d.toInt = offset →
      Resolved c lands p (withDistance p.piece.op d)
  | self {d : Int32} : p.piece.fixup = .call c.function .relative → (p.next : Int) + d.toInt = 0 →
      Resolved c lands p (.callRelative d)
  | call {callee : FunctionId} {address : UInt64} : p.piece.fixup = .call callee .absolute →
      lands callee address → Resolved c lands p (.callAbsolute address)

variable {op : Op} {i : Instr}

section Resolved

variable {s : Source} {c : CompiledFunction} {lands : FunctionId → UInt64 → Prop} {p : Placed}

/-- A piece that is settled before linking and no call of another function. -/
theorem resolved_of_settled (function : c.function = s.id) (form : p.piece.WellFormed s.id)
    {piece : Piece} (settled : Settled c.offsets s.id p piece)
    (closed : ∀ callee, p.piece.fixup ≠ .call callee .absolute) : Resolved c lands p piece.op := by
  cases settled with
  | branch fixup there near =>
    refine .branch fixup there ?_
    rw [toInt_of_distance? near]
    omega
  | self fixup near =>
    rw [Piece.WellFormed, fixup] at form
    rw [form.2]
    refine .self (by rw [function]; exact fixup) ?_
    rw [Int32.toInt_ofInt_of_le (by omega) (by omega)]
    omega
  | kept noBranch notSelf => exact .plain (form.fixup_eq_none noBranch notSelf closed)

theorem resolved_of_filled {store : CodeStore} {groups : List (List Piece)}
    (laid : Laid s store c groups) (mem : p ∈ placedOf s groups)
    {target : FunctionId → Option UInt64} (filled : Filled c.offsets s.id target p op) :
    Resolved c (fun callee address => target callee = some address) p op := by
  cases filled with
  | settled settled closed =>
    exact resolved_of_settled laid.function (laid.wellFormed p mem) settled closed
  | call fixup there => exact .call fixup there

theorem Resolved.length (form : p.piece.WellFormed c.function) (resolved : Resolved c lands p op) :
    op.length = p.piece.op.length := by
  unfold Piece.WellFormed at form
  cases resolved with
  | plain => rfl
  | branch => exact length_withDistance _ _
  | self fixup =>
    rw [fixup] at form
    rw [form.2]
    rfl
  | call fixup =>
    rw [fixup] at form
    rw [show p.piece.op = .callAbsolute 0 from form]
    rfl

end Resolved

/-- Where a machine instruction of an instruction leads: a jump to the code of the instruction's
target, a relative call to the entry of the function itself, and any other call to where the callee
is. -/
def Reaches (c : CompiledFunction) (lands : FunctionId → UInt64 → Prop) (i : Instr) (line : Line) :
    Prop :=
  match line.2 with
  | .jump d | .jumpIf _ _ d => ∃ target offset, i.target? = some target ∧
      c.offsets[target]? = some offset ∧ ((line.1 + line.2.length : Nat) : Int) + d.toInt = offset
  | .callRelative d => i.callee? = some c.function ∧
      ((line.1 + line.2.length : Nat) : Int) + d.toInt = 0
  | .callAbsolute address => ∃ callee, i.callee? = some callee ∧ lands callee address
  | _ => True

theorem reaches_of_resolved {c : CompiledFunction} {lands : FunctionId → UInt64 → Prop} {p : Placed}
    (form : p.piece.WellFormed c.function) (opened : p.piece.Open i)
    (resolved : Resolved c lands p op) : Reaches c lands i (p.offset, op) := by
  have length := resolved.length form
  have next : p.next = p.offset + p.piece.op.length := rfl
  unfold Piece.WellFormed at form
  unfold Piece.Open at opened
  cases resolved with
  | plain fixup =>
    -- Without an open operand the instruction is neither a jump nor a call.
    rw [fixup] at opened
    have opened : p.piece.op.patchOffset? = none := opened
    unfold Reaches
    dsimp only
    cases op : p.piece.op with
    | jump | jumpIf | callRelative | callAbsolute =>
      rw [op] at opened
      cases opened
    | _ => trivial
  | branch fixup there near =>
    rw [fixup] at form opened
    have opened : i.target? = some _ := opened
    rw [next, ← length] at near
    rcases form with jump | ⟨kind, condition, jump⟩
    · rw [jump] at near ⊢
      exact ⟨_, _, opened, there, near⟩
    · rw [jump] at near ⊢
      exact ⟨_, _, opened, there, near⟩
  | self fixup near =>
    rw [fixup] at opened
    rw [next, ← length] at near
    exact ⟨opened, near⟩
  | call fixup there =>
    rw [fixup] at opened
    exact ⟨_, opened, there⟩

theorem Renders.mem {R : Placed → Op → Prop} {start : Nat} {pieces : List Piece} {lines : List Line}
    (renders : Renders R start pieces lines) {line : Line} (mem : line ∈ lines) :
    ∃ p ∈ Placed.row start pieces, p.offset = line.1 ∧ R p line.2 := by
  induction renders with
  | nil => cases mem
  | cons length here _ ih =>
    rcases List.mem_cons.mp mem with rfl | later
    · exact ⟨_, List.mem_cons_self, rfl, here⟩
    · obtain ⟨p, placed, same, stands⟩ := ih later
      exact ⟨p, List.mem_cons_of_mem _ placed, same, stands⟩

/-! ## Whole functions -/

/-- What the machine instructions of an instruction stand for: the instruction as it is lowered, or
nothing where control never comes. -/
def Source.Rendered (s : Source) (store : CodeStore) (c : CompiledFunction)
    (lands : FunctionId → UInt64 → Prop) (index : Nat) (i : Instr) (start : Nat)
    (block : List Line) : Prop :=
  ∃ group, s.Lowered store index i group ∧ Renders (Resolved c lands) start group block

/-- The code of a function read back: the prologue, then a block of machine instructions for each
instruction, at the offset that is kept for the instruction. -/
structure Disassembled (s : Source) (store : CodeStore) (c : CompiledFunction)
    (lands : FunctionId → UInt64 → Prop) (bytes : List UInt8) (blocks : List (List Line)) :
    Prop where
  length : bytes.length = c.size
  code : bytes = s.prologue.encode ++ Line.code blocks.flatten
  decodes : decodeAll c.size 0 bytes = .ok ((0, s.prologue) :: blocks.flatten)
  count : blocks.length = s.function.code.size
  offsets : c.offsets.size = s.function.code.size
  ordered : ∀ i j start start' : Nat, i ≤ j → c.offsets[i]? = some start → c.offsets[j]? = some start' →
    start ≤ start'
  rendered : ∀ i instr, s.function.code[i]? = some instr →
    ∃ start block, c.offsets[i]? = some start ∧ blocks[i]? = some block ∧
      s.Rendered store c lands i instr start block ∧ ∀ line ∈ block, Reaches c lands instr line

section Disassembled

variable {s : Source} {store : CodeStore} {c : CompiledFunction} {groups : List (List Piece)}
  {lands : FunctionId → UInt64 → Prop}

theorem Lowered.reaches (function : c.function = s.id) {index start : Nat} {block : List Line}
    (lowered : s.Lowered store index i group)
    (renders : Renders (Resolved c lands) start group block) :
    ∀ line ∈ block, Reaches c lands i line := by
  intro line mem
  obtain ⟨p, placed, same, resolved⟩ := renders.mem mem
  have here := mem_of_mem_row placed
  obtain ⟨form, opened⟩ := lowered.fits _ here
  rw [← function] at form
  have reaches := reaches_of_resolved form opened resolved
  rwa [same] at reaches

section

variable (laid : Laid s store c groups)

include laid

/-- The blocks of a function whose code is in place, and their bytes. -/
theorem exists_blocks (apart : store.Apart) (sound : store.code.Sound)
    (taken : store.code.Taken c.entry c.size)
    (prologue : store.code.Stored c.entry s.prologue.encode)
    (pieces : ∀ p ∈ placedOf s groups, ∃ op, Resolved c lands p op ∧ store.code.Stored
      (c.address p.offset) op.encode) :
    ∃ blocks, RendersAll (Resolved c lands) s.prologue.length groups blocks ∧
      Renders (Resolved c lands) s.prologue.length groups.flatten blocks.flatten ∧
      store.code.Stored c.entry (s.prologue.encode ++ Line.code blocks.flatten) := by
  have forms := laid.wellFormed
  rw [← laid.function] at forms
  obtain ⟨lines, renders⟩ : ∃ lines, Renders (fun p op => Resolved c lands p op ∧
      store.code.Stored (c.address p.offset) op.encode) s.prologue.length groups.flatten lines := by
    refine exists_renders fun p mem => ?_
    obtain ⟨op, resolved, stored⟩ := pieces p mem
    exact ⟨op, resolved.length (forms p mem), resolved, stored⟩
  have resolved := renders.mono fun p _ op both => both.1
  have written := renders.mono fun p _ op both => both.2
  obtain ⟨blocks, rfl, all⟩ := Renders.blocks resolved
  refine ⟨blocks, all, resolved, ?_⟩
  have size := laid.size
  have entry : c.address s.prologue.length
      = c.entry + UInt64.ofNat s.prologue.encode.length := by
    rw [Op.length_encode]
    rfl
  have whole := taken
  rw [size] at whole
  have rest := (whole.append apart.code sound).2
  have stored := stored_of_renders apart.code sound written rest
  rw [entry] at stored
  refine PagePool.Stored.join apart.code sound ?_ prologue stored
  rw [Op.length_encode, length_code resolved, ← size]
  exact taken

theorem Laid.ordered {i j start start' : Nat} (before : i ≤ j) (at_ : c.offsets[i]? = some start)
    (at' : c.offsets[j]? = some start') : start ≤ start' := by
  rw [laid.offsets, List.getElem?_toArray] at at_ at'
  rcases Nat.eq_or_lt_of_le before with rfl | before
  · cases at_.symm.trans at'
    exact Nat.le_refl _
  · have bound := (List.getElem?_eq_some_iff.mp at_).1
    rw [length_offsetsFrom] at bound
    exact Nat.le_trans (Nat.le_add_right _ _)
      (offsetsFrom_mono before (List.getElem?_eq_getElem bound) at_ at')

theorem Laid.size_offsets : c.offsets.size = s.function.code.size := by
  rw [laid.offsets, List.size_toArray, length_offsetsFrom, laid.count]

theorem Laid.disassembled {blocks : List (List Line)}
    (all : RendersAll (Resolved c lands) s.prologue.length groups blocks)
    (renders : Renders (Resolved c lands) s.prologue.length groups.flatten blocks.flatten) :
    Disassembled s store c lands (s.prologue.encode ++ Line.code blocks.flatten) blocks := by
  have size := laid.size
  have prologue : s.prologue.length = 5 := rfl
  refine ⟨?_, rfl, ?_, all.length.trans laid.count, laid.size_offsets,
    fun i j start start' before at_ at' => laid.ordered before at_ at', fun i instr at_ => ?_⟩
  · rw [List.length_append, Op.length_encode, length_code renders, size]
  · have enough := length_le_code renders
    obtain ⟨rounds, more⟩ : ∃ rounds, c.size = rounds + 1 := ⟨c.size - 1, by omega⟩
    rw [more, decodeAll, Target.decode_encode_append]
    · dsimp only
      rw [Nat.zero_add, decodeAll_code renders (by omega)]
      rfl
    · intro none
      have none := congrArg List.length none
      rw [List.length_append, Op.length_encode, List.length_nil] at none
      omega
  · obtain ⟨group, here, lowered⟩ := laid.lowered i instr at_
    have bound : i < c.offsets.size := by
      rw [laid.size_offsets]
      exact (Array.getElem?_eq_some_iff.mp at_).1
    obtain ⟨start, place⟩ : ∃ start, c.offsets[i]? = some start :=
      ⟨_, Array.getElem?_eq_getElem bound⟩
    have placed := place
    rw [laid.offsets, List.getElem?_toArray] at placed
    obtain ⟨block, found, stands, _⟩ := all.block here placed
    exact ⟨start, block, place, found, ⟨group, lowered, stands⟩,
      Lowered.reaches laid.function lowered stands⟩

/-- Code that stands in the store is read back and decodes block by block. -/
theorem exists_disassembled (apart : store.Apart) (sound : store.code.Sound)
    (taken : store.code.Taken c.entry c.size)
    (prologue : store.code.Stored c.entry s.prologue.encode)
    (pieces : ∀ p ∈ placedOf s groups, ∃ op, Resolved c lands p op ∧ store.code.Stored
      (c.address p.offset) op.encode) :
    ∃ blocks, RendersAll (Resolved c lands) s.prologue.length groups blocks ∧
      store.read c.entry c.size = .ok (s.prologue.encode ++ Line.code blocks.flatten) ∧
      Disassembled s store c lands (s.prologue.encode ++ Line.code blocks.flatten) blocks := by
  obtain ⟨blocks, all, renders, stored⟩ := exists_blocks laid apart sound taken prologue pieces
  have structured := laid.disassembled all renders
  have positive : 0 < c.size := by
    rw [laid.size]
    exact Nat.lt_add_right _ (CodeStore.length_pos _)
  have read := CodeStore.read_of_holds apart.code (structured.length ▸ positive) stored.holds
  rw [structured.length] at read
  exact ⟨blocks, all, read, structured⟩

end

end Disassembled

/-! ## Listings -/

section Listings

theorem toList_extract (bytes : List UInt8) (start stop : Nat) :
    ((ByteArray.mk bytes.toArray).extract start stop).toList
      = (bytes.drop start).take (stop - start) := by
  rw [toList_eq_data, ByteArray.data_extract, Array.toList_extract]

/-- The machine instructions of a block are read back from its range. -/
theorem decodeRange_middle {R : Placed → Op → Prop} {pieces : List Piece} {lines : List Line}
    {start stop : Nat} (renders : Renders R start pieces lines) (before after : List UInt8)
    (first : before.length = start) (last : stop = start + codeLength pieces) :
    decodeRange ⟨(before ++ (Line.code lines ++ after)).toArray⟩ start stop = .ok lines := by
  have length := length_code renders
  unfold decodeRange
  rw [toList_extract, ← first, List.drop_left, first, List.take_append_of_le_length (by omega),
    List.take_of_length_le (by omega)]
  exact decodeAll_code renders (by have := length_le_code renders; omega)

theorem filterMapM_eq_ok {ε α β : Type} {f : α → Except ε (Option β)} {g : α → β} {l : List α}
    (each : ∀ a ∈ l, f a = .ok (some (g a))) : l.filterMapM f = .ok (l.map g) := by
  induction l with
  | nil => rfl
  | cons a rest ih =>
    rw [List.filterMapM_cons, each a List.mem_cons_self,
      ih fun b mem => each b (List.mem_cons_of_mem _ mem)]
    rfl

variable {s : Source} {store : CodeStore} {c : CompiledFunction} {groups : List (List Piece)}
  {lands : FunctionId → UInt64 → Prop} {blocks : List (List Line)}

def listed (code : Array Instr) (blocks : List (List Line)) : List ListingEntry :=
  code.toList.zipIdx.map fun (instr, index) => ⟨index, instr, (blocks[index]?).getD []⟩

theorem flatMap_listed {code : Array Instr} (count : blocks.length = code.size) :
    (listed code blocks).flatMap ListingEntry.code = blocks.flatten := by
  unfold listed
  rw [List.flatMap_map, List.flatMap_def]
  congr 1
  apply List.ext_getElem?
  intro i
  rw [List.getElem?_map, List.getElem?_zipIdx]
  by_cases inside : i < code.size
  · rw [List.getElem?_eq_getElem (by simpa using inside), List.getElem?_eq_getElem (by omega)]
    simp [count, inside]
  · rw [List.getElem?_eq_none (by simpa using inside), List.getElem?_eq_none (by omega)]
    rfl

/-- The listing of a function shows the prologue and the blocks of its instructions. -/
theorem listing_eq_ok (laid : Laid s store c groups)
    (all : RendersAll (Resolved c lands) s.prologue.length groups blocks)
    (read : store.read c.entry c.size = .ok (s.prologue.encode ++ Line.code blocks.flatten))
    (short : c.size < 0x100000000) :
    listing s.types store s.function c = .ok ⟨s.function.signature s.types, c.entry,
      [(0, s.prologue)], listed s.function.code blocks⟩ := by
  have size := laid.size
  have ending : c.endOffset = c.size := Nat.mod_eq_of_lt short
  have prologue : c.prologueSize = s.prologue.length := by
    unfold CompiledFunction.prologueSize
    rw [laid.offsets, List.getElem?_toArray, ending, size]
    cases groups <;> rfl
  have first : decodeRange ⟨(s.prologue.encode ++ Line.code blocks.flatten).toArray⟩ 0
      c.prologueSize = .ok [(0, s.prologue)] := by
    have alone : Renders (fun _ _ => True) 0 [.done s.prologue] [(0, s.prologue)] :=
      .cons rfl trivial (.nil _)
    rw [prologue]
    exact decodeRange_middle alone [] _ rfl (Nat.zero_add _).symm
  unfold listing
  rw [read]
  refine except_bind_eq_ok_iff.mpr ⟨_, rfl, except_bind_eq_ok_iff.mpr ⟨_, first,
    except_bind_eq_ok_iff.mpr ⟨_, filterMapM_eq_ok fun at_ mem => ?_, rfl⟩⟩⟩
  obtain ⟨instr, index⟩ := at_
  rw [List.mem_zipIdx_iff_getElem?, Array.getElem?_toList] at mem
  obtain ⟨group, here, _⟩ := laid.lowered index instr mem
  have bound : index < (offsetsFrom s.prologue.length groups).length := by
    rw [length_offsetsFrom]
    exact (List.getElem?_eq_some_iff.mp here).1
  have place := List.getElem?_eq_getElem bound
  obtain ⟨block, found, stands, before, after, split, at_⟩ := all.block here place
  have stop : ((offsetsFrom s.prologue.length groups)[index + 1]?).getD c.endOffset
      = (offsetsFrom s.prologue.length groups)[index] + codeLength group := by
    have next := offsetsFrom_succ here place
    rw [← size] at next
    by_cases more : index + 1 < (offsetsFrom s.prologue.length groups).length
    · rw [List.getElem?_append_left more] at next
      rw [next]
      rfl
    · rw [List.getElem?_append_right (by omega),
        show index + 1 - (offsetsFrom s.prologue.length groups).length = 0 by omega] at next
      rw [List.getElem?_eq_none (by omega), ending]
      exact Option.some.inj next
  have range : c.range? index = some ((offsetsFrom s.prologue.length groups)[index],
      (offsetsFrom s.prologue.length groups)[index] + codeLength group) := by
    unfold CompiledFunction.range?
    rw [laid.offsets, List.getElem?_toArray, List.getElem?_toArray, place, stop]
    rfl
  have read : decodeRange ⟨(s.prologue.encode ++ Line.code blocks.flatten).toArray⟩
      (offsetsFrom s.prologue.length groups)[index]
      ((offsetsFrom s.prologue.length groups)[index] + codeLength group) = .ok block := by
    rw [split, ← List.append_assoc]
    refine decodeRange_middle stands _ _ ?_ rfl
    rw [List.length_append, Op.length_encode]
    exact at_
  dsimp only
  rw [range, found]
  dsimp only
  rw [read]
  rfl

end Listings

end ManagedCode.Compile

namespace ManagedCode.Vm

open Bytecode
open Compile (Disassembled Line listed sourceOf)

/-- In a loaded program the bytes of every function decode to its prologue and the machine
instructions of its reachable instructions, every jump and every call leads to where its operand
says, and the listing of the function shows just these machine instructions. -/
theorem code_structure {vm vm' : Vm} (assembled : Assembled vm) (run : load vm = .ok () vm')
    (apart : vm'.image.store.Apart) {id : FunctionId} {f : Function}
    (found : vm'.functions.get? id = some f) (body : f.HasBody)
    (short : ∀ c, vm'.image.cache.get? id = some c → c.size < 2 ^ 31) :
    ∃ c bytes blocks, vm'.image.cache.get? id = some c ∧
      vm'.image.store.read c.entry c.size = .ok bytes ∧
      Disassembled (sourceOf vm'.types vm'.functions id f) vm'.image.store c
        (fun callee address => vm'.image.cache.target? vm'.functions callee = some address)
        bytes blocks ∧
      ∃ l, vm'.listing id = .ok l ∧ l.entry = c.entry ∧
        l.prologue = [(0, (sourceOf vm'.types vm'.functions id f).prologue)] ∧
        l.entries = listed f.code blocks ∧
        Line.code (l.prologue ++ l.entries.flatMap (·.code)) = bytes := by
  obtain ⟨_, _, linked, _⟩ := load_linked assembled.prepared run apart
  obtain ⟨c, groups, cached, laid, inPlace⟩ := linked.code id f found body.1 body.2
  have small := short c cached
  obtain ⟨blocks, all, read, structured⟩ := Compile.exists_disassembled laid apart
    linked.sound.code inPlace.taken inPlace.prologue fun p mem => by
      obtain ⟨op, filled, stored⟩ := inPlace.pieces p mem
      exact ⟨op, Compile.resolved_of_filled laid mem filled, stored⟩
  have shown := Compile.listing_eq_ok laid all read (by omega)
  have answer : vm'.listing id = .ok ⟨f.signature vm'.types, c.entry,
      [(0, (sourceOf vm'.types vm'.functions id f).prologue)], listed f.code blocks⟩ := by
    unfold listing function?
    rw [found]
    dsimp only
    rw [cached]
    exact congrArg (Except.mapError VmError.compile) shown
  refine ⟨c, _, blocks, cached, read, structured, _, answer, rfl, rfl, rfl, ?_⟩
  have entries : (listed f.code blocks).flatMap (·.code) = blocks.flatten :=
    Compile.flatMap_listed structured.count
  exact (Compile.code_append _ _).trans (congrArg (_ ++ Line.code ·) entries)

theorem code_structure_seven : ∃ f c bytes blocks,
    Sample.machine.functions.get? Sample.seven = some f ∧
      Sample.machine.image.cache.get? Sample.seven = some c ∧
      Sample.machine.image.store.read c.entry c.size = .ok bytes ∧
      Disassembled (sourceOf Sample.machine.types Sample.machine.functions Sample.seven f)
        Sample.machine.image.store c
        (fun callee address =>
          Sample.machine.image.cache.target? Sample.machine.functions callee = some address)
        bytes blocks := by
  have defined : (Sample.machine.functions.get? Sample.seven).any
      (fun f => !f.isNative && f.isDefined) = true := by
    decide +kernel
  obtain ⟨f, found, body⟩ := (Option.any_eq_true _ _).mp defined
  rw [Bool.and_eq_true, Bool.not_eq_true'] at body
  have small : (Sample.machine.image.cache.get? Sample.seven).all (·.size < 2 ^ 31) = true := by
    decide +kernel
  obtain ⟨c, bytes, blocks, cached, read, structured, _⟩ :=
    code_structure Sample.assembled_assembled Sample.load_eq Sample.loaded.apart found body
      fun c cached => by
        rw [cached] at small
        exact of_decide_eq_true small
  exact ⟨f, c, bytes, blocks, found, cached, read, structured⟩

end ManagedCode.Vm
