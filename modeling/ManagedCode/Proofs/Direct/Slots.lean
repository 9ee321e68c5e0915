import ManagedCode.Proofs.Direct.Execution
import ManagedCode.Proofs.Machine.Balance

/-!
# How slots encode values

A value has one word that is made for it: an integer is sign-extended, a float is zero-extended, a
truth value is zero or one and a reference is an address. All words that a program works with are of
this form, but for floats that were loaded from a field or an element. Four bytes of the heap are
sign-extended whatever they stand for, so that a negative float that was loaded has another word than
one that was computed.

* `Value.encode`: the word that is made for a value. `Canonical`: words of this form.
* `Fetched`: the words of floats that were loaded in a run. `Fetched.extended`: they are sign-extended.
* `Encoded`, `encoded_of_reaches`: the words of all activations of a run.
* `Vm.slots_canonical_unless_loaded`: the states of a call and its result.
* `Vm.loaded_float_not_canonical`: a float that comes back as another word.
-/

namespace ManagedCode

open Bytecode TypeSystem
open Heap (Arena HasType WellTyped)
open Machine (toInt ofInt toSingle ofSingle ofBool extend Stop cut haltAddress push pushAll)
open Number (Single)
open Target (Op Width)

/-! ## Definitions -/

/-- The type of what an instruction loads from a field or an element. -/
def Bytecode.Instr.loadedType? (types : TypeTable) : Instr → Option TypeId
  | .loadField r => some r.type
  | .loadElement type => types.element? type
  | _ => none

namespace Direct

/-- The word that is made for a value. -/
def Value.encode : Value → UInt64
  | .int i => ofInt i
  | .float s => ofSingle s
  | .bool b => ofBool b
  | .ref name => name

/-- A word of a type that is the one made for its value. -/
structure Canonical (types : TypeTable) (a : Arena) (type : TypeId) (w : UInt64) : Prop
    extends HasType types true a type w where
  encoded : (decode types type w).encode = w

/-- A word that a load of a float has pushed on the way from some activations to others. -/
inductive Fetched (types : TypeTable) (functions : FunctionTable) (start c : Configuration UInt64)
    (w : UInt64) : Prop where
  | intro {d d' : Configuration UInt64} {f : Function} {instr : Instr}
      (before : Words.Reaches types functions start d)
      (found : functions.get? d.current.function = some f)
      (here : f.code[d.current.index]? = some instr)
      (loads : instr.loadedType? types = some .float)
      (ran : Words.step types functions d = .next d') (top : d'.operands.head? = some w)
      (later : Words.Reaches types functions d' c)

/-- A word of a type in a run: the one that is made for its value, or that of a float that was
loaded. -/
def Encoded (types : TypeTable) (functions : FunctionTable) (start c : Configuration UInt64)
    (type : TypeId) (w : UInt64) : Prop :=
  (decode types type w).encode = w ∨ type = .float ∧ Fetched types functions start c w

/-! ## Words -/

section Words

variable {types : TypeTable} {type : TypeId} {w : UInt64}

theorem encode_reference (reference : types.isReference type = true) :
    (decode types type w).encode = w := by
  rw [decode_reference reference]
  rfl

theorem encode_zero (types : TypeTable) (type : TypeId) : (decode types type 0).encode = 0 := by
  rw [decode_zero]
  unfold Value.initial
  split
  · rfl
  · split
    · rfl
    · split <;> rfl

theorem encode_truth (wf : types.WellFormed) (truth : w = 0 ∨ w = 1) :
    (decode types .bool w).encode = w := by
  rw [decode_bool wf]
  rcases truth with rfl | rfl <;> rfl

theorem extend_dword (word : UInt64) : extend .dword word = ofInt (toInt word) := rfl

/-- What is loaded is the word made for its value, unless it is a float. -/
theorem encode_loaded (wf : types.WellFormed) {a : Arena} {width : Width} {word : UInt64}
    (moved : Width.ofSize? (types.size type) = some width)
    (has : HasType types true a type (extend width word)) (other : type ≠ .float) :
    (decode types type (extend width word)).encode = extend width word := by
  rcases moved_cases wf moved with ⟨reference, rfl⟩ | ⟨rfl, rfl⟩ | ⟨rfl, rfl⟩ | ⟨rfl, rfl⟩
  · exact encode_reference reference
  · rw [extend_dword, decode_ofInt wf]
    rfl
  · exact absurd rfl other
  · exact encode_truth wf (has.truth rfl rfl)

/-- Four bytes that are loaded as a float stand for the float with these bits. -/
theorem extend_encode (wf : types.WellFormed) (word : UInt64) :
    extend .dword (decode types .float (extend .dword word)).encode = extend .dword word := by
  rw [decode_float wf, extend_dword, extend_dword]
  refine congrArg ofInt ?_
  show toInt (ofSingle (toSingle (ofInt (toInt word)))) = toInt word
  rw [toSingle_eq, Machine.toInt_ofInt]
  show (toInt word).toUInt32.toUInt64.toUInt32.toInt32 = toInt word
  rw [UInt32.toUInt32_toUInt64]
  rfl

/-- Without a sign bit both extensions are the same. -/
theorem extend_ofSingle {s : Single} (unsigned : s.bits < 0x80000000) :
    extend .dword (ofSingle s) = ofSingle s := by
  have small : s.bits.toNat < 2 ^ 31 := UInt32.lt_iff_toNat_lt.mp unsigned
  have value : s.bits.toInt32.toInt = s.bits.toNat :=
    BitVec.toInt_eq_toNat_of_lt (show 2 * s.bits.toNat < 2 ^ 32 by omega)
  have words := toNat_toUInt64_toInt64 s.bits.toInt32
  rw [value] at words
  apply UInt64.toNat_inj.mp
  show s.bits.toUInt64.toUInt32.toInt32.toInt64.toUInt64.toNat = s.bits.toUInt64.toNat
  rw [UInt32.toUInt32_toUInt64, UInt32.toNat_toUInt64]
  omega

end Words

/-! ## Instructions -/

section Step

variable {p : Program} {root : FunctionId} {start c c' : Configuration UInt64} {f : Function}
  {instr : Instr} {after : OperandTypes} {type : TypeId} {w : UInt64}
variable {value : Option UInt64} {world : World}

/-- What a load from the heap pushes, by the width of its type. -/
theorem operands_of_load (loads : instr.loadedType? p.types = some type)
    (flow : p.Flows f c.current instr after)
    (current : c.current.Fits p.functions (fun _ _ => True) f)
    (ran : Words.perform p.types p.functions f c instr = .next c') :
    ∃ width word rest, Width.ofSize? (p.types.size type) = some width ∧
      c'.operands = extend width word :: rest := by
  obtain ⟨stack, effect, operands⟩ := current.effect flow
  cases effect with
  | loadField =>
    cases loads
    obtain ⟨a, rest, top, _⟩ := operands_one operands
    obtain ⟨_, ran⟩ := onObject_eq_next ((pop1_eq top _).symm.trans ran)
    obtain ⟨width, moved, ran⟩ := onWidth_eq_next ran
    obtain ⟨word, pushed⟩ := loading_eq_next ran
    exact ⟨width, word, rest, moved, pushed⟩
  | loadElement array =>
    have loads : p.types.element? _ = some type := loads
    obtain ⟨b, a, rest, top, _⟩ := operands_two operands
    obtain ⟨_, ran⟩ := onObject_eq_next ((pop2_eq top _).symm.trans ran)
    obtain ⟨width, moved, ran⟩ := onWidth_eq_next ran
    obtain ⟨_, _, _, _, ran⟩ := onElement_eq_next ran
    obtain ⟨word, pushed⟩ := loading_eq_next ran
    rw [loads, Option.bind_some] at moved
    exact ⟨width, word, rest, moved, pushed⟩
  | _ => cases loads

/-- An instruction that takes from the heap makes a reference or loads. -/
theorem reference_or_loads (flow : p.Flows f c.current instr after)
    (takes : instr.takesFromHeap = true) {low : OperandTypes} (left : after = type :: low) :
    p.types.isReference type = true ∨ instr.loadedType? p.types = some type := by
  have effect := flow.effect
  dsimp only at effect
  generalize f.operandTypes c.current.index = stack at effect
  cases effect with
  | newArray array =>
    cases left
    exact .inl (isReference_of_element? array)
  | newObject object =>
    cases left
    exact .inl (isReference_of_layout? object)
  | loadElement array =>
    cases left
    exact .inr array
  | loadField =>
    cases left
    exact .inr rfl
  | _ => cases takes

section

variable (fetched : Fetched p.types p.functions start c w)

include fetched

theorem Fetched.mono (more : Words.Reaches p.types p.functions c c') :
    Fetched p.types p.functions start c' w := by
  obtain ⟨before, found, here, loads, ran, top, later⟩ := fetched
  exact ⟨before, found, here, loads, ran, top, later.trans more⟩

section

variable (ready : p.Ready) (shaped : start.Shaped p.functions root)

include ready shaped

/-- A float is loaded as the sign extension of the word that is made for it. -/
theorem Fetched.extended : w = extend .dword (decode p.types .float w).encode := by
  have wf := ready.types
  obtain ⟨before, found, here, loads, ran, top, _⟩ := fetched
  have shaped' := before.shaped ready.toRunnable shaped
  obtain ⟨f', instr', after, found', flow, same⟩ := step_eq_perform ready.toRunnable shaped'
  cases found'.symm.trans found
  cases flow.code.symm.trans here
  obtain ⟨width, word, rest, moved, pushed⟩ :=
    operands_of_load loads flow (shaped'.current_of_found found) (same ▸ ran)
  rw [pushed] at top
  cases top
  rcases moved_cases wf moved with ⟨reference, _⟩ | ⟨other, _⟩ | ⟨_, rfl⟩ | ⟨other, _⟩
  · rw [show p.types.isReference .float = false from wf.isReference_primitive .float] at reference
    cases reference
  · cases other
  · exact (extend_encode wf word).symm
  · cases other

/-- A loaded float without a sign bit has the word that is made for it. -/
theorem Fetched.encoded (unsigned : (toSingle w).bits < 0x80000000) :
    (decode p.types .float w).encode = w := by
  have extended := fetched.extended ready shaped
  rw [decode_float ready.types] at extended ⊢
  exact (extend_ofSingle unsigned).symm.trans extended.symm

end

end

theorem admits_encoded (wf : p.types.WellFormed) (start c : Configuration UInt64) :
    Admits (Encoded p.types p.functions start c) where
  int i := .inl (congrArg Value.encode (decode_ofInt wf i))
  float s := .inl (congrArg Value.encode (decode_ofSingle wf s))
  bool b := .inl (congrArg Value.encode (decode_ofBool wf b))
  null t := .inl (encode_zero p.types t)

/-- One instruction. What it makes is canonical; what it copies is as it was before; and what it loads
is canonical or a float. -/
theorem encoded_step (ready : p.Ready) (reaches : Words.Reaches p.types p.functions start c)
    (typed : c.Typed p.types p.functions true root)
    (fits : c.Fits p.functions (Encoded p.types p.functions start c) root)
    (ran : Words.step p.types p.functions c = .next c') :
    c'.Fits p.functions (Encoded p.types p.functions start c') root := by
  have wf := ready.types
  obtain ⟨f, instr, after, found, flow, same⟩ := step_eq_perform ready.toRunnable fits
  have performed := same ▸ ran
  have kept : c.Fits p.functions (Encoded p.types p.functions start c') root :=
    fits.mono fun t w => Or.imp_right (And.imp_right fun fetched => fetched.mono (.single ran))
  refine fits_of_perform ready.toRunnable (admits_encoded wf start c') kept found flow
    (fun takes type low w rest left top => ?_) performed
  rcases reference_or_loads flow takes left with reference | loads
  · exact .inl (encode_reference reference)
  · by_cases float : type = .float
    · subst float
      refine .inr ⟨rfl, reaches, found, flow.code, loads, ran, ?_, .refl⟩
      rw [top]
      rfl
    · have sound := sound_of_perform ready typed found flow
      rw [performed] at sound
      have has := sound.2 takes type low w rest left top
      obtain ⟨width, word, rest', moved, pushed⟩ :=
        operands_of_load loads flow (typed.shaped.current_of_found found) performed
      cases top.symm.trans pushed
      exact .inl (encode_loaded wf moved has float)

theorem encoded_of_reaches (ready : p.Ready) (typed : start.Typed p.types p.functions true root)
    (fits : start.Fits p.functions (Encoded p.types p.functions start start) root)
    (reaches : Words.Reaches p.types p.functions start c) :
    c.Fits p.functions (Encoded p.types p.functions start c) root := by
  induction reaches with
  | refl => exact fits
  | tail before ran ih => exact encoded_step ready before (Words.Reaches.typed before ready typed) ih ran

/-! ## Returns -/

theorem leave_eq_finished {arguments : Nat} {returned : Option UInt64}
    (finished : c.leave arguments returned = .finished value world) :
    c.callers = [] ∧ returned = value := by
  unfold Configuration.leave at finished
  split at finished
  · cases finished
    exact ⟨‹_›, rfl⟩
  · cases finished

theorem keeps_callRoutine (routine : Native) :
    (Words.callRoutine p.types p.functions routine c).Keeps c.callers := by
  unfold Words.callRoutine
  split
  · split
    · rfl
    · trivial
  · rfl
  · refine keeps_pop1 fun w rest => ?_
    split
    · rfl
    · trivial

theorem call_ne_finished {callee : FunctionId} {onObject : Bool} :
    Words.call p.types p.functions c callee onObject ≠ .finished value world := by
  intro finished
  unfold Words.call at finished
  split at finished
  · cases finished
  · split at finished
    · have keeps := keeps_callRoutine (p := p) (c := c) ‹Native›
      rw [finished] at keeps
      exact keeps
    · split at finished
      · cases finished
      · unfold Configuration.enter at finished
        split at finished <;> cases finished

/-- Only a return ends a run. -/
theorem ret_of_finished
    (finished : Words.perform p.types p.functions f c instr = .finished value world) :
    instr = .ret := by
  by_contra stays
  cases calls : instr.callee? with
  | none =>
    have keeps : (Words.perform p.types p.functions f c instr).Keeps c.callers :=
      keeps_perform calls stays
    rw [finished] at keeps
    exact keeps
  | some callee =>
    cases instr with
    | call | callInstance => exact call_ne_finished finished
    | _ => cases calls

/-- What the outermost function returns was its operand. -/
theorem returned_of_step (ready : p.Runnable) {R : TypeId → UInt64 → Prop}
    (fits : c.Fits p.functions R root)
    (finished : Words.step p.types p.functions c = .finished value world)
    (found : p.functions.get? root = some f) (some_ : f.definition.returnType ≠ .void) :
    ∃ w, value = some w ∧ R f.definition.returnType w := by
  obtain ⟨g, instr, after, found', flow, same⟩ := step_eq_perform ready fits
  rw [same] at finished
  cases ret_of_finished finished
  have outermost : c.callers = [] → c.current.function = root := by
    intro none
    have callers := fits.callers
    rw [none] at callers
    exact callers
  have finished : Words.ret g c = .finished value world := finished
  unfold Words.ret at finished
  split at finished
  · rename_i void
    obtain ⟨none, _⟩ := leave_eq_finished finished
    rw [outermost none] at found'
    cases found'.symm.trans found
    exact absurd void some_
  · rename_i returns
    obtain ⟨w, rest, top, good⟩ := (fits.current_of_found found').returned flow returns
    obtain ⟨none, rfl⟩ := leave_eq_finished ((pop1_eq top _).symm.trans finished)
    rw [outermost none] at found'
    cases found'.symm.trans found
    exact ⟨w, rfl, good⟩

end Step

end Direct

/-! ## Calls -/

namespace Vm

open Direct (Canonical Encoded Fetched)

section Calls

variable {initial vm : Vm} {id : FunctionId} {f : Function} {arguments : List UInt64} {m : Machine Vm}

/-- The function of a call with canonical arguments, just entered. -/
theorem encoded_start (sound : vm.fixed.Sound) (found : vm.functions.get? id = some f)
    (body : f.HasBody)
    (values : List.Forall₂ (Canonical vm.types vm.collector.heap) f.definition.parameters arguments) :
    (Words.start id f arguments vm.world).Fits vm.functions
      (Encoded vm.types vm.functions (Words.start id f arguments vm.world)
        (Words.start id f arguments vm.world)) id :=
  fits_start (p := vm.program) sound.ready.toRunnable
    (Direct.admits_encoded (p := vm.program) sound.ready.types _ _) found body
    (values.imp fun _ _ canonical => .inl canonical.encoded) vm.world

/-- **Slots are canonical but for negative floats that were loaded.** On a machine with a loaded program
and any well-typed heap, a function is called with canonical arguments. In every state of the call, each
word of an argument, a local or an operand is the one that is made for its value, or else it is that of
a float that a load from a field or an element has pushed before. A load pushes the sign extension of
the word that is made for its float, which is another word only if the sign bit is set. The same holds
of the word that the call returns: an integer, a truth value or a reference is returned as the one word
that is made for it. -/
theorem slots_canonical_unless_loaded (loaded : initial.Loaded) (same : vm.fixed = initial.fixed)
    (heap : WellTyped vm.types true vm.collector.heap) (found : vm.functions.get? id = some f)
    (body : f.HasBody)
    (values : List.Forall₂ (Canonical vm.types vm.collector.heap) f.definition.parameters arguments) :
    let start := Words.start id f arguments vm.world
    (∀ m, vm.Visits id arguments m → WellTyped vm.types true m.host.collector.heap ∧
      (m.registers.ip ≠ haltAddress → ∃ c, Words.Reaches vm.types vm.functions start c ∧
        FramesFit vm.fixed true id (bottom arguments) m c ∧
        c.Fits vm.functions (Encoded vm.types vm.functions start c) id)) ∧
    (∀ c w, Fetched vm.types vm.functions start c w →
      w = extend .dword (Direct.decode vm.types .float w).encode ∧
      ((toSingle w).bits < 0x80000000 → (Direct.decode vm.types .float w).encode = w)) ∧
    ∀ fuel rax vm', invoke fuel id arguments vm = .ok (some rax) vm' →
      f.definition.returnType ≠ .void →
      Canonical vm.types vm'.collector.heap f.definition.returnType rax ∨
        f.definition.returnType = .float ∧
          ∃ c, Words.Reaches vm.types vm.functions start c ∧
            Fetched vm.types vm.functions start c rax := by
  intro start
  have sound : vm.fixed.Sound := same ▸ loaded.sound
  have ready : vm.program.Ready := sound.ready
  have typed : start.Typed vm.types vm.functions true id :=
    typed_start (p := vm.program) ready found body (values.imp fun _ _ => Canonical.toHasType) heap
  have encoded := encoded_start sound found body values
  have track : ∀ m, vm.Visits id arguments m →
      Setting vm.fixed id (bottom arguments) ∧ Track vm.fixed (bottom arguments) start m := by
    intro m visits
    obtain ⟨f', found', _, _, setting, _, track⟩ := visits.track sound
    cases found'.symm.trans found
    exact ⟨setting, track⟩
  refine ⟨fun m visits => ?_, fun c w fetched => ?_, fun fuel rax vm' ran some_ => ?_⟩
  · obtain ⟨setting, track⟩ := track m visits
    obtain ⟨heap', frames⟩ := track.typed ready typed
    refine ⟨heap', fun running => ?_⟩
    obtain ⟨c, reaches, framed⟩ := frames running
    exact ⟨c, reaches, framed, Direct.encoded_of_reaches (p := vm.program) ready typed encoded reaches⟩
  · exact ⟨fetched.extended (p := vm.program) ready typed.shaped,
      fetched.encoded (p := vm.program) ready typed.shaped⟩
  · have ends := invoke_ends sound.below fuel id arguments
    rw [ran] at ends
    cases ends with
    | returned visits halted =>
      obtain ⟨setting, track⟩ := track _ visits
      have has := track.result setting typed halted found some_
      obtain ⟨c, value, reaches, finished, result⟩ := track.finished setting typed.shaped halted
      obtain ⟨w, rfl, good⟩ := Direct.returned_of_step (p := vm.program) ready.toRunnable
        (Direct.encoded_of_reaches (p := vm.program) ready typed encoded reaches) finished found some_
      cases result w rfl
      rcases good with made | ⟨float, fetched⟩
      · exact .inl ⟨has, made⟩
      · exact .inr ⟨float, c, reaches, fetched⟩

end Calls

/-! ## A float that is kept in an object -/

namespace Sample

def keep : FunctionId := ⟨5, 0⟩

def value : FieldRef := ⟨.ofIndex 4, 0, 0, .float⟩

/-- The function puts its argument into a box and takes it out again. -/
def keepBody : Body :=
  ⟨[], #[.newObject (.ofIndex 4), .dup, .loadArgument 0, .storeField value, .loadField value, .ret]⟩

def boxes : Vm :=
  { empty with
    types := (TypeTable.Command.createClass "Box" [⟨"value", .float, .everyone⟩]).run .primitives }

/-- The machine with the function, before its program is loaded. -/
def keeper : Vm :=
  leaves (define keep keepBody (leaves (register (.free "keep" [.float] .float) boxes)))

def keeping : Vm := leaves (load keeper)

theorem keeper_assembled : Assembled keeper := by
  have typed : Assembled boxes := .type _ (.create create_eq)
  have unused : boxes.signatures.contains
      ((Definition.free "keep" [.float] .float).signature boxes.types) = false := by
    refine unused_of_natives fun routine => ?_
    cases routine <;> decide +kernel
  exact .define _ _ (assembled_register typed rfl (by decide +kernel) (by decide +kernel) unused)

theorem keeping_loaded : keeping.Loaded :=
  (loaded_of_loadsWell keeper_assembled (by decide +kernel)).2

variable {rest : List UInt64} {E : Stop → World → Prop}

variable {x : Fixed} {v : View} {address w : UInt64} {m : Machine Vm} {n : Nat}

/-- The frame of a function with one argument and no locals. -/
theorem gives_enter_one {next : UInt64} (words : v.words = address :: w :: rest)
    (room : 8 * (v.words.length + 2) ≤ x.stackSize) :
    Gives x v (Machine.execute next (.enter 1 0)) ()
      { v with bp := x.place (v.words.length + 1), words := w :: v.bp :: v.words } E := by
  have read : Gives x { v with bp := x.place (v.words.length + 1), words := v.bp :: v.words }
      (Machine.readSlot (Stack.slotAddress (x.place (v.words.length + 1))
        (Stack.callerArgumentOffset 1 0))) w _ E :=
    gives_readSlot 2 (by rw [words]; rfl)
      (slotAddress_above (n := 2) (by rw [words]; simp) (by decide) (by omega))
  have copied : Gives x { v with bp := x.place (v.words.length + 1), words := v.bp :: v.words }
      (Machine.copyArguments 1 1) ()
      { v with bp := x.place (v.words.length + 1), words := w :: v.bp :: v.words } E :=
    gives_registersOf.bind (read.bind ((gives_push_of_room (by exact room)).bind (gives_pure ())))
  exact gives_registersOf.bind ((gives_push_of_room (by omega)).bind (gives_setBase.bind (copied.bind
    (gives_pure ()))))

theorem gives_popObject {use : Machine.NullUse} {object : UInt64} (top : v.words = object :: rest)
    (nonnull : object ≠ 0) : Gives x v (Machine.popObject use) object { v with words := rest } E :=
  does_popObject top (fun null => absurd null nonnull) fun _ => ⟨rfl, rfl⟩

theorem resume_of_steps {last : Machine Vm} (steps : Steps m last)
    (halted : last.registers.ip = haltAddress) :
    ∃ fuel, Machine.resume fuel m = .ok (some last.registers.result) last := by
  induction steps using Relation.ReflTransGen.head_induction_on with
  | refl =>
    refine ⟨0, ?_⟩
    rw [resume_zero, if_pos halted]
  | head runs _ ih =>
    obtain ⟨running, stepped⟩ := runs
    obtain ⟨fuel, done⟩ := ih
    refine ⟨fuel + 1, ?_⟩
    rw [resume_running running, bind_of_ok stepped]
    exact done

def keepOps : List (UInt64 × Op) :=
  [(0x100000000, .enter 1 0), (0x100000005, .newObject 5), (0x10000000a, .dup),
    (0x10000000b, .loadSlot (Stack.below 0)), (0x100000010, .storeField .dword 0),
    (0x100000016, .loadField .dword 0), (0x10000001c, .popResult), (0x10000001d, .leave),
    (0x10000001e, .ret 1)]

theorem keeping_evaluated :
    (∀ entry ∈ keepOps, keeping.fixed.program.op? entry.1 = some entry.2) ∧
    keeping.fixed.stackSize = 4096 ∧
    yields Memory.codeOrigin (keeping.entryFor keep 1) = true ∧
    (match keeping.world.effect
        (Heap.Collector.newObject keeping.fixed.program.types (.ofIndex 4)) with
      | .ok object world => object == 0x40000005 && world.heap.region.contains 0x40000005 4
      | .error .. => false) = true ∧
    (keeping.functions.get? keep).any (fun f => !f.isNative && (f.isDefined &&
      f.definition == .free "keep" [.float] .float)) = true := by
  decide +kernel

theorem op_keep {ip : UInt64} {op : Op} (here : keepOps[n]? = some (ip, op)) :
    keeping.fixed.program.op? ip = some op :=
  keeping_evaluated.1 (ip, op) (List.mem_of_getElem? here)

theorem newBox : ∃ world, keeping.world.effect
      (Heap.Collector.newObject keeping.fixed.program.types (.ofIndex 4)) = .ok 0x40000005 world ∧
    world.heap.region.contains 0x40000005 4 = true := by
  have evaluated := keeping_evaluated.2.2.2.1
  revert evaluated
  generalize keeping.world.effect
    (Heap.Collector.newObject keeping.fixed.program.types (.ofIndex 4)) = made
  intro evaluated
  cases made with
  | error => cases evaluated
  | ok object world =>
    obtain ⟨here, inside⟩ := Bool.and_eq_true_iff.mp evaluated
    exact ⟨world, congrArg (EStateM.Result.ok · world) (eq_of_beq here), inside⟩

/-- What is stored loads cut to its width. -/
theorem load_stored {world : World} (width : Width) (w : UInt64)
    (inside : world.heap.region.contains address width.bytes = true) :
    ∃ world', Words.store? world address width w = some world' ∧
      Words.load? world' address width = some (cut width w) :=
  ⟨_, if_pos inside, congrArg (Option.map (extend width))
    (Memory.Region.readWord?_writeWord_self w inside)⟩

theorem room_keep (few : n ≤ 512) : 8 * n ≤ keeping.fixed.stackSize := by
  have size := keeping_evaluated.2.1
  omega

def calledWith (w : UInt64) : View :=
  ⟨Memory.codeOrigin, 0, 0, [haltAddress, w], [], keeping.world⟩

theorem starts_keep (w : UInt64) :
    ∃ m, keeping.Starts keep [w] m ∧ Shows keeping.fixed (calledWith w) m := by
  have found := eq_ok_of_yields keeping_evaluated.2.2.1
  exact starts_of_gives keeping_loaded.runnable.grounded.below found
    (Gives.bind (u := ⟨Memory.codeOrigin, 0, 0, [w], [], keeping.world⟩)
      ((gives_push_of_room (by exact room_keep (n := 1) (by decide))).bind (gives_pure ()))
      (gives_push_of_room (by exact room_keep (n := 2) (by decide))))

/-- The function makes a box, puts its argument into it and takes it out again. -/
theorem steps_keep (shown : Shows keeping.fixed (calledWith w) m) :
    ∃ last, Steps m last ∧ last.registers.ip = haltAddress ∧
      last.registers.result = cut .dword w := by
  have ready := keeping_loaded.runnable.grounded.ready
  obtain ⟨world, made, inside⟩ := newBox
  obtain ⟨world', stored, read⟩ := load_stored .dword w inside
  obtain ⟨m₁, runs₁, shown⟩ := runs_of_gives ready (.enter 1 0) (op_keep (n := 0) rfl)
    (gives_enter_one rfl (by exact room_keep (n := 4) (by decide))) shown
  obtain ⟨m₂, runs₂, shown⟩ := runs_of_gives ready (.newObject (TypeId.ofIndex 4).raw)
    (op_keep (n := 1) rfl) ((gives_newObject made).bind
      (gives_push_of_room (by exact room_keep (n := 5) (by decide)))) shown
  obtain ⟨m₃, runs₃, shown⟩ := runs_of_gives ready .dup (op_keep (n := 2) rfl)
    ((gives_peek rfl).bind (gives_push_of_room (by exact room_keep (n := 6) (by decide)))) shown
  have slots : [0x40000005, 0x40000005, w, 0, haltAddress, w]
      = [w, 0x40000005, 0x40000005].reverse ++ [0, haltAddress, w] := rfl
  obtain ⟨m₄, runs₄, shown⟩ := runs_of_gives ready (.loadSlot (Stack.below 0))
    (op_keep (n := 3) rfl) (gives_registersOf.bind ((gives_loadSlot (by decide) slots rfl rfl).bind
      (gives_push_of_room (by exact room_keep (n := 7) (by decide))))) shown
  obtain ⟨m₅, runs₅, shown⟩ := runs_of_gives ready (.storeField .dword 0) (op_keep (n := 4) rfl)
    ((gives_pop rfl).bind ((gives_popObject rfl (by decide)).bind (gives_store stored))) shown
  obtain ⟨m₆, runs₆, shown⟩ := runs_of_gives ready (.loadField .dword 0) (op_keep (n := 5) rfl)
    ((gives_popObject rfl (by decide)).bind ((gives_load read).bind
      (gives_push_of_room (by exact room_keep (n := 5) (by decide))))) shown
  obtain ⟨m₇, runs₇, shown⟩ := runs_of_gives ready .popResult (op_keep (n := 6) rfl)
    ((gives_pop rfl).bind (gives_setResult _)) shown
  obtain ⟨m₈, runs₈, shown⟩ := runs_of_gives ready .leave (op_keep (n := 7) rfl)
    (gives_leave (show _ = [w] ++ _ from rfl) rfl) shown
  obtain ⟨last, runs₉, shown⟩ := runs_of_gives ready (.ret 1) (op_keep (n := 8) rfl)
    (gives_ret (n := 1) (by decide) (show _ = _ :: [w] from rfl) (Nat.le_refl 1)) shown
  have first : Steps m m₄ := .head runs₁ (.head runs₂ (.head runs₃ (.single runs₄)))
  have rest : Steps m₄ last :=
    .head runs₅ (.head runs₆ (.head runs₇ (.head runs₈ (.single runs₉))))
  refine ⟨last, first.trans rest, shown.ip, ?_⟩
  rw [shown.registers]
  rfl

/-- What is kept comes back as four bytes load. -/
theorem invoke_keep (w : UInt64) :
    ∃ fuel vm, invoke fuel keep [w] keeping = .ok (some (cut .dword w)) vm := by
  obtain ⟨m, starts, shown⟩ := starts_keep w
  obtain ⟨last, steps, halted, result⟩ := steps_keep shown
  obtain ⟨fuel, resumed⟩ := resume_of_steps steps halted
  rw [result] at resumed
  refine ⟨fuel, last.host.clearCalls, ?_⟩
  rw [invoke_of_starts starts, resumed]

theorem keep_eq : ∃ f, keeping.functions.get? keep = some f ∧ f.HasBody ∧
    f.definition = .free "keep" [.float] .float := by
  obtain ⟨f, found, good⟩ := (Option.any_eq_true _ _).mp keeping_evaluated.2.2.2.2
  rw [Bool.and_eq_true, Bool.and_eq_true, beq_iff_eq] at good
  obtain ⟨managed, defined, declared⟩ := good
  exact ⟨f, found, ⟨Bool.not_eq_true' _ ▸ managed, defined⟩, declared⟩

theorem canonical_minusOne :
    Canonical keeping.types keeping.collector.heap .float 0xbf800000 := by
  have wf : keeping.types.WellFormed := keeping_loaded.sound.ready.types
  refine ⟨.scalar (wf.isReference_primitive .float) (by decide), ?_⟩
  rw [Direct.decode_float wf]
  rfl

theorem not_canonical_minusOne (a : Arena) :
    ¬ Canonical keeping.types a .float 0xffffffffbf800000 := by
  have wf : keeping.types.WellFormed := keeping_loaded.sound.ready.types
  intro canonical
  have encoded := canonical.encoded
  rw [Direct.decode_float wf] at encoded
  exact absurd encoded (by decide)

end Sample

/-- Minus one is kept in a box: the word that was returned is that of a load. -/
theorem slots_canonical_unless_loaded_box :
    ∃ f fuel vm c, Sample.keeping.functions.get? Sample.keep = some f ∧
      invoke fuel Sample.keep [0xbf800000] Sample.keeping = .ok (some 0xffffffffbf800000) vm ∧
      Fetched Sample.keeping.types Sample.keeping.functions
        (Words.start Sample.keep f [0xbf800000] Sample.keeping.world) c 0xffffffffbf800000 := by
  obtain ⟨f, found, body, declared⟩ := Sample.keep_eq
  obtain ⟨fuel, vm, returned⟩ := Sample.invoke_keep 0xbf800000
  rw [show cut .dword 0xbf800000 = 0xffffffffbf800000 by decide] at returned
  have values : List.Forall₂ (Canonical Sample.keeping.types Sample.keeping.collector.heap)
      f.definition.parameters [0xbf800000] := by
    rw [declared]
    exact .cons Sample.canonical_minusOne .nil
  have type : f.definition.returnType = .float := by rw [declared]; rfl
  obtain ⟨_, _, result⟩ := slots_canonical_unless_loaded Sample.keeping_loaded rfl
    Sample.keeping_loaded.wellTyped found body values
  rcases result fuel _ vm returned (by rw [type]; decide) with canonical | ⟨_, c, _, fetched⟩
  · rw [type] at canonical
    exact absurd canonical (Sample.not_canonical_minusOne _)
  · exact ⟨f, fuel, vm, c, found, returned, fetched⟩

/-- Minus one is given as the word that is made for it. It comes back as another word for the same
value. -/
theorem loaded_float_not_canonical :
    ∃ f fuel vm, Sample.keeping.Loaded ∧
      WellTyped Sample.keeping.types true Sample.keeping.collector.heap ∧
      Sample.keeping.functions.get? Sample.keep = some f ∧ f.HasBody ∧
      f.definition.returnType = .float ∧
      List.Forall₂ (Canonical Sample.keeping.types Sample.keeping.collector.heap)
        f.definition.parameters [0xbf800000] ∧
      invoke fuel Sample.keep [0xbf800000] Sample.keeping = .ok (some 0xffffffffbf800000) vm ∧
      toSingle 0xffffffffbf800000 = toSingle 0xbf800000 ∧
      ¬ Canonical Sample.keeping.types vm.collector.heap .float 0xffffffffbf800000 := by
  obtain ⟨f, found, body, declared⟩ := Sample.keep_eq
  obtain ⟨fuel, vm, returned⟩ := Sample.invoke_keep 0xbf800000
  rw [show cut .dword 0xbf800000 = 0xffffffffbf800000 by decide] at returned
  refine ⟨f, fuel, vm, Sample.keeping_loaded, Sample.keeping_loaded.wellTyped, found, body, ?_, ?_,
    returned, by decide, Sample.not_canonical_minusOne _⟩
  · rw [declared]
    rfl
  · rw [declared]
    exact .cons Sample.canonical_minusOne .nil

end Vm

end ManagedCode
