import ManagedCode.Proofs.LittleEndian
import ManagedCode.Target.Codec

/-!
# Reading back machine instructions

The bytes of an instruction are read back as that instruction, whatever follows them
(`decode_encode_append`). Each kind of operand has its own lemma of this form.

Conversely a decoder takes no other bytes. `Decoder.Reads` says so of an operand, together with
what happens when bytes are missing, and `Decoder.Continues` of an instruction whose first bytes
have been read; both are carried from each operand to the next.

* `decode_eq_ok_iff`: an instruction is read exactly where its bytes stand.
* `decode_cut`: an instruction without its last bytes is truncated.
-/

namespace ManagedCode.Target

open Bytecode (Condition)

variable {b : UInt8}

namespace Decoder

theorem word_append (n : Nat) (w : UInt64) (rest : List UInt8) :
    word n (encodeLE n w ++ rest) = .ok (decodeLE (encodeLE n w), rest) := by
  have enough : n ≤ (encodeLE n w ++ rest).length := by simp
  rw [word, if_pos enough, List.take_left' (length_encodeLE n w),
    List.drop_left' (length_encodeLE n w)]

theorem word16_append (w : UInt16) (rest : List UInt8) :
    word16 (Op.word16 w ++ rest) = .ok (w, rest) := by
  have back : (decodeLE (encodeLE 2 w.toUInt64)).toUInt16 = w := by
    apply UInt16.toNat_inj.mp
    have small := w.toNat_lt
    rw [UInt64.toNat_toUInt16, toNat_decodeLE_encodeLE 2 _ (by decide), UInt16.toNat_toUInt64]
    omega
  simp only [word16, Op.word16, bind, StateT.bind, word_append, Except.bind, back]
  rfl

theorem word32_append (w : UInt32) (rest : List UInt8) :
    word32 (Op.word32 w ++ rest) = .ok (w, rest) := by
  have back : (decodeLE (encodeLE 4 w.toUInt64)).toUInt32 = w := by
    apply UInt32.toNat_inj.mp
    have small := w.toNat_lt
    rw [UInt64.toNat_toUInt32, toNat_decodeLE_encodeLE 4 _ (by decide), UInt32.toNat_toUInt64]
    omega
  simp only [word32, Op.word32, bind, StateT.bind, word_append, Except.bind, back]
  rfl

theorem word64_append (w : UInt64) (rest : List UInt8) :
    word64 (Op.word64 w ++ rest) = .ok (w, rest) := by
  rw [word64, Op.word64, word_append, decodeLE_encodeLE_eight]

theorem signed32_append (i : Int32) (rest : List UInt8) :
    signed32 (Op.signed32 i ++ rest) = .ok (i, rest) := by
  simp only [signed32, Op.signed32, bind, StateT.bind, word32_append, Except.bind]
  rfl

theorem operand_cons {α : Type} {read : UInt8 → Option α} {a : α} (known : read b = some a)
    (opcode : UInt8) (rest : List UInt8) : operand opcode read (b :: rest) = .ok (a, rest) := by
  simp only [operand, byte, bind, StateT.bind, Except.bind, known]
  rfl

end Decoder

theorem NumericKind.ofByte?_toByte (k : NumericKind) : ofByte? k.toByte = some k := by
  cases k <;> rfl

theorem CompareKind.ofByte?_toByte (k : CompareKind) : ofByte? k.toByte = some k := by
  cases k <;> rfl

theorem arithOfByte?_arithByte (op : Bytecode.ArithOp) : arithOfByte? (arithByte op) = some op := by
  cases op <;> rfl

theorem Width.ofByte?_toByte (w : Width) : ofByte? w.toByte = some w := by
  cases w <;> rfl

theorem ofByte?_toByte_condition (c : Condition) : Condition.ofByte? c.toByte = some c := by
  cases c <;> rfl

/-- An instruction is read back from its bytes, and what follows them is left. -/
theorem decode_encode_append (op : Op) (rest : List UInt8) :
    decode (op.encode ++ rest) = .ok (op, rest) := by
  cases op <;>
    simp only [Op.encode, decode, decodeOperands, Decoder.byte, bind, StateT.bind, Except.bind,
      List.cons_append, List.nil_append, List.append_assoc, Decoder.word16_append,
      Decoder.word32_append, Decoder.word64_append, Decoder.signed32_append,
      Decoder.operand_cons (NumericKind.ofByte?_toByte _),
      Decoder.operand_cons (CompareKind.ofByte?_toByte _),
      Decoder.operand_cons (arithOfByte?_arithByte _),
      Decoder.operand_cons (Width.ofByte?_toByte _),
      Decoder.operand_cons (ofByte?_toByte_condition _)] <;>
    rfl

/-! ## What a decoder takes -/

variable {rest : List UInt8}

namespace Decoder

variable {α β : Type}
variable {bytes done : List UInt8}

variable {d : Decoder α} {f : α → Decoder β} {encode : α → List UInt8}

theorem bind_eq_ok_iff {b : β} :
    (d >>= f) bytes = .ok (b, rest) ↔
      ∃ a middle, d bytes = .ok (a, middle) ∧ f a middle = .ok (b, rest) := by
  show (d bytes >>= fun p => f p.1 p.2) = _ ↔ _
  cases d bytes with
  | error e =>
    constructor
    · intro failed
      cases failed
    · rintro ⟨_, _, read, _⟩
      cases read
  | ok p =>
    constructor
    · exact fun read => ⟨p.1, p.2, rfl, read⟩
    · rintro ⟨a, middle, read, later⟩
      cases read
      exact later

theorem bind_of_ok {middle : List UInt8} {a : α} (read : d bytes = .ok (a, middle)) :
    (d >>= f) bytes = f a middle := by
  show (d bytes >>= fun p => f p.1 p.2) = _
  rw [read]
  rfl

theorem bind_of_error {e : DecodeError} (failed : d bytes = .error e) :
    (d >>= f) bytes = .error e := by
  show (d bytes >>= fun p => f p.1 p.2) = _
  rw [failed]
  rfl

/-- A decoder that is given only the front of the bytes reads the same, or misses some and says
so. -/
def Prompt (d : Decoder α) : Prop :=
  ∀ (front rest after : List UInt8) (a : α), d (front ++ rest) = .ok (a, after) →
    d front = .error .truncated ∨ ∃ middle, after = middle ++ rest ∧ d front = .ok (a, middle)

theorem prompt_pure (a : α) : Prompt (pure a : Decoder α) := by
  intro front rest after b read
  cases read
  exact .inr ⟨front, rfl, rfl⟩

theorem Prompt.bind (first : Prompt d) (second : ∀ a, Prompt (f a)) : Prompt (d >>= f) := by
  intro front rest after b read
  obtain ⟨a, later, here, there⟩ := bind_eq_ok_iff.mp read
  rcases first front rest later a here with cut | ⟨middle, rfl, same⟩
  · exact .inl (bind_of_error cut)
  · rw [bind_of_ok same]
    exact second a middle rest after b there

/-- A decoder reads what an encoder writes: it notices when bytes are missing, and the bytes that
it takes are the code of what it gives. -/
structure Reads (d : Decoder α) (encode : α → List UInt8) : Prop where
  prompt : Prompt d
  only : ∀ {bytes rest : List UInt8} {a : α}, d bytes = .ok (a, rest) → bytes = encode a ++ rest

theorem reads_byte : Reads byte ([·]) := by
  refine ⟨fun front rest after b read => ?_, fun {bytes rest b} read => ?_⟩
  · cases front with
    | nil => exact .inl rfl
    | cons head tail =>
      cases read
      exact .inr ⟨tail, rfl, rfl⟩
  · cases bytes with
    | nil => cases read
    | cons head tail =>
      cases read
      rfl

theorem prompt_word (n : Nat) : Prompt (word n) := by
  intro front rest after w read
  unfold word at read ⊢
  by_cases enough : n ≤ front.length
  · rw [if_pos (by rw [List.length_append]; omega), List.take_append_of_le_length enough,
      List.drop_append_of_le_length enough] at read
    cases read
    rw [if_pos enough]
    exact .inr ⟨front.drop n, rfl, rfl⟩
  · rw [if_neg enough]
    exact .inl rfl

theorem reads_word {n : Nat} (small : n ≤ 8) : Reads (word n) (encodeLE n) := by
  refine ⟨prompt_word n, fun {bytes rest w} read => ?_⟩
  unfold word at read
  split at read
  · rename_i enough
    cases read
    have length : (bytes.take n).length = n := List.length_take_of_le enough
    have back := encodeLE_decodeLE (bytes.take n) (by omega)
    rw [length] at back
    rw [back, List.take_append_drop]
  · cases read

theorem reads_word64 : Reads word64 Op.word64 := reads_word (Nat.le_refl 8)

/-- A decoder followed by a change of what it gives. -/
theorem Reads.map {encode' : β → List UInt8} (reads : Reads d encode) {g : α → β}
    (same : ∀ {bytes rest a}, d bytes = .ok (a, rest) → encode' (g a) = encode a) :
    Reads (do return g (← d)) encode' := by
  refine ⟨reads.prompt.bind fun a => prompt_pure _, fun {bytes rest b} read => ?_⟩
  obtain ⟨a, middle, first, last⟩ := bind_eq_ok_iff.mp read
  cases last
  rw [same first]
  exact reads.only first

theorem toNat_of_word {n : Nat} {w : UInt64} (small : n ≤ 8) (read : word n bytes = .ok (w, rest)) :
    w.toNat < 256 ^ n := by
  unfold word at read
  split at read
  · rename_i enough
    cases read
    have length : (bytes.take n).length = n := List.length_take_of_le enough
    have bound := toNat_decodeLE_lt (bytes.take n) (by omega)
    rwa [length] at bound
  · cases read

theorem reads_word16 : Reads word16 Op.word16 := by
  refine (reads_word (by decide)).map fun {bytes rest w} read => ?_
  have small : w.toNat < 65536 := toNat_of_word (by decide) read
  have same : w.toUInt16.toUInt64 = w := by
    apply UInt64.toNat_inj.mp
    rw [UInt16.toNat_toUInt64, UInt64.toNat_toUInt16]
    exact Nat.mod_eq_of_lt small
  rw [Op.word16, same]

theorem reads_word32 : Reads word32 Op.word32 := by
  refine (reads_word (by decide)).map fun {bytes rest w} read => ?_
  have small : w.toNat < 4294967296 := toNat_of_word (by decide) read
  have same : w.toUInt32.toUInt64 = w := by
    apply UInt64.toNat_inj.mp
    rw [UInt32.toNat_toUInt64, UInt64.toNat_toUInt32]
    exact Nat.mod_eq_of_lt small
  rw [Op.word32, same]

theorem reads_signed32 : Reads signed32 Op.signed32 :=
  reads_word32.map fun _ => rfl

/-- An operand of one byte, when bytes that have a meaning are those of that meaning. -/
theorem reads_operand {read : UInt8 → Option α} {toByte : α → UInt8}
    (back : ∀ {b a}, read b = some a → toByte a = b) (opcode : UInt8) :
    Reads (operand opcode read) (fun a => [toByte a]) := by
  refine ⟨reads_byte.prompt.bind fun b => ?_, fun {bytes rest a} found => ?_⟩
  · intro front rest after a found
    cases known : read b with
    | some a' =>
      rw [known] at found
      exact prompt_pure a' front rest after a found
    | none =>
      rw [known] at found
      cases found
  · obtain ⟨b, middle, first, last⟩ := bind_eq_ok_iff.mp found
    rw [reads_byte.only first]
    cases known : read b with
    | some a' =>
      rw [known] at last
      cases last
      rw [back known]
    | none =>
      rw [known] at last
      cases last

/-- A decoder goes on where some bytes of an instruction have been read. -/
structure Continues (done : List UInt8) (d : Decoder Op) : Prop where
  prompt : Prompt d
  only : ∀ {bytes rest : List UInt8} {op : Op}, d bytes = .ok (op, rest) →
    done ++ bytes = op.encode ++ rest

theorem Continues.pure {op : Op} (whole : op.encode = done) : Continues done (Pure.pure op) := by
  refine ⟨prompt_pure op, fun read => ?_⟩
  cases read
  rw [whole]

theorem Continues.bind {f : α → Decoder Op} (reads : Reads d encode)
    (later : ∀ a, Continues (done ++ encode a) (f a)) : Continues done (d >>= f) := by
  refine ⟨reads.prompt.bind fun a => (later a).prompt, fun read => ?_⟩
  obtain ⟨a, middle, first, last⟩ := bind_eq_ok_iff.mp read
  rw [reads.only first, ← List.append_assoc]
  exact (later a).only last

theorem Continues.throw (e : DecodeError) : Continues done (MonadExcept.throw e) := by
  refine ⟨fun front rest after op read => ?_, fun read => ?_⟩
  · cases read
  · cases read

end Decoder

theorem NumericKind.toByte_of_ofByte? {k : NumericKind} (h : ofByte? b = some k) :
    k.toByte = b := by
  unfold ofByte? at h
  split at h <;> cases h <;> rfl

theorem CompareKind.toByte_of_ofByte? {k : CompareKind} (h : ofByte? b = some k) :
    k.toByte = b := by
  unfold ofByte? at h
  split at h <;> cases h <;> rfl

theorem arithByte_of_arithOfByte? {op : Bytecode.ArithOp} (h : arithOfByte? b = some op) :
    arithByte op = b := by
  unfold arithOfByte? at h
  split at h <;> cases h <;> rfl

theorem toByte_of_ofByte?_condition {c : Condition} (h : Condition.ofByte? b = some c) :
    c.toByte = b := by
  unfold Condition.ofByte? at h
  split at h <;> cases h <;> rfl

theorem Width.toByte_of_ofByte? {w : Width} (h : ofByte? b = some w) : w.toByte = b := by
  unfold ofByte? ofSize? at h
  apply UInt8.toNat_inj.mp
  split at h
  · rename_i size
    cases h
    exact size.symm
  · rename_i size
    cases h
    exact size.symm
  · rename_i size
    cases h
    exact size.symm
  · cases h

section Operands

open Decoder

/-- Each opcode goes on with its operands. -/
theorem continues_decodeOperands (opcode : UInt8) : Continues [opcode] (decodeOperands opcode) := by
  have word16 := reads_word16
  have word32 := reads_word32
  have word64 := reads_word64
  have signed32 := reads_signed32
  have numeric := reads_operand NumericKind.toByte_of_ofByte?
  have compared := reads_operand CompareKind.toByte_of_ofByte?
  have arith := reads_operand arithByte_of_arithOfByte?
  have condition := reads_operand toByte_of_ofByte?_condition
  have width := reads_operand Width.toByte_of_ofByte?
  unfold decodeOperands
  split
  · exact .bind word16 fun _ => .bind word16 fun _ => .pure rfl
  · exact .pure rfl
  · exact .bind word16 fun _ => .pure rfl
  · exact .bind word64 fun _ => .pure rfl
  · exact .bind word64 fun _ => .pure rfl
  · exact .bind signed32 fun _ => .pure rfl
  · exact .bind signed32 fun _ => .pure rfl
  · exact .pure rfl
  · exact .pure rfl
  · exact .pure rfl
  · exact .pure rfl
  · exact .bind (numeric _) fun _ => .bind (arith _) fun _ => .pure rfl
  · exact .pure rfl
  · exact .pure rfl
  · exact .pure rfl
  · exact .pure rfl
  · exact .pure rfl
  · exact .bind (compared _) fun _ => .bind (condition _) fun _ => .pure rfl
  · exact .bind signed32 fun _ => .pure rfl
  · exact .bind (compared _) fun _ => .bind (condition _) fun _ => .bind signed32 fun _ => .pure rfl
  · exact .bind signed32 fun _ => .pure rfl
  · exact .bind word64 fun _ => .pure rfl
  · exact .bind word16 fun _ => .pure rfl
  · exact .bind word32 fun _ => .pure rfl
  · exact .bind word32 fun _ => .pure rfl
  · exact .bind (width _) fun _ => .bind word32 fun _ => .pure rfl
  · exact .bind (width _) fun _ => .bind word32 fun _ => .pure rfl
  · exact .bind (width _) fun _ => .pure rfl
  · exact .bind (width _) fun _ => .pure rfl
  · exact .pure rfl
  · exact .bind word64 fun _ => .bind word32 fun _ => .pure rfl
  · exact .pure rfl
  · exact .bind word64 fun _ => .bind word32 fun _ => .pure rfl
  · exact .bind word64 fun _ => .bind word32 fun _ => .pure rfl
  · exact .throw _

theorem continues_decode : Continues [] decode :=
  .bind reads_byte continues_decodeOperands

end Operands

/-- What is read is the code of the instruction that is given. -/
theorem decode_eq_ok_iff {bytes : List UInt8} {op : Op} :
    decode bytes = .ok (op, rest) ↔ bytes = op.encode ++ rest := by
  constructor
  · exact continues_decode.only
  · rintro rfl
    exact decode_encode_append op rest

/-- The code of an instruction that is cut short is reported as truncated. -/
theorem decode_cut {op : Op} {front : List UInt8} (split : op.encode = front ++ rest)
    (missing : rest ≠ []) : decode front = .error .truncated := by
  have whole := decode_encode_append op []
  rw [List.append_nil, split] at whole
  rcases continues_decode.prompt front rest [] op whole with cut | ⟨middle, none, _⟩
  · exact cut
  · exact absurd (List.append_eq_nil_iff.mp none.symm).2 missing

end ManagedCode.Target
