import ManagedCode.Proofs.Placement

/-!
# Filling in the operand of a jump or a call

A jump or a call is emitted before its operand is known. Later the bytes of the operand are
overwritten where they stand; what results is the code of the same instruction with the new operand,
and the code around it is as before.

* `overwrite`: bytes with some of them replaced. `Buffer.toList_patch?`: this is what a patch does.
* `Repoints`: the same jump or call with another operand.
* `codec_exact`: the laws of the instruction codec.
-/

namespace ManagedCode.Target

/-- The bytes with those from an offset on replaced. -/
def overwrite (bytes : List UInt8) (offset : Nat) (data : List UInt8) : List UInt8 :=
  bytes.take offset ++ data ++ bytes.drop (offset + data.length)

variable {data : List UInt8} {offset : Nat}

/-- Replacing bytes in the middle leaves the bytes around it. -/
theorem overwrite_middle (front back : List UInt8) {middle : List UInt8}
    (inside : offset + data.length ≤ middle.length) :
    overwrite (front ++ middle ++ back) (front.length + offset) data
      = front ++ overwrite middle offset data ++ back := by
  have before : (front ++ middle ++ back).take (front.length + offset)
      = front ++ middle.take offset := by
    rw [List.append_assoc, List.take_length_add_append, List.take_append_of_le_length (by omega)]
  have after : (front ++ middle ++ back).drop (front.length + offset + data.length)
      = middle.drop (offset + data.length) ++ back := by
    rw [List.append_assoc, Nat.add_assoc, List.drop_length_add_append,
      List.drop_append_of_le_length inside]
  unfold overwrite
  rw [before, after]
  simp only [List.append_assoc]

/-- Replacing one byte and then those behind it. -/
theorem overwrite_set {bytes : List UInt8} (b : UInt8) (inside : offset < bytes.length) :
    overwrite (bytes.set offset b) (offset + 1) data = overwrite bytes offset (b :: data) := by
  have length : (bytes.take offset).length = offset := List.length_take_of_le (by omega)
  have cut : bytes.set offset b = bytes.take offset ++ b :: bytes.drop (offset + 1) := by
    rw [List.set_eq_take_append_cons_drop, if_pos inside]
  have before : (bytes.set offset b).take (offset + 1) = bytes.take offset ++ [b] := by
    rw [cut, List.take_append, length, List.take_take, Nat.min_eq_right (Nat.le_succ offset),
      Nat.add_sub_cancel_left]
    rfl
  have after : (bytes.set offset b).drop (offset + 1 + data.length)
      = bytes.drop (offset + (data.length + 1)) := by
    rw [List.drop_set_of_lt (by omega)]
    congr 1
    omega
  unfold overwrite
  rw [before, after, List.append_assoc (bytes.take offset)]
  rfl

namespace Buffer

open Compile (toList_eq_data)

theorem data_foldl_set (data : List UInt8) (offset start : Nat) (bytes : ByteArray)
    (inside : offset + start + data.length ≤ bytes.data.toList.length) :
    ((data.zipIdx start).foldl (fun bytes (value, i) => bytes.set! (offset + i) value)
        bytes).data.toList
      = overwrite bytes.data.toList (offset + start) data := by
  induction data generalizing start bytes with
  | nil =>
    rw [overwrite, List.append_nil]
    exact (List.take_append_drop (offset + start) _).symm
  | cons b rest ih =>
    rw [List.length_cons] at inside
    have set : (bytes.set! (offset + start) b).data.toList
        = bytes.data.toList.set (offset + start) b := Array.toList_setIfInBounds
    have room : offset + (start + 1) + rest.length
        ≤ (bytes.set! (offset + start) b).data.toList.length := by
      rw [set, List.length_set]
      omega
    rw [List.zipIdx_cons, List.foldl_cons, ih (start + 1) _ room, set, ← Nat.add_assoc,
      overwrite_set b (by omega)]

/-- A patch overwrites the bytes from its offset on. -/
theorem toList_patch? {b : Buffer} (inside : offset + data.length ≤ b.position) :
    ∃ patched, b.patch? offset data = some patched ∧
      patched.bytes.toList = overwrite b.bytes.toList offset data := by
  refine ⟨_, if_pos inside, ?_⟩
  rw [toList_eq_data, toList_eq_data]
  exact data_foldl_set data offset 0 b.bytes inside

theorem ext_toList {b b' : Buffer} (same : b.bytes.toList = b'.bytes.toList) : b = b' := by
  obtain ⟨⟨bytes⟩⟩ := b
  obtain ⟨⟨bytes'⟩⟩ := b'
  rw [toList_eq_data, toList_eq_data] at same
  have same : bytes = bytes' := Array.toList_inj.mp same
  rw [same]

end Buffer

/-- The same jump or call with another operand, which is given by its bytes. -/
inductive Repoints : Op → List UInt8 → Op → Prop where
  | jump (old new : Int32) : Repoints (.jump old) (Op.signed32 new) (.jump new)
  | jumpIf (kind : CompareKind) (condition : Bytecode.Condition) (old new : Int32) :
      Repoints (.jumpIf kind condition old) (Op.signed32 new) (.jumpIf kind condition new)
  | callRelative (old new : Int32) :
      Repoints (.callRelative old) (Op.signed32 new) (.callRelative new)
  | callAbsolute (old new : UInt64) :
      Repoints (.callAbsolute old) (Op.word64 new) (.callAbsolute new)

/-- The operand reaches from the patch offset to the end of the instruction, and overwriting it gives
the code of the new instruction. -/
theorem Repoints.overwrite {op op' : Op} (repoints : Repoints op data op') :
    ∃ offset, op.patchOffset? = some offset ∧ offset + data.length = op.encode.length ∧
      Target.overwrite op.encode offset data = op'.encode := by
  cases repoints with
  | jump | callRelative | callAbsolute => exact ⟨1, rfl, rfl, rfl⟩
  | jumpIf => exact ⟨3, rfl, rfl, rfl⟩

/-- Patching an instruction among others. -/
theorem patch?_emitAll {op op' : Op} (inside : offset + data.length ≤ op.encode.length)
    (replaced : overwrite op.encode offset data = op'.encode) (before after : List Op) :
    (Buffer.empty.emitAll (before ++ op :: after)).patch?
        ((Buffer.empty.emitAll before).position + offset) data
      = some (Buffer.empty.emitAll (before ++ op' :: after)) := by
  have code : ∀ ops : List Op, (Buffer.empty.emitAll ops).bytes.toList = ops.flatMap Op.encode := by
    intro ops
    rw [Compile.toList_emitAll, Compile.toList_eq_data]
    rfl
  have position : ∀ ops : List Op,
      (Buffer.empty.emitAll ops).position = (ops.flatMap Op.encode).length := by
    intro ops
    rw [← code, Compile.toList_eq_data]
    rfl
  have split : ∀ x : Op, (before ++ x :: after).flatMap Op.encode
      = before.flatMap Op.encode ++ x.encode ++ after.flatMap Op.encode := by
    intro x
    rw [List.flatMap_append, List.flatMap_cons, List.append_assoc]
  have room : (Buffer.empty.emitAll before).position + offset + data.length
      ≤ (Buffer.empty.emitAll (before ++ op :: after)).position := by
    rw [position, position, split, List.length_append, List.length_append]
    omega
  obtain ⟨patched, run, bytes⟩ := Buffer.toList_patch? room
  rw [run, Option.some.injEq]
  apply Buffer.ext_toList
  rw [bytes, code, code, position, split, split, overwrite_middle _ _ inside, replaced]

/-- The laws of the instruction codec. An instruction is read back from its bytes, whatever follows
them; whatever bytes an instruction is read from, they start with its code; an instruction without
its last bytes is truncated; and new bytes at the patch offset of a jump or call make it the
instruction with the new operand, alone and in the code around it. -/
theorem codec_exact :
    (∀ (op : Op) (rest : List UInt8), decode (op.encode ++ rest) = .ok (op, rest)) ∧
      (∀ (bytes rest : List UInt8) (op : Op), decode bytes = .ok (op, rest) →
        ∃ n ≤ bytes.length, rest = bytes.drop n ∧ op.encode = bytes.take n) ∧
      (∀ (op : Op) (n : Nat), n < op.encode.length →
        decode (op.encode.take n) = .error .truncated) ∧
      ∀ (op op' : Op) (data : List UInt8), Repoints op data op' →
        ∃ offset, op.patchOffset? = some offset ∧
          overwrite op.encode offset data = op'.encode ∧
          ∀ before after : List Op,
            (Buffer.empty.emitAll (before ++ op :: after)).patch?
                ((Buffer.empty.emitAll before).position + offset) data
              = some (Buffer.empty.emitAll (before ++ op' :: after)) := by
  refine ⟨decode_encode_append, fun bytes rest op read => ?_, fun op n short => ?_,
    fun op op' data repoints => ?_⟩
  · have split := decode_eq_ok_iff.mp read
    refine ⟨op.encode.length, ?_, ?_, ?_⟩
    · rw [split, List.length_append]
      exact Nat.le_add_right _ _
    · rw [split, List.drop_left]
    · rw [split, List.take_left]
  · refine decode_cut (List.take_append_drop n op.encode).symm fun none => ?_
    exact absurd (List.drop_eq_nil_iff.mp none) (Nat.not_le.mpr short)
  · obtain ⟨offset, known, length, replaced⟩ := repoints.overwrite
    exact ⟨offset, known, replaced, patch?_emitAll (Nat.le_of_eq length) replaced⟩

end ManagedCode.Target
