import ManagedCode.Heap.Arena

/-!
# Marking

`Arena.mark` sets the mark of every object that a list of references leads to. It follows the
references on a stack, the last one pushed first. The mark is the lowest bit of a byte in front
of the object's data; marking sets a bit that was clear and no step clears one, so the number
of clear bits (`Arena.unmarked`) bounds the work whatever the bytes of the arena are
(`unmarked_setInfo_lt`).
-/

namespace ManagedCode.Heap

open Memory (Region)
open TypeSystem (TypeId TypeTable Shape Layout Field)

namespace Arena

/-- Puts the reference in a slot on the stack, unless it is null. -/
def pushSlot (a : Arena) (worklist : List UInt64) (slot : UInt64) :
    Except GcError (List UInt64) :=
  match a.region.read64? slot with
  | none => .error (.corruptHeap slot)
  | some value => .ok (if value = 0 then worklist else value :: worklist)

/-- Puts the references in consecutive slots on the stack. -/
def pushSlots (a : Arena) : Nat → UInt64 → List UInt64 → Except GcError (List UInt64)
  | 0, _, worklist => .ok worklist
  | n + 1, slot, worklist =>
      match a.pushSlot worklist slot with
      | .error e => .error e
      | .ok worklist => pushSlots a n (slot + 8) worklist

/-- Puts the references that an object holds on the stack: the reference fields of an object
of a class, the elements of an array of references. -/
def pushReferences (a : Arena) (types : TypeTable) (type : TypeId) (data : UInt64)
    (worklist : List UInt64) : Except GcError (List UInt64) :=
  match types.shape? type with
  | none => .error (.corruptHeap data)
  | some (.object (some layout)) =>
      layout.references.foldlM
        (fun worklist field => a.pushSlot worklist (data + UInt64.ofNat field.offset)) worklist
  | some (.array element) =>
      if types.isReference element then
        match a.region.read32? data with
        | none => .error (.corruptHeap data)
        | some length =>
            a.pushSlots length.toNat (data + UInt64.ofNat lengthSize) worklist
      else .ok worklist
  | some _ => .ok worklist

/-- How many bytes of the arena have a clear lowest bit. -/
def unmarked (a : Arena) : Nat :=
  (List.range a.region.size).countP fun i => a.region.byte i &&& 1 == 0

theorem countP_lt_of_imp {p q : Nat → Bool} {l : List Nat} {i : Nat} (mem : i ∈ l)
    (imp : ∀ j, q j = true → p j = true) (before : p i = true) (after : q i = false) :
    l.countP q < l.countP p := by
  induction l with
  | nil => cases mem
  | cons head tail ih =>
      have mono : tail.countP q ≤ tail.countP p :=
        List.countP_mono_left fun j _ => imp j
      rw [List.countP_cons, List.countP_cons]
      rcases List.mem_cons.mp mem with rfl | there
      · simp only [before, after, if_true, Bool.false_eq_true, if_false]
        omega
      · have smaller := ih there
        by_cases head' : q head = true
        · simp only [head', imp head head', if_true]
          omega
        · simp only [head', Bool.false_eq_true, if_false]
          omega

/-- Where the collector's byte of an object stands. -/
theorem info_of_header? {a : Arena} {data : UInt64} {h : Header} (read : a.header? data = some h) :
    ∃ offset, a.region.offset? (data - 1) 1 = some offset ∧
      a.region.byte offset = h.info.byte := by
  unfold header? Header.read? at read
  split at read
  · cases read
  · cases type : a.region.read32? (data - 5) with
    | none => simp [type] at read
    | some t =>
        cases info : a.region.read8? (data - 1) with
        | none => simp [type, info] at read
        | some b =>
            simp only [type, info, Option.bind_eq_bind, Option.bind_some, Option.pure_def,
              Option.some.injEq] at read
            subst read
            unfold Region.read8? Region.readWord? Region.read? at info
            cases place : a.region.offset? (data - 1) 1 with
            | none => simp [place] at info
            | some offset =>
                refine ⟨offset, rfl, ?_⟩
                simpa [place, Region.bytesAt, decodeLE] using info

theorem offset?_lt {r : Region} {address : UInt64} {offset : Nat}
    (h : r.offset? address 1 = some offset) : offset < r.size := by
  unfold Region.offset? at h
  split at h
  · cases h
    omega
  · cases h

/-- Changing the collector's byte changes that one byte. -/
theorem setInfo_eq {a : Arena} {data : UInt64} {offset : Nat} (info : GcInfo)
    (h : a.region.offset? (data - 1) 1 = some offset) :
    (a.setInfo data info).region = a.region.setByte offset info.byte := by
  have bytes : encodeLE 1 info.byte.toUInt64 = [info.byte] := by simp [encodeLE]
  simp only [setInfo, Region.writeWord, Region.write, bytes, List.length_singleton, h,
    Region.setBytes]

theorem size_setByte (r : Region) (i : Nat) (value : UInt8) : (r.setByte i value).size = r.size := by
  unfold Region.setByte
  split <;> rfl

theorem isMarked_marked (info : GcInfo) : info.marked.isMarked = true := by
  have bit : (info.byte ||| 1) &&& 1 = 1 := by
    apply UInt8.toNat_inj.mp
    simp
  simp [GcInfo.isMarked, GcInfo.marked, bit]

/-- Marking an object clears one clear bit less. -/
theorem unmarked_setInfo_lt {a : Arena} {data : UInt64} {h : Header}
    (read : a.header? data = some h) (clear : h.info.isMarked = false) :
    (a.setInfo data h.info.marked).unmarked < a.unmarked := by
  obtain ⟨offset, place, byte⟩ := info_of_header? read
  have odd := isMarked_marked h.info
  simp only [GcInfo.isMarked, bne_eq_false_iff_eq] at clear
  simp only [GcInfo.isMarked, bne_iff_ne, ne_eq] at odd
  simp only [unmarked, setInfo_eq _ place, size_setByte, Region.byte_setByte]
  refine countP_lt_of_imp (i := offset) (List.mem_range.mpr (offset?_lt place)) ?_ ?_ ?_
  · intro j even
    by_cases e : j = offset
    · simp only [e, if_true, beq_iff_eq] at even
      exact absurd even odd
    · simpa [e] using even
  · simp [byte, clear]
  · simpa using odd

set_option linter.unusedVariables false in
/-- Marks what the references lead to and counts the objects. A reference to anything but a
live object is an error, and so is an object whose references cannot be read; the marks set
until then stay. -/
def mark (types : TypeTable) (a : Arena) (worklist : List UInt64) (count : Nat) :
    EStateM.Result GcError Arena Nat :=
  match worklist with
  | [] => .ok count a
  | data :: rest =>
      if a.contains data then
        match read : a.header? data with
        | none => .error (.invalidReference data) a
        | some header =>
            if header.isTombstone then .error (.invalidReference data) a
            else if marked : header.info.isMarked then mark types a rest count
            else
              let next := a.setInfo data header.info.marked
              match TypeId.ofRaw? header.type with
              | none => .error (.invalidReference data) next
              | some type =>
                  match next.pushReferences types type data rest with
                  | .error e => .error e next
                  | .ok worklist => mark types next worklist (count + 1)
      else .error (.invalidReference data) a
termination_by (a.unmarked, worklist.length)
decreasing_by
  · exact Prod.Lex.right _ (Nat.lt_succ_self _)
  · exact Prod.Lex.left _ _ (unmarked_setInfo_lt read (by simpa using marked))

end Arena

end ManagedCode.Heap
