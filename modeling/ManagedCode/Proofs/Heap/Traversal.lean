import ManagedCode.Heap.Mark

/-!
# Traversals end on any bytes

The walk over an arena and the marker come to an end whatever the bytes of the arena are, whether they
are objects or not. Every turn of the walk gets over nine bytes at least. A turn of the marker takes
a reference off its stack or sets a bit that was clear, and none clears a bit.

* `Arena.Walks`, `Arena.Marking`: runs of the two loops, with the number of their turns.
* `Arena.traversals_end`: both loops on any bytes.
-/

namespace ManagedCode.Heap.Arena

open TypeSystem (TypeId TypeTable)

/-- The walk from an offset takes a number of turns and ends with a result. -/
inductive Walks (a : Arena) (types : TypeTable) :
    Nat → Nat → Array HeapObject → Array HeapObject × Option GcError → Prop
  | done {offset : Nat} (found : Array HeapObject) (ended : ¬ offset < a.used) :
      Walks a types 0 offset found (found, none)
  | stops {offset : Nat} {e : GcError} (found : Array HeapObject) (inside : offset < a.used)
      (bad : a.cell types offset = .error e) : Walks a types 1 offset found (found, some e)
  | turn {n offset size : Nat} {object : Option HeapObject} {found : Array HeapObject}
      {result : Array HeapObject × Option GcError} (inside : offset < a.used)
      (here : a.cell types offset = .ok (size, object))
      (rest : Walks a types n (offset + size) (match object with
        | some o => found.push o
        | none => found) result) : Walks a types (n + 1) offset found result

/-- A reference that the marker accepts: it has the header of a live object, marked or not. -/
structure Meets (a : Arena) (data : UInt64) (h : Header) (marked : Bool) : Prop where
  inside : a.contains data = true
  header : a.header? data = some h
  live : h.isTombstone = false
  mark : h.info.isMarked = marked

/-- The marker sets a number of marks in a number of turns and leaves an arena, with an error if it
stopped before its stack was empty. -/
inductive Marking (types : TypeTable) :
    Nat → Nat → Arena → List UInt64 → Option GcError → Arena → Prop
  | done (a : Arena) : Marking types 0 0 a [] none a
  | rejects {a : Arena} {data : UInt64} {rest : List UInt64}
      (bad : a.contains data = false ∨ a.header? data = none ∨
        ∃ h, a.header? data = some h ∧ h.isTombstone = true) :
      Marking types 0 1 a (data :: rest) (some (.invalidReference data)) a
  | skips {a b : Arena} {data : UInt64} {rest : List UInt64} {h : Header} {marks turns : Nat}
      {e : Option GcError} (again : a.Meets data h true)
      (next : Marking types marks turns a rest e b) :
      Marking types marks (turns + 1) a (data :: rest) e b
  | stops {a : Arena} {data : UInt64} {rest : List UInt64} {h : Header} {e : GcError}
      (new : a.Meets data h false)
      (why : TypeId.ofRaw? h.type = none ∧ e = .invalidReference data ∨
        ∃ type, TypeId.ofRaw? h.type = some type ∧
          (a.setInfo data h.info.marked).pushReferences types type data rest = .error e) :
      Marking types 1 1 a (data :: rest) (some e) (a.setInfo data h.info.marked)
  | visits {a b : Arena} {data : UInt64} {rest pushed : List UInt64} {h : Header} {type : TypeId}
      {marks turns : Nat} {e : Option GcError} (new : a.Meets data h false)
      (known : TypeId.ofRaw? h.type = some type)
      (follows : (a.setInfo data h.info.marked).pushReferences types type data rest = .ok pushed)
      (next : Marking types marks turns (a.setInfo data h.info.marked) pushed e b) :
      Marking types (marks + 1) (turns + 1) a (data :: rest) e b

/-- What the marker answers when it started with a count. -/
def markAnswer (count : Nat) (b : Arena) : Option GcError → EStateM.Result GcError Arena Nat
  | none => .ok count b
  | some e => .error e b

section

variable {a b : Arena} {types : TypeTable}

theorem exists_walks (a : Arena) (types : TypeTable) (offset : Nat) (found : Array HeapObject) :
    ∃ n, a.Walks types n offset found (a.walkFrom types offset found) := by
  fun_induction walkFrom a types offset found with
  | case1 offset found inside e bad => exact ⟨1, .stops found inside bad⟩
  | case2 offset found inside size object here ih =>
    obtain ⟨n, rest⟩ := ih
    exact ⟨n + 1, .turn inside here rest⟩
  | case3 offset found ended => exact ⟨0, .done found ended⟩

/-- All turns but the last get over nine bytes of the used part. -/
theorem Walks.turns_le {n offset : Nat} {found : Array HeapObject}
    {result : Array HeapObject × Option GcError} (walks : a.Walks types n offset found result) :
    n = 0 ∨ offset + minSize * (n - 1) < a.used := by
  induction walks with
  | done => exact .inl rfl
  | stops _ inside => exact .inr inside
  | turn inside here _ ih =>
    have far := minSize_le_of_cell here
    rw [minSize, headerSize, minDataSize] at *
    omega

theorem exists_marking (types : TypeTable) (a : Arena) (worklist : List UInt64) (count : Nat) :
    ∃ marks turns e b, Marking types marks turns a worklist e b ∧
      mark types a worklist count = markAnswer (count + marks) b e := by
  fun_induction mark types a worklist count with
  | case1 a count => exact ⟨0, 0, none, a, .done a, rfl⟩
  | case2 a count data rest inside missing =>
    exact ⟨0, 1, _, a, .rejects (.inr (.inl missing)), rfl⟩
  | case3 a count data rest inside h header dead =>
    exact ⟨0, 1, _, a, .rejects (.inr (.inr ⟨h, header, dead⟩)), rfl⟩
  | case4 a count data rest inside h header live again ih =>
    obtain ⟨marks, turns, e, b, next, same⟩ := ih
    exact ⟨marks, turns + 1, e, b, .skips ⟨inside, header, by simpa using live, again⟩ next, same⟩
  | case5 a count data rest inside h header live new next unknown =>
    exact ⟨1, 1, _, _, .stops ⟨inside, header, by simpa using live, by simpa using new⟩
      (.inl ⟨unknown, rfl⟩), rfl⟩
  | case6 a count data rest inside h header live new next type known e failed =>
    exact ⟨1, 1, _, _, .stops ⟨inside, header, by simpa using live, by simpa using new⟩
      (.inr ⟨type, known, failed⟩), rfl⟩
  | case7 a count data rest inside h header live new next type known pushed follows ih =>
    obtain ⟨marks, turns, e, b, rest, same⟩ := ih
    refine ⟨marks + 1, turns + 1, e, b, .visits ⟨inside, header, by simpa using live,
      by simpa using new⟩ known follows rest, ?_⟩
    rw [same, Nat.add_assoc, Nat.add_comm 1]
  | case8 a count data rest outside =>
    exact ⟨0, 1, _, a, .rejects (.inl (by simpa using outside)), rfl⟩

/-- `b` is `a` with so many bits set that were clear, and none cleared. -/
structure SetsBits (a b : Arena) (marks : Nat) : Prop where
  size : b.region.size = a.region.size
  kept : ∀ i, a.region.byte i &&& 1 ≠ 0 → b.region.byte i &&& 1 ≠ 0
  counted : marks + b.unmarked ≤ a.unmarked

theorem SetsBits.refl (a : Arena) : a.SetsBits a 0 := ⟨rfl, fun _ set => set, by omega⟩

theorem SetsBits.trans {c : Arena} {m n : Nat} (first : a.SetsBits b m) (second : b.SetsBits c n) :
    a.SetsBits c (n + m) := by
  have counted := first.counted
  have counted' := second.counted
  exact ⟨second.size.trans first.size, fun i set => second.kept i (first.kept i set), by omega⟩

/-- A mark sets one bit, which was clear. -/
theorem Meets.setsBits {data : UInt64} {h : Header} (new : a.Meets data h false) :
    a.SetsBits (a.setInfo data h.info.marked) 1 := by
  obtain ⟨offset, place, _⟩ := info_of_header? new.header
  have fewer := unmarked_setInfo_lt new.header new.mark
  refine ⟨by rw [setInfo_eq _ place, size_setByte], fun i set => ?_, by omega⟩
  rw [setInfo_eq _ place, Memory.Region.byte_setByte]
  split
  · exact bne_iff_ne.mp (isMarked_marked h.info)
  · exact set

theorem Marking.setsBits {marks turns : Nat} {worklist : List UInt64} {e : Option GcError}
    (marking : Marking types marks turns a worklist e b) : a.SetsBits b marks := by
  induction marking with
  | done a | rejects => exact .refl _
  | skips _ _ ih => exact ih
  | stops new => exact new.setsBits
  | visits new _ _ _ ih => exact new.setsBits.trans ih

theorem unmarked_le (a : Arena) : a.unmarked ≤ a.region.size := by
  have most := List.countP_le_length (l := List.range a.region.size)
    (p := fun i => a.region.byte i &&& 1 == 0)
  rwa [List.length_range] at most

end

/-- **Traversals end.** On any bytes, with any used part, types and roots: a turn of the walk gets over
nine bytes at least, and the walk ends after at most one turn for nine bytes of the used part and one
more. The marker ends; it sets at most as many marks as there are bytes, each of them a bit that was
clear, and clears no bit. -/
theorem traversals_end (a : Arena) (types : TypeTable) (roots : List UInt64) :
    (∀ offset size object, a.cell types offset = .ok (size, object) → 9 ≤ size) ∧
    (∃ n, a.Walks types n 0 #[] (a.walk types) ∧ n ≤ a.used / 9 + 1) ∧
    ∃ marks turns e b, Marking types marks turns a roots e b ∧
      mark types a roots 0 = markAnswer marks b e ∧ marks ≤ a.region.size ∧
      (∀ i, a.region.byte i &&& 1 ≠ 0 → b.region.byte i &&& 1 ≠ 0) ∧
      marks + b.unmarked ≤ a.unmarked := by
  refine ⟨fun _ _ _ here => minSize_le_of_cell here, ?_, ?_⟩
  · obtain ⟨n, walks⟩ := exists_walks a types 0 #[]
    have few := walks.turns_le
    rw [minSize, headerSize, minDataSize] at few
    exact ⟨n, walks, by omega⟩
  · obtain ⟨marks, turns, e, b, marking, same⟩ := exists_marking types a roots 0
    obtain ⟨_, kept, counted⟩ := marking.setsBits
    have most := a.unmarked_le
    exact ⟨marks, turns, e, b, marking, same.trans (by rw [Nat.zero_add]), by omega, kept, counted⟩

end ManagedCode.Heap.Arena
