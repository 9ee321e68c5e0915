import ManagedCode.Proofs.Direct.Matching

/-!
# Instructions on objects

Instructions that read, change and make objects lead to the same on words and on values: a place of
an object in the heap is a value of an object of the store, and the same indices are outside.
-/

namespace ManagedCode.Direct

open Bytecode TypeSystem
open Heap (Arena HasType WellTyped)
open Machine (toInt)

/-! ## Places and positions -/

variable {v : UInt64}

section Places

variable {name : UInt64}

theorem position_outside {o : Object} {index : Int32} (small : o.values.length < 2 ^ 31)
    (outside : index < 0 ∨ Int32.ofNat o.values.length ≤ index) (s : State) :
    position o index s
      = .error (.stopped (.trap (.indexOutside index (Int32.ofNat o.values.length)))) s := by
  have none : ¬ (0 ≤ index.toInt ∧ index.toInt < o.values.length) := by
    rintro ⟨low, high⟩
    rw [Int32.lt_iff_toInt_lt, Int32.le_iff_toInt_le, Int32.toInt_ofNat_of_lt small,
      Int32.toInt_zero] at outside
    omega
  unfold position
  rw [if_neg none]
  rfl

theorem position_inside {o : Object} {n : Nat} (small : o.values.length < 2 ^ 31)
    (bound : n < o.values.length) (s : State) : position o (Int32.ofNat n) s = .ok n s := by
  unfold position
  rw [Int32.toInt_ofNat_of_lt (Nat.lt_trans bound small),
    if_pos ⟨Int.natCast_nonneg n, Int.ofNat_lt.mpr bound⟩]
  rfl

variable {types : TypeTable} {a : Arena} {o : Heap.Object}

section

variable (typed : WellTyped types true a) (here : a.object? types name = some o)

include typed here

theorem ne_null : name ≠ 0 := by
  obtain ⟨cells, regular⟩ := typed.regular
  obtain ⟨cell, x, at_⟩ := Arena.at_of_object? regular here
  rintro rfl
  have address := regular.tiled.toNat_address regular.placed at_.mem at_.live
  rw [at_.address, UInt64.toNat_zero] at address
  have positive : 0 < Heap.headerSize := by decide
  omega

theorem length_readObject : (readObject types o).values.length = o.words.length :=
  length_decodeAll (typed.objects name o here).length_eq

end

variable {i : Nat} {q : Nat × TypeId}

theorem value_of_place (place : (o.places types)[i]? = some q) (value : o.words[i]? = some v) :
    (readObject types o).values[i]? = some (decode types q.2 v) :=
  getElem?_decodeAll (Heap.Object.slotTypes_of_place place) value

/-- There is a value for every place. -/
theorem bound_of_place (typed : WellTyped types true a) (here : a.object? types name = some o)
    (place : (o.places types)[i]? = some q) : i < (readObject types o).values.length := by
  have bound := (List.getElem?_eq_some_iff.mp (Heap.Object.slotTypes_of_place place)).1
  rw [length_readObject typed here]
  exact (typed.objects name o here).length_eq ▸ bound

end Places

/-! ## Instructions that access objects -/

section Objects

variable {p : Program} {root : FunctionId} {c : Configuration UInt64} {s : State} {f : Function}
  {returns : TypeId} {low : OperandTypes} {rest : List UInt64} {w : UInt64}
variable {element type : TypeId} {layout : Layout}

variable {r : FieldRef} {field : Field} {dataSize : Nat}

section Fields

variable (both : Alongside p root c s f) (object : p.types.layout? r.owner = some layout)
  (here : layout.fields[r.index]? = some field) (offset : field.offset = r.offset.toNat)
  (same : field.type = r.type)

include both object here offset same

theorem matches_loadField (flow : p.Flows f c.current (.loadField r) (r.type :: low))
    (top : c.operands = w :: rest) (has : HasType p.types true c.world.heap r.owner w)
    (tops : s.current.operands = decode p.types r.owner w :: decodeAll p.types low rest) :
    MatchesOn p returns f c s (.loadField r) := by
  rw [decode_reference (isReference_of_layout? object)] at tops
  rcases perform_loadField both.ready.types object here offset same has both.typed.heap top with
    ⟨null, ran⟩ | ⟨o, there, _, v, place, value, ran⟩
  · rw [null] at tops
    exact both.rep.stopped ran (bind_of_error (bind_of_error (popName_null tops))) rfl rfl
  · have computed : compute p.types (.loadField r) s
        = .ok () (s.withOperands (decode p.types r.type v :: decodeAll p.types low rest)) := by
      unfold compute
      dsimp only
      rw [bind_of_ok (popName_eq tops (ne_null both.typed.heap there)),
        bind_of_ok (object_eq (both.rep.store.objects _ _ there) _),
        bind_of_ok (expect_eq (value_of_place place value) _)]
      rfl
    exact matches_next ran (bind_of_ok computed) (both.goOn flow rfl rfl)

theorem matches_storeField (flow : p.Flows f c.current (.storeField r) low)
    (top : c.operands = v :: w :: rest) (good : HasType p.types true c.world.heap r.type v)
    (has : HasType p.types true c.world.heap r.owner w)
    (tops : s.current.operands
      = decode p.types r.type v :: decode p.types r.owner w :: decodeAll p.types low rest) :
    MatchesOn p returns f c s (.storeField r) := by
  rw [decode_reference (isReference_of_layout? object)] at tops
  rcases perform_storeField both.ready.types object here offset same has both.typed.heap top with
    ⟨null, ran⟩ | ⟨o, there, _, width, place, moved, ran⟩
  · rw [null] at tops
    exact both.rep.stopped ran (bind_of_error ((bind_of_ok (pop_eq tops)).trans
      (bind_of_error (popName_null rfl)))) rfl rfl
  · have computed : compute p.types (.storeField r) s = .ok ()
        { s.withOperands (decodeAll p.types low rest) with
          store := s.store.set w ⟨o.type,
            (readObject p.types o).values.set r.index (decode p.types r.type v)⟩ } := by
      unfold compute
      dsimp only
      rw [bind_of_ok (pop_eq tops), bind_of_ok (popName_eq rfl (ne_null both.typed.heap there)),
        State.withOperands_withOperands,
        bind_of_ok (object_eq (both.rep.store.objects _ _ there) _)]
      rfl
    obtain ⟨cells, regular⟩ := both.typed.heap.regular
    have kept := both.rep.inWorld (c.world.stored (w + UInt64.ofNat r.offset.toNat) width v)
      (both.rep.store.stored both.ready.types regular there place moved good) both.rep.output
    exact matches_next ran (bind_of_ok computed) (kept.goOn both.found flow rfl rfl)

end Fields

section

variable (both : Alongside p root c s f) (array : p.types.element? type = some element)

include both array

variable {i : UInt64}

theorem matches_loadElement (flow : p.Flows f c.current (.loadElement type) (element :: low))
    (top : c.operands = i :: w :: rest) (has : HasType p.types true c.world.heap type w)
    (tops : s.current.operands
      = decode p.types .int i :: decode p.types type w :: decodeAll p.types low rest) :
    MatchesOn p returns f c s (.loadElement type) := by
  rw [decode_int both.ready.types, decode_reference (isReference_of_element? array)] at tops
  rcases perform_loadElement both.ready.types both.typed.heap array has top with
    ⟨null, ran⟩ | ⟨o, there, _, small, cases_⟩
  · rw [null] at tops
    exact both.rep.stopped ran (bind_of_error ((bind_of_ok (popInt_eq tops)).trans
      (bind_of_error (popName_null rfl)))) rfl rfl
  · have length := length_readObject both.typed.heap there
    rw [← length] at small cases_
    -- Up to the check of the index.
    have looked : compute p.types (.loadElement type) s
        = (do
            let n ← position (readObject p.types o) (toInt i)
            push (← expect (readObject p.types o).values[n]?) : Action Unit)
          (s.withOperands (decodeAll p.types low rest)) := by
      unfold compute
      dsimp only
      rw [bind_of_ok (popInt_eq tops), bind_of_ok (popName_eq rfl (ne_null both.typed.heap there)),
        State.withOperands_withOperands,
        bind_of_ok (object_eq (both.rep.store.objects _ _ there) _)]
    rcases cases_ with ⟨outside, ran⟩ | ⟨n, _, index, _, _, v, place, value, ran⟩
    · exact both.rep.stopped ran
        (bind_of_error (looked.trans (bind_of_error (position_outside small outside _)))) rfl rfl
    · rw [index, bind_of_ok (position_inside small (bound_of_place both.typed.heap there place) _),
        bind_of_ok (expect_eq (value_of_place place value) _)] at looked
      exact matches_next ran (bind_of_ok looked) (both.goOn flow rfl rfl)

theorem matches_storeElement (flow : p.Flows f c.current (.storeElement type) low)
    (top : c.operands = v :: i :: w :: rest) (good : HasType p.types true c.world.heap element v)
    (has : HasType p.types true c.world.heap type w)
    (tops : s.current.operands = decode p.types element v :: decode p.types .int i ::
      decode p.types type w :: decodeAll p.types low rest) :
    MatchesOn p returns f c s (.storeElement type) := by
  rw [decode_int both.ready.types, decode_reference (isReference_of_element? array)] at tops
  rcases perform_storeElement both.ready.types both.typed.heap array has top with
    ⟨null, ran⟩ | ⟨o, there, _, small, cases_⟩
  · rw [null] at tops
    have failed : compute p.types (.storeElement type) s = .error
        (.stopped (.trap (.null .elementStore))) (s.withOperands (decodeAll p.types low rest)) := by
      unfold compute
      dsimp only
      rw [bind_of_ok (pop_eq tops), bind_of_ok (popInt_eq rfl), bind_of_error (popName_null rfl)]
      rfl
    exact both.rep.stopped ran (bind_of_error failed) rfl rfl
  · have length := length_readObject both.typed.heap there
    rw [← length] at small cases_
    -- Up to the check of the index.
    have looked : compute p.types (.storeElement type) s
        = (do
            let n ← position (readObject p.types o) (toInt i)
            assign w (readObject p.types o) n (decode p.types element v) : Action Unit)
          (s.withOperands (decodeAll p.types low rest)) := by
      unfold compute
      dsimp only
      rw [bind_of_ok (pop_eq tops), bind_of_ok (popInt_eq rfl),
        bind_of_ok (popName_eq rfl (ne_null both.typed.heap there)),
        State.withOperands_withOperands, State.withOperands_withOperands,
        bind_of_ok (object_eq (both.rep.store.objects _ _ there) _)]
    rcases cases_ with ⟨outside, ran⟩ | ⟨n, _, index, _, _, width, place, moved, ran⟩
    · exact both.rep.stopped ran
        (bind_of_error (looked.trans (bind_of_error (position_outside small outside _)))) rfl rfl
    · rw [index, bind_of_ok (position_inside small (bound_of_place both.typed.heap there place) _)]
        at looked
      obtain ⟨cells, regular⟩ := both.typed.heap.regular
      have kept := both.rep.inWorld (c.world.stored
        (w + UInt64.ofNat (Heap.lengthSize + n * p.types.size element)) width v)
        (both.rep.store.stored both.ready.types regular there place moved good) both.rep.output
      exact matches_next ran (bind_of_ok looked) (kept.goOn both.found flow rfl rfl)

theorem matches_arrayLength (flow : p.Flows f c.current .arrayLength (.int :: low))
    (top : c.operands = w :: rest) (has : HasType p.types true c.world.heap type w)
    (tops : s.current.operands = decode p.types type w :: decodeAll p.types low rest) :
    MatchesOn p returns f c s .arrayLength := by
  rw [decode_reference (isReference_of_element? array)] at tops
  rcases perform_arrayLength both.typed.heap array has top with ⟨null, ran⟩ | ⟨o, there, _, ran⟩
  · rw [null] at tops
    exact both.rep.stopped ran (bind_of_error (bind_of_error (popName_null tops))) rfl rfl
  · have computed : compute p.types .arrayLength s = .ok () (s.withOperands (.int
        (Int32.ofNat (readObject p.types o).values.length) :: decodeAll p.types low rest)) := by
      unfold compute
      dsimp only
      rw [bind_of_ok (popName_eq tops (ne_null both.typed.heap there)),
        bind_of_ok (object_eq (both.rep.store.objects _ _ there) _)]
      rfl
    rw [length_readObject both.typed.heap there, ← decode_ofInt both.ready.types] at computed
    exact matches_next ran (bind_of_ok computed) (both.goOn flow rfl rfl)

end

/-! ## Instructions that make objects -/

theorem Represents.full (rep : Represents p.types p.functions c s)
    (full : c.world.heap.fit? dataSize = none) (o : Object) (operands : List Value) :
    allocate dataSize o (s.withOperands operands)
      = .error (.stopped (.heapExhausted dataSize c.world.heap.available))
          (s.withOperands operands) := by
  have none : (s.withOperands operands).store.room? dataSize = none :=
    (rep.store.room? dataSize).trans full
  have available : (s.withOperands operands).store.available = c.world.heap.available :=
    rep.store.available
  unfold allocate
  rw [get_bind, none, available]
  rfl

theorem Represents.fits (rep : Represents p.types p.functions c s) {total : Nat}
    (fits : c.world.heap.fit? dataSize = some total) (o : Object) (operands : List Value) :
    allocate dataSize o (s.withOperands operands) = .ok () { s.withOperands
      (.ref c.world.heap.nextData :: operands) with store := s.store.add total o } := by
  have room : (s.withOperands operands).store.room? dataSize = some total :=
    (rep.store.room? dataSize).trans fits
  have next : (s.withOperands operands).store.next = c.world.heap.nextData := rep.store.next
  unfold allocate
  rw [get_bind, room, next]
  rfl

theorem matches_newObject (both : Alongside p root c s f)
    (object : p.types.layout? type = some layout)
    (flow : p.Flows f c.current (.newObject type) (type :: low))
    (tops : s.current.operands = decodeAll p.types low c.operands) :
    MatchesOn p returns f c s (.newObject type) := by
  have made : compute p.types (.newObject type) s
      = allocate (max layout.size Heap.minDataSize)
          ⟨type, (layout.fields.map (·.type)).map (.initial p.types)⟩
          (s.withOperands s.current.operands) := by
    rw [List.map_map]
    exact bind_of_ok (expect_eq object s)
  rcases perform_newObject both.typed.heap object with ⟨full, ran⟩ | ⟨total, b, fits, extended, ran⟩
  · exact both.rep.stopped ran (bind_of_error (made.trans (both.rep.full full _ _))) rfl rfl
  · obtain ⟨cells, regular⟩ := both.typed.heap.regular
    have slots : (Heap.placesIn p.types type (b.firstWord c.world.heap.used).toNat).map Prod.snd
        = layout.fields.map (·.type) := by
      rw [Heap.placesIn_of_layout object, List.map_map]
      rfl
    have kept := both.rep.inWorld (c.world.withHeap b)
      (both.rep.store.extended both.ready.types regular extended slots) both.rep.output
    refine matches_next ran (bind_of_ok (made.trans (both.rep.fits fits _ _)))
      (kept.goOn both.found flow rfl ?_)
    show Value.ref c.world.heap.nextData :: s.current.operands = _
    rw [tops, ← decode_reference (isReference_of_layout? object)]
    rfl

theorem matches_newArray (both : Alongside p root c s f)
    (array : p.types.element? type = some element)
    (flow : p.Flows f c.current (.newArray type) (type :: low))
    (top : c.operands = w :: rest)
    (tops : s.current.operands = decode p.types .int w :: decodeAll p.types low rest) :
    MatchesOn p returns f c s (.newArray type) := by
  rw [decode_int both.ready.types] at tops
  have popped : compute p.types (.newArray type) s
      = newArray p.types type (toInt w) (s.withOperands (decodeAll p.types low rest)) :=
    bind_of_ok (popInt_eq tops)
  unfold newArray at popped
  rcases perform_newArray both.typed.heap array top with
    ⟨negative, ran⟩ | ⟨positive, n, small, length, cases_⟩
  · rw [if_pos negative] at popped
    exact both.rep.stopped ran (bind_of_error popped) rfl rfl
  · rw [if_neg (Int32.not_lt.mpr positive), length, Int32.toInt_ofNat_of_lt small,
      Int.toNat_natCast] at popped
    have made := popped.trans (bind_of_ok (expect_eq array _))
    rw [← List.map_replicate] at made
    rcases cases_ with ⟨full, ran⟩ | ⟨total, b, fits, extended, first, ran⟩
    · exact both.rep.stopped ran (bind_of_error (made.trans (both.rep.full full _ _))) rfl rfl
    · obtain ⟨cells, regular⟩ := both.typed.heap.regular
      have slots : (Heap.placesIn p.types type (b.firstWord c.world.heap.used).toNat).map Prod.snd
          = List.replicate n element := by
        have same : (List.range n).map (fun _ => element) = List.replicate n element := by
          rw [List.map_const', List.length_range]
        rw [first, Heap.placesIn_of_element array, List.map_map]
        exact same
      have kept := both.rep.inWorld (c.world.withHeap b)
        (both.rep.store.extended both.ready.types regular extended slots) both.rep.output
      refine matches_next ran (bind_of_ok (made.trans (both.rep.fits fits _ _)))
        (kept.goOn both.found flow rfl ?_)
      rw [← decode_reference (isReference_of_element? array)]
      rfl

end Objects

end ManagedCode.Direct
