import ManagedCode.Handle
import Mathlib.Algebra.Group.Nat.Defs

/-!
# Slot tables as maps

Whatever is asked of a slot table, it behaves as a map from handles to values. A handle that is
issued names no value before, a removed one names none afterwards, and no request touches the value
of another handle.

* `SlotTable.Request`, `SlotTable.answers`, `SlotTable.after`: a sequence of requests, its answers and
  where it leads.
* `SlotTable.MapStep`, `SlotTable.MapRun`: what a map does when it is asked the same.
* `SlotTable.Consistent`: slots, free slots and the count of values agree.
* `SlotTable.refines_map`: every sequence of requests, as long as each slot has a number.
-/

namespace ManagedCode

/-! ## Packed handles -/

variable {h' : Handle}

namespace Handle

theorem toNat_toBits (h : Handle) :
    h.toBits.toNat = h.generation.toNat * 2 ^ 32 + h.index.toNat := by
  have generation := h.generation.toNat_lt
  have index := h.index.toNat_lt
  have shifted : (h.generation.toUInt64 <<< 32).toNat = h.generation.toNat <<< 32 := by
    rw [UInt64.toNat_shiftLeft, UInt32.toNat_toUInt64, show UInt64.toNat 32 % 64 = 32 from rfl,
      Nat.shiftLeft_eq]
    omega
  unfold Handle.toBits
  rw [UInt64.toNat_or, shifted, UInt32.toNat_toUInt64, ← Nat.shiftLeft_add_eq_or_of_lt index,
    Nat.shiftLeft_eq]

theorem ofBits_toBits (h : Handle) : Handle.ofBits h.toBits = h := by
  have value := toNat_toBits h
  have index := h.index.toNat_lt
  have upper : h.toBits >>> 32 = h.generation.toUInt64 := by
    apply UInt64.toNat_inj.mp
    rw [UInt64.toNat_shiftRight, show UInt64.toNat 32 % 64 = 32 from rfl, Nat.shiftRight_eq_div_pow,
      UInt32.toNat_toUInt64]
    omega
  have lower : h.toBits.toUInt32 = h.index := by
    apply UInt32.toNat_inj.mp
    rw [UInt64.toNat_toUInt32]
    omega
  unfold Handle.ofBits
  rw [upper, lower, UInt32.toUInt32_toUInt64]

theorem eq_iff {h : Handle} : h = h' ↔ h.index = h'.index ∧ h.generation = h'.generation := by
  cases h
  cases h'
  rw [Handle.mk.injEq]

end Handle

namespace SlotTable

variable {α : Type} {t u : SlotTable α}
variable {h : Handle}

/-- A handle cannot name a slot this far. -/
def handleLimit : Nat := 2 ^ 32

/-! ## Looking up -/

variable {slot : Slot α} {a : α}

theorem get?_of_slot (at_ : t.slots[h.index.toNat]? = some slot) :
    t.get? h = if slot.generation = h.generation then slot.value else none := by
  unfold get? slot?
  rw [at_]
  by_cases same : slot.generation = h.generation <;> simp [Option.filter, same]

theorem get?_of_absent (absent : t.slots[h.index.toNat]? = none) : t.get? h = none := by
  unfold get? slot?
  rw [absent]
  rfl

theorem get?_eq_some_iff :
    t.get? h = some a ↔ t.slots[h.index.toNat]? = some ⟨h.generation, some a⟩ := by
  cases at_ : t.slots[h.index.toNat]? with
  | none => simp [get?_of_absent at_]
  | some slot =>
    obtain ⟨generation, value⟩ := slot
    rw [get?_of_slot at_]
    by_cases same : generation = h.generation <;> simp [same]

theorem contains_iff : t.contains h = true ↔ ∃ a, t.get? h = some a :=
  Option.isSome_iff_exists

variable {i : UInt32} {b : α}

/-- A slot that is replaced is found by the handle of its generation. -/
theorem get?_placed (bound : i.toNat < t.slots.size)
    (placed : u.slots = t.slots.setIfInBounds i.toNat slot) (h : Handle) :
    u.get? h = if h.index = i then (if slot.generation = h.generation then slot.value else none)
      else t.get? h := by
  have at_ : u.slots[h.index.toNat]?
      = if h.index = i then some slot else t.slots[h.index.toNat]? := by
    rw [placed, Array.getElem?_setIfInBounds]
    by_cases here : h.index = i
    · rw [if_pos (by rw [here]), if_pos bound, if_pos here]
    · rw [if_neg (fun same => here (UInt32.toNat_inj.mp same).symm), if_neg here]
  split
  · rename_i here
    rw [if_pos here] at at_
    exact get?_of_slot at_
  · rename_i elsewhere
    rw [if_neg elsewhere] at at_
    unfold get? slot?
    rw [at_]

/-- A slot that is added is found by the handle of its number and generation. -/
theorem get?_pushed (pushed : u.slots = t.slots.push slot) (h : Handle) :
    u.get? h = if h.index.toNat = t.slots.size then
        (if slot.generation = h.generation then slot.value else none)
      else t.get? h := by
  have at_ : u.slots[h.index.toNat]?
      = if h.index.toNat = t.slots.size then some slot else t.slots[h.index.toNat]? := by
    rw [pushed, Array.getElem?_push]
  split
  · rename_i here
    rw [if_pos here] at at_
    exact get?_of_slot at_
  · rename_i elsewhere
    rw [if_neg elsewhere] at at_
    unfold get? slot?
    rw [at_]

/-- A live handle is the only one of its slot that finds anything. -/
theorem get?_of_same_slot (found : t.get? h = some a) (same : h'.index = h.index) (other : h' ≠ h) :
    t.get? h' = none := by
  have at_ := get?_eq_some_iff.mp found
  rw [← same] at at_
  rw [get?_of_slot at_, if_neg]
  intro generation
  exact other (Handle.eq_iff.mpr ⟨same, generation.symm⟩)

/-! ## Listing -/

theorem get?_of_mem_toList (mem : (h, a) ∈ t.toList) :
    t.get? h = some a ∨
      ∃ i slot, handleLimit ≤ i ∧ t.slots[i]? = some slot ∧ slot.value = some a := by
  unfold toList at mem
  rw [List.mem_filterMap] at mem
  obtain ⟨⟨slot, i⟩, listed, same⟩ := mem
  rw [List.mem_zipIdx_iff_getElem?, Array.getElem?_toList] at listed
  have listed : t.slots[i]? = some slot := listed
  obtain ⟨value, found, same⟩ := Option.map_eq_some_iff.mp same
  cases same
  by_cases near : i < handleLimit
  · refine .inl (get?_eq_some_iff.mpr ?_)
    have index : (UInt32.ofNat i).toNat = i := Nat.mod_eq_of_lt near
    dsimp only
    rw [index, listed, ← found]
  · exact .inr ⟨i, slot, by omega, listed, found⟩

theorem mem_toList_of_get? (found : t.get? h = some a) : (h, a) ∈ t.toList := by
  have at_ := get?_eq_some_iff.mp found
  unfold toList
  rw [List.mem_filterMap]
  refine ⟨(⟨h.generation, some a⟩, h.index.toNat), ?_, ?_⟩
  · rw [List.mem_zipIdx_iff_getElem?, Array.getElem?_toList]
    exact at_
  · dsimp only
    rw [Option.map_some, UInt32.ofNat_toNat]

/-- Where every slot has a number, the values listed are those that are found. -/
theorem mem_toList_iff (numbered : t.slots.size ≤ handleLimit) :
    (h, a) ∈ t.toList ↔ t.get? h = some a := by
  refine ⟨fun mem => ?_, mem_toList_of_get?⟩
  rcases get?_of_mem_toList mem with found | ⟨i, slot, far, at_, _⟩
  · exact found
  · obtain ⟨bound, _⟩ := Array.getElem?_eq_some_iff.mp at_
    omega

/-- The values are listed in the order of their slots. -/
theorem pairwise_toList (numbered : t.slots.size ≤ handleLimit) :
    t.toList.Pairwise fun x y => x.1.index < y.1.index := by
  unfold toList
  rw [List.pairwise_filterMap]
  have ordered : t.slots.toList.zipIdx.Pairwise fun x y => x.2 < y.2 ∧ y.2 < t.slots.size := by
    rw [List.pairwise_iff_getElem]
    intro i j low high before
    simp only [List.getElem_zipIdx, Nat.zero_add]
    simp only [List.length_zipIdx, Array.length_toList] at high
    exact ⟨before, high⟩
  refine ordered.imp ?_
  rintro ⟨slot, i⟩ ⟨slot', j⟩ ⟨before, bound⟩ x first y second
  obtain ⟨_, _, rfl⟩ := Option.map_eq_some_iff.mp first
  obtain ⟨_, _, rfl⟩ := Option.map_eq_some_iff.mp second
  dsimp only at before bound ⊢
  rw [UInt32.lt_iff_toNat_lt, UInt32.toNat_ofNat', UInt32.toNat_ofNat']
  unfold handleLimit at numbered
  omega

/-! ## What an operation does to the values -/

/-- A replaced value is found, and every other handle finds what it found. -/
theorem get?_set :
    (t.set h a).get? h' = if h' = h ∧ t.contains h = true then some a else t.get? h' := by
  unfold set
  by_cases known : t.contains h = true
  · obtain ⟨old, found⟩ := contains_iff.mp known
    obtain ⟨bound, _⟩ := Array.getElem?_eq_some_iff.mp (get?_eq_some_iff.mp found)
    rw [if_pos known, get?_placed bound rfl]
    by_cases same : h' = h
    · subst same
      rw [if_pos rfl, if_pos rfl, if_pos ⟨rfl, known⟩]
    · have untouched : ¬ (h' = h ∧ t.contains h = true) := fun both => same both.1
      rw [if_neg untouched]
      split
      · rename_i index
        rw [get?_of_same_slot found index same, if_neg]
        exact fun generation => same (Handle.eq_iff.mpr ⟨index, generation.symm⟩)
      · rfl
  · rw [if_neg known, if_neg fun both => known both.2]

theorem remove_fst (t : SlotTable α) (h : Handle) : (t.remove h).1 = t.get? h := by
  unfold remove
  split <;> simp_all

/-- A removed handle finds nothing, and every other handle finds what it found. -/
theorem get?_remove (t : SlotTable α) (h h' : Handle) :
    (t.remove h).2.get? h' = if h' = h then none else t.get? h' := by
  unfold remove
  split
  · rename_i a found
    obtain ⟨bound, _⟩ := Array.getElem?_eq_some_iff.mp (get?_eq_some_iff.mp found)
    rw [get?_placed bound rfl]
    by_cases same : h' = h
    · simp [same]
    · rw [if_neg same]
      split
      · rename_i index
        rw [get?_of_same_slot found index same]
        exact ite_self _
      · rfl
  · rename_i absent
    split
    · rename_i same
      rw [same]
      exact absent
    · rfl

/-! ### In a table without free slots -/

section

variable (full : t.free = [])

include full

theorem get?_insert_of_some (found : t.get? h = some a) : (t.insert b).2.get? h = some a := by
  obtain ⟨bound, _⟩ := Array.getElem?_eq_some_iff.mp (get?_eq_some_iff.mp found)
  unfold insert
  rw [full]
  dsimp only
  rw [get?_pushed rfl, if_neg (by omega)]
  exact found

theorem get?_insert_cases (found : (t.insert b).2.get? h = some a) : a = b ∨ t.get? h = some a := by
  unfold insert at found
  rw [full] at found
  dsimp only at found
  rw [get?_pushed rfl] at found
  split at found
  · split at found
    · cases found
      exact .inl rfl
    · cases found
  · exact .inr found

/-- A new value is found as long as its slot has a number. -/
theorem get?_insert_self (room : t.slots.size < handleLimit) (a : α) :
    (t.insert a).2.get? (t.insert a).1 = some a := by
  have number : (UInt32.ofNat t.slots.size).toNat = t.slots.size := by
    unfold handleLimit at room
    rw [UInt32.toNat_ofNat']
    omega
  unfold insert
  rw [full]
  dsimp only
  rw [get?_pushed rfl, if_pos number, if_pos rfl]

theorem free_insert (a : α) : (t.insert a).2.free = [] := by
  unfold insert
  rw [full]

/-- A value that gets a slot of its own is listed last. -/
theorem toList_insert (a : α) : (t.insert a).2.toList = t.toList ++ [((t.insert a).1, a)] := by
  unfold insert
  rw [full]
  simp [toList, List.zipIdx_append, List.filterMap_append]

end

theorem free_set (h : Handle) (a : α) : (t.set h a).free = t.free := by
  unfold set
  split <;> rfl

/-- What is seen of every value in the list does not change when a value is replaced by one that
looks the same. -/
theorem map_toList_set {β : Type} (view : α → β) (found : t.get? h = some b)
    (same : view a = view b) :
    (t.set h a).toList.map (fun entry => (entry.1, view entry.2))
      = t.toList.map fun entry => (entry.1, view entry.2) := by
  have seen (u : SlotTable α) : u.toList.map (fun entry => (entry.1, view entry.2))
      = (u.slots.toList.map fun slot => (slot.generation, slot.value.map view)).zipIdx.filterMap
        fun (slot, i) => slot.2.map fun value => (⟨UInt32.ofNat i, slot.1⟩, value) := by
    unfold toList
    rw [List.map_filterMap, List.zipIdx_map, List.filterMap_map]
    congr 1
    funext ⟨slot, i⟩
    simp [Function.comp_def]
  rw [seen, seen]
  obtain ⟨bound, at_⟩ := Array.getElem?_eq_some_iff.mp (get?_eq_some_iff.mp found)
  unfold set
  rw [if_pos (contains_iff.mpr ⟨b, found⟩)]
  dsimp only
  rw [Array.toList_setIfInBounds, List.map_set]
  congr 2
  apply List.ext_getElem?
  intro i
  rw [List.getElem?_set]
  split
  · rename_i here
    subst here
    simp [at_, bound, same]
  · rfl

theorem slots_set {i : Nat} (far : handleLimit ≤ i) (h : Handle) (a : α) :
    (t.set h a).slots[i]? = t.slots[i]? := by
  have near : h.index.toNat < handleLimit := h.index.toNat_lt
  unfold set
  split
  · dsimp only
    rw [Array.getElem?_setIfInBounds, if_neg (by omega)]
  · rfl

/-! ## Consistent tables -/

/-- Slots, free slots and the count of values agree. -/
structure Consistent (t : SlotTable α) : Prop where
  nodup : t.free.Nodup
  /-- The free slots are those without a value. -/
  free : ∀ i : Nat, (∃ index ∈ t.free, index.toNat = i) ↔ ∃ g, t.slots[i]? = some ⟨g, none⟩
  live : t.live = t.slots.countP (·.value.isSome)

theorem consistent_empty : (empty : SlotTable α).Consistent := by
  refine ⟨List.nodup_nil, fun i => ?_, rfl⟩
  simp [empty]

theorem generationAt_of_slot (at_ : t.slots[i.toNat]? = some slot) :
    t.generationAt i = slot.generation := by
  unfold generationAt
  rw [at_]
  rfl

/-- Only a slot without a value is used again. -/
theorem Consistent.head_free (consistent : t.Consistent) {index : UInt32} {rest : List UInt32}
    (free : t.free = index :: rest) : t.slots[index.toNat]? = some ⟨t.generationAt index, none⟩ := by
  obtain ⟨g, at_⟩ := (consistent.free index.toNat).mp
    ⟨index, by rw [free]; exact List.mem_cons_self, rfl⟩
  rw [at_, generationAt_of_slot at_]

/-- A value that is inserted gets a handle that found nothing. Now the handle finds the value, and
every other handle finds what it found. -/
theorem Consistent.get?_insert (consistent : t.Consistent)
    (room : (t.insert a).2.slots.size ≤ handleLimit) :
    t.get? (t.insert a).1 = none ∧
      ∀ h, (t.insert a).2.get? h = if h = (t.insert a).1 then some a else t.get? h := by
  unfold insert at room ⊢
  split
  · rename_i index rest free
    have at_ := consistent.head_free free
    obtain ⟨bound, _⟩ := Array.getElem?_eq_some_iff.mp at_
    -- No handle of the slot finds anything before.
    have vacant : ∀ h : Handle, h.index = index → t.get? h = none := by
      rintro h rfl
      rw [get?_of_slot at_]
      exact ite_self _
    refine ⟨vacant _ rfl, fun h => ?_⟩
    rw [get?_placed bound rfl]
    by_cases here : h.index = index
    · rw [if_pos here, vacant h here]
      simp only [Handle.eq_iff, here, true_and, eq_comm]
    · rw [if_neg here, if_neg]
      exact fun same => here (congrArg Handle.index same)
  · rename_i free
    rw [free] at room
    simp only [Array.size_push] at room
    have number : (UInt32.ofNat t.slots.size).toNat = t.slots.size :=
      Nat.mod_eq_of_lt (Nat.lt_of_succ_le room)
    have here : ∀ h : Handle, h.index = UInt32.ofNat t.slots.size ↔ h.index.toNat = t.slots.size := by
      intro h
      rw [← UInt32.toNat_inj, number]
    refine ⟨get?_of_absent (by simp [number]), fun h => ?_⟩
    rw [get?_pushed rfl]
    by_cases new : h.index.toNat = t.slots.size
    · rw [if_pos new, get?_of_absent (by simp [new])]
      simp only [Handle.eq_iff, (here h).mpr new, true_and, eq_comm]
    · rw [if_neg new, if_neg]
      exact fun same => new ((here h).mp (congrArg Handle.index same))

/-- How many values there are after a slot is replaced. -/
theorem countP_placed {slots : Array (Slot α)} {i : Nat} {old : Slot α} (slot : Slot α)
    (at_ : slots[i]? = some old) :
    (slots.setIfInBounds i slot).countP (·.value.isSome) + (if old.value.isSome then 1 else 0)
      = slots.countP (·.value.isSome) + (if slot.value.isSome then 1 else 0) := by
  obtain ⟨bound, rfl⟩ := Array.getElem?_eq_some_iff.mp at_
  have counted : slots[i].value.isSome = true → 0 < slots.countP (·.value.isSome) := fun value =>
    Array.countP_pos_iff.mpr ⟨slots[i], Array.getElem_mem bound, value⟩
  rw [Array.setIfInBounds_def, dif_pos bound, Array.countP_set bound]
  split
  · rename_i value
    have := counted value
    omega
  · omega

section

variable (consistent : t.Consistent)

include consistent

theorem Consistent.insert (a : α) : (t.insert a).2.Consistent := by
  unfold SlotTable.insert
  split
  · rename_i index rest free
    have at_ := consistent.head_free free
    obtain ⟨bound, _⟩ := Array.getElem?_eq_some_iff.mp at_
    have nodup := consistent.nodup
    rw [free, List.nodup_cons] at nodup
    refine ⟨nodup.2, fun i => ?_, ?_⟩
    · dsimp only
      rw [Array.getElem?_setIfInBounds]
      by_cases here : index.toNat = i
      · subst here
        rw [if_pos rfl, if_pos bound]
        constructor
        · rintro ⟨other, mem, same⟩
          cases UInt32.toNat_inj.mp same
          exact absurd mem nodup.1
        · rintro ⟨g, same⟩
          cases same
      · rw [if_neg here, ← consistent.free i, free]
        simp [here]
    · have count := countP_placed ⟨t.generationAt index, some a⟩ at_
      have before := consistent.live
      simp only [Option.isSome_none, Option.isSome_some, Bool.false_eq_true, ↓reduceIte,
        Nat.add_zero] at count
      dsimp only
      omega
  · rename_i free
    refine ⟨List.nodup_nil, fun i => ?_, ?_⟩
    · have vacant := consistent.free i
      rw [free] at vacant
      dsimp only
      rw [vacant, Array.getElem?_push]
      by_cases new : i = t.slots.size
      · subst new
        simp
      · rw [if_neg new]
    · dsimp only
      rw [Array.countP_push, ← consistent.live]
      rfl

theorem Consistent.remove (h : Handle) : (t.remove h).2.Consistent := by
  unfold SlotTable.remove
  split
  · rename_i a found
    have at_ := get?_eq_some_iff.mp found
    obtain ⟨bound, _⟩ := Array.getElem?_eq_some_iff.mp at_
    refine ⟨List.nodup_cons.mpr ⟨fun mem => ?_, consistent.nodup⟩, fun i => ?_, ?_⟩
    · -- A slot with a value is not free.
      obtain ⟨g, vacant⟩ := (consistent.free _).mp ⟨h.index, mem, rfl⟩
      cases at_.symm.trans vacant
    · dsimp only
      rw [Array.getElem?_setIfInBounds]
      by_cases here : h.index.toNat = i
      · subst here
        rw [if_pos rfl, if_pos bound]
        exact ⟨fun _ => ⟨_, rfl⟩, fun _ => ⟨h.index, List.mem_cons_self, rfl⟩⟩
      · rw [if_neg here, ← consistent.free i]
        simp [here]
    · have count := countP_placed ⟨h.generation + 1, none⟩ at_
      have before := consistent.live
      simp only [Option.isSome_none, Option.isSome_some, Bool.false_eq_true, ↓reduceIte,
        Nat.add_zero] at count
      dsimp only
      omega
  · exact consistent

theorem Consistent.set (h : Handle) (a : α) : (t.set h a).Consistent := by
  unfold SlotTable.set
  split
  · rename_i known
    obtain ⟨old, found⟩ := contains_iff.mp known
    have at_ := get?_eq_some_iff.mp found
    obtain ⟨bound, _⟩ := Array.getElem?_eq_some_iff.mp at_
    refine ⟨consistent.nodup, fun i => ?_, ?_⟩
    · dsimp only
      rw [consistent.free i, Array.getElem?_setIfInBounds]
      by_cases here : h.index.toNat = i
      · subst here
        rw [if_pos rfl, if_pos bound, at_]
        simp
      · rw [if_neg here]
    · have count := countP_placed ⟨h.generation, some a⟩ at_
      have before := consistent.live
      simp only [Option.isSome_some, ↓reduceIte, Nat.add_right_cancel_iff] at count
      dsimp only
      omega
  · exact consistent

end

/-! ## Requests -/

inductive Request (α : Type) where
  | insert (value : α)
  | remove (h : Handle)
  /-- Puts another value in the place of the one that a handle finds. -/
  | set (h : Handle) (value : α)
  | get (h : Handle)
  deriving DecidableEq

/-- What a request is answered with: the handle of a new value, or the value that a handle found. -/
inductive Answer (α : Type) where
  | handle (h : Handle)
  | value (found : Option α)
  deriving DecidableEq

def Request.perform (t : SlotTable α) : Request α → Answer α × SlotTable α
  | insert value => (.handle (t.insert value).1, (t.insert value).2)
  | remove h => (.value (t.remove h).1, (t.remove h).2)
  | set h value => (.value (t.get? h), t.set h value)
  | get h => (.value (t.get? h), t)

def after (t : SlotTable α) (requests : List (Request α)) : SlotTable α :=
  requests.foldl (fun t request => (request.perform t).2) t

def answers (t : SlotTable α) : List (Request α) → List (Answer α)
  | [] => []
  | request :: rest => (request.perform t).1 :: answers (request.perform t).2 rest

/-- What a map from handles to values answers and becomes. Which handle a new value gets is left
open, but that it names no value yet. -/
inductive MapStep (found : Handle → Option α) :
    Request α → Answer α → (Handle → Option α) → Prop where
  | insert (value : α) (h : Handle) (fresh : found h = none) :
      MapStep found (.insert value) (.handle h) fun h' => if h' = h then some value else found h'
  | remove (h : Handle) :
      MapStep found (.remove h) (.value (found h)) fun h' => if h' = h then none else found h'
  | set (h : Handle) (value : α) :
      MapStep found (.set h value) (.value (found h)) fun h' =>
        if h' = h then (found h).map fun _ => value else found h'
  | get (h : Handle) : MapStep found (.get h) (.value (found h)) found

/-- What a map answers to a sequence of requests, and what it becomes. -/
inductive MapRun : (Handle → Option α) → List (Request α) → List (Answer α) →
    (Handle → Option α) → Prop where
  | nil (found : Handle → Option α) : MapRun found [] [] found
  | cons {found found' found'' : Handle → Option α} {request : Request α} {answer : Answer α}
      {rest : List (Request α)} {answers : List (Answer α)} (first : MapStep found request answer found')
      (later : MapRun found' rest answers found'') :
      MapRun found (request :: rest) (answer :: answers) found''

theorem Consistent.perform (consistent : t.Consistent) (request : Request α) :
    (request.perform t).2.Consistent := by
  cases request with
  | insert value => exact consistent.insert value
  | remove h => exact consistent.remove h
  | set h value => exact consistent.set h value
  | get h => exact consistent

theorem Consistent.after (consistent : t.Consistent) (requests : List (Request α)) :
    (t.after requests).Consistent := by
  induction requests generalizing t with
  | nil => exact consistent
  | cons request rest ih => exact ih (consistent.perform request)

/-- No request takes a slot away. -/
theorem size_le_perform (t : SlotTable α) (request : Request α) :
    t.slots.size ≤ (request.perform t).2.slots.size := by
  cases request with
  | insert value =>
    show t.slots.size ≤ (t.insert value).2.slots.size
    unfold SlotTable.insert
    split <;> simp
  | remove h =>
    show t.slots.size ≤ (t.remove h).2.slots.size
    unfold SlotTable.remove
    split <;> simp
  | set h value =>
    show t.slots.size ≤ (t.set h value).slots.size
    unfold SlotTable.set
    split <;> simp
  | get h => exact Nat.le_refl _

theorem size_le_after (t : SlotTable α) (requests : List (Request α)) :
    t.slots.size ≤ (t.after requests).slots.size := by
  induction requests generalizing t with
  | nil => exact Nat.le_refl _
  | cons request rest ih => exact Nat.le_trans (size_le_perform t request) (ih _)

/-- What a table answers and becomes, its map does. -/
theorem Consistent.mapStep (consistent : t.Consistent) (request : Request α)
    (room : (request.perform t).2.slots.size ≤ handleLimit) :
    MapStep t.get? request (request.perform t).1 (request.perform t).2.get? := by
  cases request with
  | insert value =>
    obtain ⟨fresh, found⟩ := consistent.get?_insert room
    rw [show ((Request.insert value).perform t).2.get? = _ from funext found]
    exact .insert value _ fresh
  | remove h =>
    show MapStep t.get? (.remove h) (.value (t.remove h).1) (t.remove h).2.get?
    rw [show (t.remove h).2.get? = _ from funext (get?_remove t h), remove_fst]
    exact .remove h
  | set h value =>
    have found : ∀ h', (t.set h value).get? h'
        = if h' = h then (t.get? h).map fun _ => value else t.get? h' := by
      intro h'
      rw [get?_set]
      by_cases same : h' = h
      · subst same
        cases known : t.get? h' <;> simp [contains, known]
      · simp [same]
    rw [show ((Request.set h value).perform t).2.get? = _ from funext found]
    exact .set h value
  | get h => exact .get h

/-- What a table answers to a sequence of requests and becomes, its map does. -/
theorem Consistent.mapRun (consistent : t.Consistent) (requests : List (Request α))
    (room : (t.after requests).slots.size ≤ handleLimit) :
    MapRun t.get? requests (t.answers requests) (t.after requests).get? := by
  induction requests generalizing t with
  | nil => exact .nil _
  | cons request rest ih =>
    have near := Nat.le_trans (size_le_after (request.perform t).2 rest) room
    exact .cons (consistent.mapStep request near) (ih (consistent.perform request) room)

/-- **A slot table is a map.** After any requests with any handles, also with handles that were never
issued, and as long as the slots have numbers: the requests were answered as a map from handles to
values answers them; the free slots are those without a value, each listed once, and the values are
counted; and the listing gives every value that a handle finds, with that handle, in the order of the
slots. Packing a handle into a word loses nothing. -/
theorem refines_map (requests : List (Request α))
    (room : ((empty : SlotTable α).after requests).slots.size ≤ handleLimit) :
    let t := (empty : SlotTable α).after requests
    MapRun (fun _ => none) requests ((empty : SlotTable α).answers requests) t.get? ∧
    (t.free.Nodup ∧
      ∀ i : Nat, (∃ index ∈ t.free, index.toNat = i) ↔ ∃ g, t.slots[i]? = some ⟨g, none⟩) ∧
    t.live = t.slots.countP (·.value.isSome) ∧
    (t.toList.Pairwise (fun x y => x.1.index < y.1.index) ∧
      ∀ h a, (h, a) ∈ t.toList ↔ t.get? h = some a) ∧
    ∀ h : Handle, Handle.ofBits h.toBits = h := by
  intro t
  have consistent : t.Consistent := consistent_empty.after requests
  have start : (empty : SlotTable α).get? = fun _ => none :=
    funext fun h => get?_of_absent rfl
  refine ⟨?_, ⟨consistent.nodup, consistent.free⟩, consistent.live,
    ⟨pairwise_toList room, fun h a => mem_toList_iff room⟩, Handle.ofBits_toBits⟩
  rw [← start]
  exact consistent_empty.mapRun requests room

/-- A slot that is used again, and a handle of its first value. -/
theorem refines_map_reused :
    let requests : List (Request Nat) :=
      [.insert 10, .insert 20, .remove ⟨0, 0⟩, .insert 30, .get ⟨0, 0⟩, .set ⟨1, 0⟩ 21]
    let t := (empty : SlotTable Nat).after requests
    t.slots.size ≤ handleLimit ∧
    (empty : SlotTable Nat).answers requests = [.handle ⟨0, 0⟩, .handle ⟨1, 0⟩, .value (some 10),
      .handle ⟨0, 1⟩, .value none, .value (some 20)] ∧
    MapRun (fun _ => none) requests ((empty : SlotTable Nat).answers requests) t.get? ∧
    t.toList = [(⟨0, 1⟩, 30), (⟨1, 0⟩, 21)] :=
  ⟨by decide, by decide, (refines_map _ (by decide)).1, by decide⟩

end SlotTable

end ManagedCode
