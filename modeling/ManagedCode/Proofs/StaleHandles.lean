import ManagedCode.Proofs.SlotTable

/-!
# Stale handles

A slot that is emptied moves to its next generation, so that the handle of the removed value finds
nothing. Generations are words of 32 bits: a handle stays stale until its slot has been emptied a
whole multiple of 2 ^ 32 times, and then it may find a value that it was never issued for.

* `SlotTable.removals`: how often requests empty a slot. `SlotTable.generationAt_after`: this is what
  its generation counts.
* `SlotTable.stale_until_wrapped`: how long removed handles stay stale, and issued ones are not issued
  again.
* `SlotTable.stale_handle_returns`: a slot that is filled and emptied 2 ^ 32 times.
-/

namespace ManagedCode

namespace SlotTable

variable {α : Type} {t : SlotTable α}

/-! ## Counting removals -/

/-- Whether a request takes a value out of a slot. -/
def Request.empties (t : SlotTable α) (index : UInt32) : Request α → Bool
  | .remove h => h.index == index && t.contains h
  | _ => false

/-- How often requests take a value out of a slot. -/
def removals (index : UInt32) (t : SlotTable α) : List (Request α) → Nat
  | [] => 0
  | request :: rest =>
    (if request.empties t index then 1 else 0) + removals index (request.perform t).2 rest

/-- So many removals bring a slot back to its generation. -/
def Wraps (count : Nat) : Prop := 0 < count ∧ 2 ^ 32 ∣ count

variable {count : Nat} {u : SlotTable α}

theorem not_wraps (few : count < 2 ^ 32) : ¬ Wraps count := by
  rintro ⟨positive, divides⟩
  exact Nat.not_le_of_lt few (Nat.le_of_dvd positive divides)

theorem wraps_of_ofNat_eq_zero (positive : 0 < count) (zero : UInt32.ofNat count = 0) :
    Wraps count := by
  have value := congrArg UInt32.toNat zero
  rw [UInt32.toNat_ofNat'] at value
  exact ⟨positive, Nat.dvd_of_mod_eq_zero value⟩

variable {h : Handle} {a : α} {requests later : List (Request α)}

theorem generationAt_of_get? (found : t.get? h = some a) : t.generationAt h.index = h.generation :=
  generationAt_of_slot (get?_eq_some_iff.mp found)

theorem generationAt_placed {i : UInt32} {slot : Slot α}
    (placed : u.slots = t.slots.setIfInBounds i.toNat slot) (index : UInt32) :
    u.generationAt index
      = if index = i ∧ i.toNat < t.slots.size then slot.generation else t.generationAt index := by
  unfold generationAt
  rw [placed, Array.getElem?_setIfInBounds]
  by_cases here : index = i
  · subst here
    by_cases bound : index.toNat < t.slots.size
    · rw [if_pos rfl, if_pos bound, if_pos ⟨rfl, bound⟩]
      rfl
    · rw [if_pos rfl, if_neg bound, if_neg (fun both => bound both.2),
        Array.getElem?_eq_none (Nat.le_of_not_lt bound)]
  · rw [if_neg (fun same => here (UInt32.toNat_inj.mp same).symm), if_neg (fun both => here both.1)]

/-- A new slot starts where a slot that does not exist is taken to be. -/
theorem generationAt_pushed {value : Option α} (pushed : u.slots = t.slots.push ⟨0, value⟩)
    (index : UInt32) : u.generationAt index = t.generationAt index := by
  unfold generationAt
  rw [pushed, Array.getElem?_push]
  split
  · rename_i new
    rw [new, Array.getElem?_eq_none (Nat.le_refl _)]
    rfl
  · rfl

theorem generationAt_insert (t : SlotTable α) (a : α) (index : UInt32) :
    (t.insert a).2.generationAt index = t.generationAt index := by
  unfold SlotTable.insert
  split
  · rw [generationAt_placed rfl]
    split
    · rename_i here
      rw [here.1]
    · rfl
  · exact generationAt_pushed rfl index

theorem generationAt_set (t : SlotTable α) (h : Handle) (a : α) (index : UInt32) :
    (t.set h a).generationAt index = t.generationAt index := by
  unfold SlotTable.set
  split
  · rename_i known
    obtain ⟨old, found⟩ := contains_iff.mp known
    rw [generationAt_placed rfl]
    split
    · rename_i here
      rw [here.1, generationAt_of_get? found]
    · rfl
  · rfl

theorem generationAt_remove (t : SlotTable α) (h : Handle) (index : UInt32) :
    (t.remove h).2.generationAt index
      = t.generationAt index + (if (h.index == index && t.contains h) = true then 1 else 0) := by
  unfold SlotTable.remove contains
  split
  · rename_i a found
    obtain ⟨bound, _⟩ := Array.getElem?_eq_some_iff.mp (get?_eq_some_iff.mp found)
    rw [generationAt_placed rfl, found]
    by_cases here : h.index = index
    · subst here
      rw [if_pos ⟨rfl, bound⟩, generationAt_of_get? found]
      simp
    · rw [if_neg fun both => here both.1.symm]
      simp [here]
  · rename_i absent
    simp [absent]

/-- A request that empties a slot moves it to the next generation, and no other request does. -/
theorem generationAt_perform (t : SlotTable α) (request : Request α) (index : UInt32) :
    (request.perform t).2.generationAt index
      = t.generationAt index + (if request.empties t index then 1 else 0) := by
  cases request with
  | insert value => exact (generationAt_insert t value index).trans (UInt32.add_zero _).symm
  | remove h => exact generationAt_remove t h index
  | set h value => exact (generationAt_set t h value index).trans (UInt32.add_zero _).symm
  | get h => exact (UInt32.add_zero _).symm

/-- The generation of a slot counts how often it was emptied. -/
theorem generationAt_after (t : SlotTable α) (requests : List (Request α)) (index : UInt32) :
    (t.after requests).generationAt index
      = t.generationAt index + UInt32.ofNat (removals index t requests) := by
  induction requests generalizing t with
  | nil => exact (UInt32.add_zero _).symm
  | cons request rest ih =>
    show ((request.perform t).2.after rest).generationAt index = _
    rw [ih, generationAt_perform, removals, UInt32.ofNat_add, UInt32.add_assoc]
    split <;> rfl

/-! ## Handles that come back -/

/-- Requests that lead a slot back to a generation do not empty it, or empty it often enough to
wrap. -/
theorem removals_of_generationAt {index generation : UInt32}
    (start : t.generationAt index = generation)
    (finish : (t.after requests).generationAt index = generation) :
    removals index t requests = 0 ∨ Wraps (removals index t requests) := by
  have same := generationAt_after t requests index
  rw [finish, start] at same
  have zero : UInt32.ofNat (removals index t requests) = 0 := by
    have cancel := congrArg (· - generation) same
    simpa [UInt32.add_comm generation, UInt32.add_sub_cancel] using cancel.symm
  rcases Nat.eq_zero_or_pos (removals index t requests) with none | some
  · exact .inl none
  · exact .inr (wraps_of_ofNat_eq_zero some zero)

/-- The handle of a removed value finds nothing unless its slot has been emptied often enough to
wrap. -/
theorem get?_after_remove (found : t.get? h = some a)
    (short : ¬ Wraps (removals h.index t (.remove h :: later))) :
    (t.after (.remove h :: later)).get? h = none := by
  rw [Option.eq_none_iff_forall_ne_some]
  intro b again
  have emptied : (Request.remove h).empties t h.index = true := by
    simp [Request.empties, contains, found]
  rcases removals_of_generationAt (generationAt_of_get? found) (generationAt_of_get? again)
    with none | wraps
  · rw [removals, if_pos emptied] at none
    omega
  · exact short wraps

/-- What does not empty the slot of a value leaves a value there. -/
theorem Consistent.get?_perform (consistent : t.Consistent) {request : Request α}
    (room : (request.perform t).2.slots.size ≤ handleLimit) (found : t.get? h = some a)
    (kept : request.empties t h.index = false) : ∃ b, (request.perform t).2.get? h = some b := by
  cases request with
  | insert value =>
    obtain ⟨fresh, after⟩ := consistent.get?_insert room
    refine ⟨a, (after h).trans ?_⟩
    rw [if_neg, found]
    rintro rfl
    cases found.symm.trans fresh
  | remove h' =>
    refine ⟨a, (get?_remove t h' h).trans ?_⟩
    rw [if_neg, found]
    rintro rfl
    simp [Request.empties, contains, found] at kept
  | set h' value =>
    have after : ((Request.set h' value).perform t).2.get? h = _ := get?_set
    rw [after]
    split
    · exact ⟨value, rfl⟩
    · exact ⟨a, found⟩
  | get h' => exact ⟨a, found⟩

theorem Consistent.get?_after (consistent : t.Consistent)
    (room : (t.after requests).slots.size ≤ handleLimit) (found : t.get? h = some a)
    (kept : removals h.index t requests = 0) : ∃ b, (t.after requests).get? h = some b := by
  induction requests generalizing t a with
  | nil => exact ⟨a, found⟩
  | cons request rest ih =>
    rw [removals, Nat.add_eq_zero_iff] at kept
    have near := Nat.le_trans (size_le_after (request.perform t).2 rest) room
    have first : request.empties t h.index = false := by simpa using kept.1
    obtain ⟨b, still⟩ := consistent.get?_perform near found first
    exact ih (consistent.perform request) room still kept.2

/-- A handle is not issued again unless its slot has been emptied often enough to wrap. -/
theorem Consistent.insert_ne (consistent : t.Consistent) {b : α}
    (room : (((t.insert a).2.after later).insert b).2.slots.size ≤ handleLimit)
    (short : ¬ Wraps (removals (t.insert a).1.index (t.insert a).2 later)) :
    (((t.insert a).2.after later).insert b).1 ≠ (t.insert a).1 := by
  intro again
  have consistent' := (consistent.insert a).after later
  have near := Nat.le_trans (size_le_perform _ (.insert b)) room
  have found := ((consistent.get?_insert (Nat.le_trans (size_le_after _ later) near)).2
    (t.insert a).1).trans (if_pos rfl)
  obtain ⟨fresh, after⟩ := consistent'.get?_insert room
  have found' := (after _).trans (if_pos rfl)
  have finish := generationAt_of_get? found'
  rw [generationAt_insert, again] at finish
  rcases removals_of_generationAt (generationAt_of_get? found) finish with none | wraps
  · -- The slot was never emptied: its value is still there, and the handle cannot be a new one.
    obtain ⟨c, still⟩ := (consistent.insert a).get?_after near found none
    rw [again, still] at fresh
    cases fresh
  · exact short wraps

theorem after_append (t : SlotTable α) (before later : List (Request α)) :
    t.after (before ++ later) = (t.after before).after later :=
  List.foldl_append

/-- **Stale handles.** After any requests: the handle of a value that was taken out finds, replaces
and removes nothing, and a handle that was issued is not issued again (as long as the slots have
numbers), unless the slot has meanwhile been emptied a multiple of 2 ^ 32 times. -/
theorem stale_until_wrapped (before later : List (Request α)) :
    let t := (empty : SlotTable α).after before
    (∀ h a, (t.remove h).1 = some a →
      ¬ Wraps (removals h.index t (.remove h :: later)) →
        let u := (empty : SlotTable α).after (before ++ .remove h :: later)
        u.get? h = none ∧ (∀ value, u.set h value = u) ∧ u.remove h = (none, u)) ∧
    ∀ a b,
      let u := (empty : SlotTable α).after (before ++ .insert a :: later)
      (u.insert b).2.slots.size ≤ handleLimit →
        ¬ Wraps (removals (t.insert a).1.index t (.insert a :: later)) →
          (u.insert b).1 ≠ (t.insert a).1 := by
  intro t
  refine ⟨fun h a removed short => ?_, fun a b => ?_⟩
  · intro u
    rw [remove_fst] at removed
    have stale : u.get? h = none := by
      rw [show u = t.after (.remove h :: later) from after_append ..]
      exact get?_after_remove removed short
    refine ⟨stale, fun value => ?_, ?_⟩
    · simp [SlotTable.set, contains, stale]
    · simp [SlotTable.remove, stale]
  · intro u room short
    have same : u = (t.insert a).2.after later := after_append ..
    rw [same] at room ⊢
    refine (consistent_empty.after before).insert_ne room ?_
    rwa [removals, if_neg (by simp [Request.empties]), Nat.zero_add] at short

/-- The handle of a removed value while its slot holds the next one. -/
theorem stale_until_wrapped_reused :
    let t := (empty : SlotTable Nat).after [.insert 1]
    let u := (empty : SlotTable Nat).after ([.insert 1] ++ .remove ⟨0, 0⟩ :: [.insert 2])
    (t.remove ⟨0, 0⟩).1 = some 1 ∧
    ¬ Wraps (removals 0 t (.remove ⟨0, 0⟩ :: [.insert 2])) ∧
    u.get? ⟨0, 1⟩ = some 2 ∧
    (u.get? ⟨0, 0⟩ = none ∧ (∀ value, u.set ⟨0, 0⟩ value = u) ∧ u.remove ⟨0, 0⟩ = (none, u)) := by
  have short : ¬ Wraps (removals 0 ((empty : SlotTable Nat).after [.insert 1])
      (.remove ⟨0, 0⟩ :: [.insert 2])) := not_wraps (by decide)
  exact ⟨by decide, short, by decide,
    (stale_until_wrapped [.insert 1] [.insert 2]).1 ⟨0, 0⟩ 1 (by decide) short⟩

/-! ## A slot that is used 2 ^ 32 times -/

/-- Fills and empties the first slot so many times, from a generation on. -/
def rounds (a : α) : UInt32 → Nat → List (Request α)
  | _, 0 => []
  | generation, n + 1 => .insert a :: .remove ⟨0, generation⟩ :: rounds a (generation + 1) n

def vacant (generation : UInt32) : SlotTable α := ⟨#[⟨generation, none⟩], [0], 0⟩

theorem remove_filled (a : α) (generation : UInt32) :
    (SlotTable.mk #[⟨generation, some a⟩] [] 1).remove ⟨0, generation⟩
      = (some a, vacant (generation + 1)) := by
  have found : (SlotTable.mk #[⟨generation, some a⟩] [] 1).get? ⟨0, generation⟩ = some a :=
    get?_eq_some_iff.mpr rfl
  unfold SlotTable.remove
  rw [found]
  rfl

theorem after_round (a : α) (generation : UInt32) (rest : List (Request α)) :
    (vacant generation).after (.insert a :: .remove ⟨0, generation⟩ :: rest)
      = (vacant (generation + 1)).after rest := by
  have filled : (vacant generation).insert a
      = (⟨0, generation⟩, ⟨#[⟨generation, some a⟩], [], 1⟩) := rfl
  show (((vacant generation).insert a).2.remove ⟨0, generation⟩).2.after rest = _
  rw [filled, remove_filled]

theorem after_rounds (a : α) (generation : UInt32) (n : Nat) :
    (vacant generation).after (rounds a generation n) = vacant (generation + UInt32.ofNat n) := by
  induction n generalizing generation with
  | zero => exact congrArg vacant (UInt32.add_zero _).symm
  | succ n ih =>
    rw [rounds, after_round, ih, UInt32.add_assoc, UInt32.ofNat_add, UInt32.add_comm 1]
    rfl

/-- One removal and as many more as wrap lead back to the first generation. -/
theorem after_wrap (a : α) {n : Nat} (wraps : (1 : UInt32) + UInt32.ofNat n = 0) :
    (empty : SlotTable α).after ([.insert a] ++ .remove ⟨0, 0⟩ :: rounds a 1 n) = vacant 0 := by
  have first : (empty : SlotTable α).after [.insert a, .remove ⟨0, 0⟩] = vacant 1 := by
    have filled : (empty : SlotTable α).insert a = (⟨0, 0⟩, ⟨#[⟨0, some a⟩], [], 1⟩) := rfl
    show (((empty : SlotTable α).insert a).2.remove ⟨0, 0⟩).2 = _
    rw [filled, remove_filled]
    rfl
  calc (empty : SlotTable α).after ([.insert a] ++ .remove ⟨0, 0⟩ :: rounds a 1 n)
      = ((empty : SlotTable α).after [.insert a, .remove ⟨0, 0⟩]).after (rounds a 1 n) :=
        after_append empty [.insert a, .remove ⟨0, 0⟩] (rounds a 1 n)
    _ = vacant (1 + UInt32.ofNat n) := by rw [first, after_rounds]
    _ = vacant 0 := by rw [wraps]

/-- A handle is issued, its value is taken out, and the slot is filled and emptied 2 ^ 32 - 1 more
times. Then the same handle is issued again: the stale handle finds and removes a value that it was
never issued for. -/
theorem stale_handle_returns :
    let h : Handle := ⟨0, 0⟩
    let t := (empty : SlotTable Nat).after [.insert 1]
    let u := (empty : SlotTable Nat).after
      ([.insert 1] ++ .remove h :: rounds 1 1 (2 ^ 32 - 1))
    ((empty : SlotTable Nat).insert 1).1 = h ∧ (t.remove h).1 = some 1 ∧
      (u.insert 2).1 = h ∧ (u.insert 2).2.get? h = some 2 ∧ ((u.insert 2).2.remove h).1 = some 2 := by
  intro h t u
  have back : u = vacant 0 := after_wrap 1 (by decide)
  rw [back]
  exact ⟨rfl, rfl, rfl, rfl, rfl⟩

end SlotTable

end ManagedCode
