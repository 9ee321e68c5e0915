import ManagedCode.Proofs.Region
import ManagedCode.Proofs.SlotTable
import ManagedCode.Stack.CallTable

/-!
# The stack as a list of words

The used part of the stack is the list of its words, the top one first. The table of calls is the
list of its calls, the most recent one first.

* `Spells`: the words from an address up to the end of the stack, with lemmas for reading,
  pushing, dropping and replacing.
* `CallTable.Lists`: the calls in a table, with lemmas for `push` and `pop`.
-/

namespace ManagedCode.Stack

open Memory (Region)
open Memory.Region (base_writeWord contains_iff read32? read64? readWord?_writeWord_apart)

/-! ## Words -/

/-- The words of a stack from an address up to its end. -/
structure Spells (stack : Region) (sp : UInt64) (words : List UInt64) : Prop where
  low : stack.base.toNat ≤ sp.toNat
  reach : sp.toNat + 8 * words.length = stack.base.toNat + stack.size
  below : stack.base.toNat + stack.size < 2 ^ 64
  word : ∀ (k : Nat) (w : UInt64), words[k]? = some w →
    stack.read64? (sp + UInt64.ofNat (8 * k)) = some w

namespace Spells

variable {stack : Region} {sp : UInt64} {words : List UInt64}

variable {k : Nat}

theorem toNat_place (spells : Spells stack sp words) (bound : k ≤ words.length) :
    (sp + UInt64.ofNat (8 * k)).toNat = sp.toNat + 8 * k := by
  have reach := spells.reach
  have below := spells.below
  rw [UInt64.toNat_add, UInt64.toNat_ofNat']
  omega

theorem contains (spells : Spells stack sp words) (bound : k < words.length) :
    stack.contains (sp + UInt64.ofNat (8 * k)) 8 = true := by
  have low := spells.low
  have reach := spells.reach
  rw [contains_iff, spells.toNat_place (Nat.le_of_lt bound)]
  omega

theorem empty (below : stack.base.toNat + stack.size < 2 ^ 64) : Spells stack stack.stop [] := by
  have stop : stack.stop.toNat = stack.base.toNat + stack.size := by
    unfold Region.stop
    rw [UInt64.toNat_add, UInt64.toNat_ofNat']
    omega
  exact ⟨by omega, by simpa using stop, below, fun k w here => by simp at here⟩

theorem drop (spells : Spells stack sp words) {n : Nat} (bound : n ≤ words.length) :
    Spells stack (sp + UInt64.ofNat (8 * n)) (words.drop n) := by
  have low := spells.low
  have reach := spells.reach
  have place := spells.toNat_place bound
  refine ⟨by omega, ?_, spells.below, fun k w here => ?_⟩
  · rw [List.length_drop]
    omega
  · rw [List.getElem?_drop] at here
    have there := spells.word _ _ here
    rwa [Nat.mul_add, UInt64.ofNat_add, ← UInt64.add_assoc] at there

theorem head {w : UInt64} (spells : Spells stack sp (w :: words)) :
    stack.read64? sp = some w := by
  have here := spells.word 0 w rfl
  rwa [show UInt64.ofNat (8 * 0) = 0 from rfl, UInt64.add_zero] at here

theorem set (spells : Spells stack sp words) (bound : k < words.length) (w : UInt64) :
    Spells (stack.writeWord (sp + UInt64.ofNat (8 * k)) 8 w) sp (words.set k w) := by
  refine ⟨by simpa using spells.low, by simpa using spells.reach, by simpa using spells.below,
    fun j v here => ?_⟩
  rw [List.getElem?_set] at here
  split at here
  · rename_i same
    cases here
    rw [← same]
    exact Region.read64?_writeWord_self w (spells.contains bound)
  · rename_i other
    have inside := (List.getElem?_eq_some_iff.mp here).1
    have place := spells.toNat_place (Nat.le_of_lt bound)
    have place' := spells.toNat_place (Nat.le_of_lt inside)
    rw [read64?, readWord?_writeWord_apart _ (by omega)]
    exact spells.word j v here

theorem push (spells : Spells stack sp words) (room : stack.base.toNat + 8 ≤ sp.toNat)
    (w : UInt64) : Spells (stack.writeWord (sp - 8) 8 w) (sp - 8) (w :: words) := by
  have reach := spells.reach
  have below := spells.below
  have place : (sp - 8).toNat = sp.toNat - 8 :=
    UInt64.toNat_sub_of_le _ _ (UInt64.le_iff_toNat_le.mpr (show 8 ≤ sp.toNat by omega))
  have inside : stack.contains (sp - 8) 8 = true := by
    rw [contains_iff]
    omega
  refine ⟨by simp only [base_writeWord]; omega, ?_, by simpa using below,
    fun k v here => ?_⟩
  · simp only [base_writeWord, Region.size_writeWord, List.length_cons]
    omega
  · cases k with
    | zero =>
      cases here
      rw [show UInt64.ofNat (8 * 0) = 0 from rfl, UInt64.add_zero]
      exact Region.read64?_writeWord_self w inside
    | succ k =>
      rw [List.getElem?_cons_succ] at here
      have bound := (List.getElem?_eq_some_iff.mp here).1
      have same : sp - 8 + UInt64.ofNat (8 * (k + 1)) = sp + UInt64.ofNat (8 * k) := by
        rw [Nat.mul_add, UInt64.ofNat_add, show UInt64.ofNat (8 * 1) = 8 from rfl]
        rw [UInt64.add_comm _ 8, ← UInt64.add_assoc, UInt64.sub_add_cancel]
      have place' := spells.toNat_place (Nat.le_of_lt bound)
      rw [same, read64?, readWord?_writeWord_apart _ (by omega)]
      exact spells.word k v here

end Spells

/-! ## Calls -/

namespace CallTable

/-- The calls in a table, the most recent one first. -/
structure Lists (t : CallTable) (calls : List ActiveCall) : Prop where
  depth : t.depth = calls.length
  entry : ∀ (back : Nat) (call : ActiveCall), calls[back]? = some call → t.get? back = some call

variable {t : CallTable} {calls : List ActiveCall}

theorem lists_clear (t : CallTable) : t.clear.Lists [] :=
  ⟨rfl, fun back call here => by simp at here⟩

theorem Lists.toList (lists : t.Lists calls) : t.toList = calls := by
  unfold CallTable.toList
  rw [lists.depth]
  have entries : ∀ n, n ≤ calls.length → (List.range n).filterMap t.get? = calls.take n := by
    intro n
    induction n with
    | zero => exact fun _ => rfl
    | succ n ih =>
      intro bound
      have here := lists.entry n _ (List.getElem?_eq_getElem (by omega))
      rw [List.range_succ, List.filterMap_append, ih (by omega), List.filterMap_cons, here,
        List.take_add_one, List.getElem?_eq_getElem (by omega)]
      rfl
  rw [entries _ (Nat.le_refl _), List.take_length]

/-- The most recent call is removed. -/
theorem Lists.pop {call : ActiveCall} (lists : t.Lists (call :: calls)) :
    ∃ t', CallTable.pop t = .ok call t' ∧ t'.Lists calls ∧ t'.region = t.region ∧
      t'.capacity = t.capacity := by
  have depth : t.depth = calls.length + 1 := lists.depth
  refine ⟨{ t with depth := t.depth - 1 }, ?_, ⟨by simp [depth], fun back c here => ?_⟩, rfl, rfl⟩
  · unfold CallTable.pop
    rw [lists.entry 0 call rfl]
  · have there := lists.entry (back + 1) c here
    have bound := (List.getElem?_eq_some_iff.mp here).1
    unfold get? at there ⊢
    rw [if_pos (by omega)] at there
    rw [if_pos (show back < t.depth - 1 by omega)]
    rw [show t.depth - 1 - (back + 1) = t.depth - 1 - 1 - back by omega] at there
    exact there

/-- The address of an entry that lies below the end of memory. -/
theorem toNat_entryAddress {index : Nat}
    (below : t.region.base.toNat + (8 + 16 * index) < 2 ^ 64) :
    (t.entryAddress index).toNat = t.region.base.toNat + (8 + 16 * index) := by
  unfold entryAddress entriesOffset entrySize
  rw [UInt64.toNat_add, UInt64.toNat_ofNat']
  omega

def pushed (t : CallTable) (call : ActiveCall) : CallTable :=
  { t with
    region := (t.region.writeWord (t.entryAddress t.depth) 8 call.function.toBits).writeWord
      (t.entryAddress t.depth + 8) 4 call.instruction.toUInt64
    depth := t.depth + 1 }

theorem push_eq (t : CallTable) (call : ActiveCall) :
    push call t =
      if t.depth < t.capacity then
        if t.region.contains (t.entryAddress t.depth) entrySize then .ok () (t.pushed call)
        else .error (.unwritable (t.entryAddress t.depth)) t
      else .error (.overflow t.capacity) t :=
  rfl

/-- A recorded call is the most recent one, and the others stay. -/
theorem Lists.pushed (lists : t.Lists calls) (call : ActiveCall)
    (below : t.region.base.toNat + (8 + 16 * (t.depth + 1)) < 2 ^ 64)
    (inside : t.region.contains (t.entryAddress t.depth) entrySize = true) :
    (t.pushed call).Lists (call :: calls) := by
  have last : (t.entryAddress t.depth).toNat = t.region.base.toNat + (8 + 16 * t.depth) :=
    toNat_entryAddress (by omega)
  have next : (t.entryAddress t.depth + 8).toNat = (t.entryAddress t.depth).toNat + 8 := by
    rw [UInt64.toNat_add, show UInt64.toNat 8 = 8 from rfl]
    omega
  rw [contains_iff, show entrySize = 16 from rfl] at inside
  refine ⟨by simp [CallTable.pushed, lists.depth], fun back c here => ?_⟩
  have depth : (t.pushed call).depth = t.depth + 1 := rfl
  have same : ∀ index, (t.pushed call).entryAddress index = t.entryAddress index := by
    simp [entryAddress, CallTable.pushed]
  cases back with
  | zero =>
    cases here
    unfold get?
    rw [if_pos (by omega), depth, Nat.add_sub_cancel, Nat.sub_zero, same]
    have function : (t.pushed call).region.read64? (t.entryAddress t.depth)
        = some call.function.toBits := by
      unfold CallTable.pushed
      rw [read64?, readWord?_writeWord_apart _ (by omega)]
      exact Region.read64?_writeWord_self _ (contains_iff.mpr (by omega))
    have instruction : (t.pushed call).region.read32? (t.entryAddress t.depth + 8)
        = some call.instruction := by
      unfold CallTable.pushed
      rw [read32?, Region.readWord?_writeWord_self _ (contains_iff.mpr ?_),
        Option.map_some, toUInt32_decodeLE_encodeLE]
      rw [base_writeWord, Region.size_writeWord]
      omega
    dsimp only
    rw [function, instruction]
    show some (ActiveCall.mk (Handle.ofBits call.function.toBits) call.instruction) = some call
    rw [Handle.ofBits_toBits]
  | succ back =>
    have there := lists.entry back c here
    have bound := (List.getElem?_eq_some_iff.mp here).1
    have earlier := lists.depth
    rw [List.length_cons] at bound
    unfold get? at there ⊢
    rw [if_pos (by omega)] at there
    rw [if_pos (by omega), depth, show t.depth + 1 - 1 - (back + 1) = t.depth - 1 - back by omega,
      same]
    have place : (t.entryAddress (t.depth - 1 - back)).toNat
        = t.region.base.toNat + (8 + 16 * (t.depth - 1 - back)) := toNat_entryAddress (by omega)
    have place' : (t.entryAddress (t.depth - 1 - back) + 8).toNat
        = t.region.base.toNat + (8 + 16 * (t.depth - 1 - back)) + 8 := by
      rw [UInt64.toNat_add, show UInt64.toNat 8 = 8 from rfl]
      omega
    have function : (t.pushed call).region.read64? (t.entryAddress (t.depth - 1 - back))
        = t.region.read64? (t.entryAddress (t.depth - 1 - back)) := by
      unfold CallTable.pushed
      rw [read64?, readWord?_writeWord_apart _ (by omega),
        readWord?_writeWord_apart _ (by omega)]
      rfl
    have instruction : (t.pushed call).region.read32? (t.entryAddress (t.depth - 1 - back) + 8)
        = t.region.read32? (t.entryAddress (t.depth - 1 - back) + 8) := by
      unfold CallTable.pushed
      rw [read32?, readWord?_writeWord_apart _ (by omega),
        readWord?_writeWord_apart _ (by omega)]
      rfl
    dsimp only
    rw [function, instruction]
    exact there

end CallTable

end ManagedCode.Stack
