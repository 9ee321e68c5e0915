import ManagedCode.Proofs.Action
import ManagedCode.Proofs.Semantics.Activation

/-!
# Bookkeeping does not matter to the heap

What allocation and collection do to the heap, and whether they fail, depends on the heap alone and
neither on the statistics nor on the journal.

* `HeapOnly`: an action that gives the same on equal heaps.
* `heapOnly_newObject`, `heapOnly_newArray`, `heapOnly_collect`.
-/

namespace ManagedCode.Heap

open TypeSystem (TypeId TypeTable)
open Collector (allocate collect mark newArray newObject setLength sweepAll sweepOne)

/-- Two results that agree on the heap, with values in a relation. -/
inductive Alike {ε α β : Type} (R : α → β → Prop) :
    EStateM.Result ε Collector α → EStateM.Result ε Collector β → Prop where
  | ok {a : α} {b : β} {c d : Collector} (values : R a b) (heap : c.heap = d.heap) :
      Alike R (.ok a c) (.ok b d)
  | error {e : ε} {c d : Collector} (heap : c.heap = d.heap) : Alike R (.error e c) (.error e d)

section Alike

variable {ε α β : Type} {c d : Collector}

theorem Alike.bind {γ δ : Type} {R : α → β → Prop} {S : γ → δ → Prop} {x : EStateM ε Collector α}
    {y : EStateM ε Collector β} {f : α → EStateM ε Collector γ} {g : β → EStateM ε Collector δ}
    (first : Alike R (x c) (y d))
    (rest : ∀ a b (c d : Collector), R a b → c.heap = d.heap → Alike S (f a c) (g b d)) :
    Alike S ((x >>= f) c) ((y >>= g) d) := by
  cases left : x c with
  | ok a c' =>
    cases right : y d with
    | ok b d' =>
      rw [left, right] at first
      cases first with
      | ok values heap =>
        rw [bind_of_ok left, bind_of_ok right]
        exact rest a b c' d' values heap
    | error e d' =>
      rw [left, right] at first
      cases first
  | error e c' =>
    cases right : y d with
    | ok b d' =>
      rw [left, right] at first
      cases first
    | error e' d' =>
      rw [left, right] at first
      cases first with
      | error heap =>
        rw [bind_of_error left, bind_of_error right]
        exact .error heap

/-- An action that gives the same on equal heaps. -/
def HeapOnly (act : EStateM ε Collector α) : Prop :=
  ∀ {c d : Collector}, c.heap = d.heap → Alike Eq (act c) (act d)

/-- What such an action gives in a world with the same heap. -/
theorem HeapOnly.effect {act : EStateM ε Collector α} (only : HeapOnly act) {w : World}
    (same : c.heap = w.heap) : w.effect act = w.take (act c) := by
  have alike : Alike Eq (act c) (act ⟨w.heap, {}, {}, ⟨false, false, false, false⟩⟩) := only same
  unfold World.effect
  generalize act c = real, act ⟨w.heap, {}, {}, ⟨false, false, false, false⟩⟩ = quiet at alike ⊢
  cases alike with
  | ok values heap =>
    cases values
    rw [World.take, World.take, heap]
  | error heap => rw [World.take, World.take, heap]

end Alike

/-! ## Allocation -/

variable {types : TypeTable} {type : TypeId}

theorem heapOnly_allocate (dataSize : Nat) : HeapOnly (allocate types type dataSize) := by
  rintro ⟨heap, stats, journal, options⟩ ⟨heap', stats', journal', options'⟩ rfl
  unfold allocate
  dsimp only
  cases heap.fit? dataSize with
  | none => exact .error rfl
  | some total => exact .ok rfl rfl

theorem heapOnly_newObject : HeapOnly (newObject types type) := by
  intro c d same
  unfold newObject
  cases types.layout? type with
  | none => exact .error same
  | some layout => exact heapOnly_allocate _ same

theorem heapOnly_newArray (length : Int) : HeapOnly (newArray types type length) := by
  intro c d same
  unfold newArray
  cases types.element? type with
  | none => exact .error same
  | some element =>
    by_cases fits : 0 ≤ length ∧ length < 0x80000000
    · dsimp only
      rw [if_pos fits]
      refine Alike.bind (heapOnly_allocate _ same) ?_
      rintro a _ c d rfl same
      refine Alike.bind (R := Eq) (.ok rfl ?_) ?_
      · show (setLength a length.toNat c).heap
          = (setLength a length.toNat d).heap
        rw [setLength, setLength, same]
      · rintro _ _ c d _ same
        exact .ok rfl same
    · dsimp only
      rw [if_neg fits]
      exact .error same

/-! ## Collection -/

theorem alike_sweepOne {c d : Collector} (report report' : Report) (o : HeapObject)
    (same : c.heap = d.heap) :
    Alike (fun _ _ => True) (sweepOne types report o c)
      (sweepOne types report' o d) := by
  obtain ⟨heap, stats, journal, options⟩ := c
  obtain ⟨heap', stats', journal', options'⟩ := d
  cases same
  unfold sweepOne
  dsimp only
  split
  · exact .ok trivial rfl
  · split
    · exact .ok trivial rfl
    · exact .error rfl

theorem alike_sweepAll {c d : Collector} (objects : List HeapObject) (report report' : Report)
    (same : c.heap = d.heap) :
    Alike (fun _ _ => True) (sweepAll types objects report c)
      (sweepAll types objects report' d) := by
  induction objects generalizing c d report report' with
  | nil => exact .ok trivial same
  | cons o rest ih =>
    unfold sweepAll
    exact Alike.bind (alike_sweepOne report report' o same) fun a b c d _ same => ih a b same

theorem heapOnly_mark (roots : List UInt64) : HeapOnly (mark types roots) := by
  rintro ⟨heap, stats, journal, options⟩ ⟨heap', stats', journal', options'⟩ rfl
  unfold mark
  dsimp only
  cases Arena.mark types heap roots.reverse 0 with
  | ok count heap => exact .ok rfl rfl
  | error e heap => exact .error rfl

theorem heapOnly_objects : HeapOnly (Collector.objects types) := by
  intro c d same
  unfold Collector.objects
  rw [same]
  split
  · exact .error same
  · exact .ok rfl same

/-- The report has the number of the collection, which a program does not see. -/
theorem heapOnly_collect (roots : List UInt64) :
    HeapOnly (discard (collect types roots)) := by
  intro c d same
  have collected : Alike (fun _ _ => True) (collect types roots c)
      (collect types roots d) := by
    unfold collect
    refine Alike.bind (heapOnly_mark _ same) ?_
    rintro count _ c d rfl same
    refine Alike.bind (heapOnly_objects same) ?_
    rintro objects _ c d rfl same
    refine Alike.bind (R := fun _ _ => True) (.ok trivial same) fun a b c d _ same => ?_
    refine Alike.bind (alike_sweepAll objects _ _ same) fun r r' c d _ same => ?_
    refine Alike.bind (R := fun _ _ => True) (.ok trivial same) fun _ _ c d _ same => ?_
    exact .ok trivial same
  exact Alike.bind collected fun _ _ c d _ same => .ok rfl same

end ManagedCode.Heap
