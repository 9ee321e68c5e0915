import ManagedCode.Proofs.Heap.Objects
import Mathlib.Data.List.Forall2

/-!
# Well-typed heaps

A heap is well typed if every field and element of a reference type is null or refers to a live
object of exactly that type.

* `HasType`, `WellTyped`: words and heaps that agree with the types.
* `WellTyped.stored`, `WellTyped.extended`, `WellTyped.settled`: stores of values of the right type,
  allocations and collections keep a heap well typed.
* `WellTyped.collect`: a collection on a well-typed heap succeeds.
-/

namespace ManagedCode

theorem Machine.cut_qword (v : UInt64) : Machine.cut .qword v = v := by
  show decodeLE (encodeLE 8 v) = v
  apply UInt64.toNat_inj.mp
  rw [toNat_decodeLE_encodeLE 8 v (by decide)]
  exact Nat.mod_eq_of_lt v.toNat_lt

/-- One value is replaced by another that is in the relation too. -/
theorem forall₂_set {α β : Type} {R : α → β → Prop} {xs : List α} {ys : List β}
    (all : List.Forall₂ R xs ys) {i : Nat} {x : α} (here : xs[i]? = some x) {y : β} (good : R x y) :
    List.Forall₂ R xs (ys.set i y) := by
  induction all generalizing i with
  | nil => cases here
  | cons first rest ih =>
    cases i with
    | zero =>
      cases here
      exact .cons good rest
    | succ i => exact .cons first (ih here)

namespace Heap

open Arena
open Memory (Region)
open Target (Width)
open TypeSystem (TypeId TypeTable Primitive)

/-- A word that agrees with a type: a reference is null or leads to a live object of exactly the
type. In a `clean` heap a truth value is zero or one. -/
structure HasType (types : TypeTable) (clean : Bool) (a : Arena) (type : TypeId) (w : UInt64) :
    Prop where
  reference : types.isReference type = true → w = 0 ∨ ∃ o, a.object? types w = some o ∧ o.type = type
  truth : clean = true → type = .bool → w = 0 ∨ w = 1

/-- An arena in which all objects have words that agree with their types. -/
structure WellTyped (types : TypeTable) (clean : Bool) (a : Arena) : Prop where
  regular : ∃ cells, a.Regular types cells
  objects : ∀ r o, a.object? types r = some o →
    List.Forall₂ (HasType types clean a) (o.slotTypes types) o.words

section Words

variable {types : TypeTable} {clean : Bool} {a b : Arena} {type : TypeId} {w : UInt64}

theorem HasType.null (types : TypeTable) (clean : Bool) (a : Arena) (type : TypeId) :
    HasType types clean a type 0 :=
  ⟨fun _ => .inl rfl, fun _ _ => .inl rfl⟩

/-- Numbers are any words. -/
theorem HasType.scalar (scalar : types.isReference type = false) (number : type ≠ .bool) :
    HasType types clean a type w :=
  ⟨fun reference => absurd reference (by rw [scalar]; decide), fun _ same => absurd same number⟩

/-- Objects that stay what they are keep the words of their types. -/
theorem HasType.mono (has : HasType types clean a type w)
    (keeps : ∀ o, a.object? types w = some o → ∃ o', b.object? types w = some o' ∧ o'.type = o.type) :
    HasType types clean b type w := by
  refine ⟨fun reference => (has.reference reference).imp_right ?_, has.truth⟩
  rintro ⟨o, here, rfl⟩
  exact keeps o here

theorem HasType.object (has : HasType types clean a type w)
    (reference : types.isReference type = true) (nonnull : w ≠ 0) :
    ∃ o, a.object? types w = some o ∧ o.type = type :=
  (has.reference reference).resolve_left nonnull

/-- A value loads as a value of the same type after it was stored. -/
theorem HasType.cut (wf : types.WellFormed) {width : Width}
    (moved : Width.ofSize? (types.size type) = some width) (has : HasType types clean a type w) :
    HasType types clean a type (Machine.cut width w) := by
  refine ⟨fun reference => ?_, fun strict same => ?_⟩
  · rw [size_of_isReference reference] at moved
    cases moved
    rw [Machine.cut_qword]
    exact has.reference reference
  · subst same
    rw [show types.size .bool = 1 from TypeTable.size_of_shape? (wf.primitive .bool)] at moved
    cases moved
    rcases has.truth strict rfl with rfl | rfl
    · exact .inl (by decide)
    · exact .inr (by decide)

end Words

section Heaps

variable {types : TypeTable} {clean : Bool} {a b : Arena} {cells : List Cell} {r : UInt64}
  {o : Object}

theorem live_iff (regular : a.Regular types cells) :
    Arena.Live cells r ↔ ∃ o, a.object? types r = some o := by
  constructor
  · rintro ⟨x, mem, rfl⟩
    obtain ⟨o, _, here, _⟩ := regular.at_of_mem mem
    exact ⟨o, here⟩
  · rintro ⟨o, here⟩
    obtain ⟨c, x, at_⟩ := Arena.at_of_object? regular here
    exact ⟨x, mem_objectsOf.mpr ⟨c, at_.mem, at_.live⟩, at_.address⟩

/-- The type of the word at a place of an object. -/
theorem Object.slotTypes_of_place {i : Nat} {p : Nat × TypeId}
    (place : (o.places types)[i]? = some p) : (o.slotTypes types)[i]? = some p.2 := by
  rw [Object.slotTypes, List.getElem?_map, place, Option.map_some]

theorem WellTyped.word (typed : WellTyped types clean a) (here : a.object? types r = some o)
    {i : Nat} {p : Nat × TypeId} (place : (o.places types)[i]? = some p) {w : UInt64}
    (value : o.words[i]? = some w) : HasType types clean a p.2 w := by
  have all := typed.objects r o here
  obtain ⟨bound, same⟩ := List.getElem?_eq_some_iff.mp (Object.slotTypes_of_place place)
  obtain ⟨bound', same'⟩ := List.getElem?_eq_some_iff.mp value
  rw [← same, ← same']
  exact all.get bound bound'

/-- What the objects refer to is live. -/
theorem WellTyped.consistent (wf : types.WellFormed) (typed : WellTyped types clean a)
    (regular : a.Regular types cells) : a.Consistent types cells := by
  refine ⟨regular.placed, regular.tiled, fun x mem r refers => ?_⟩
  obtain ⟨o, c, here, at_⟩ := regular.at_of_mem mem
  obtain ⟨nonnull, i, p, place, reference, value⟩ := (at_.mem_references wf regular).mp refers
  have has := typed.word here place value
  exact (live_iff regular).mpr ((has.object reference nonnull).imp fun _ => And.left)

/-! ## Stores -/

theorem Object.slotTypes_set (types : TypeTable) (o : Object) (i : Nat) (w : UInt64) :
    ({ o with words := o.words.set i w } : Object).slotTypes types = o.slotTypes types := by
  unfold Object.slotTypes Object.places
  rw [List.length_set]

section Store

variable {i : Nat} {p : Nat × TypeId} {width : Width} {v : UInt64}

/-- A store keeps every object at its address and of its type. -/
theorem object?_stored_type (wf : types.WellFormed) (regular : a.Regular types cells)
    (here : a.object? types r = some o) (place : (o.places types)[i]? = some p)
    (moved : Width.ofSize? (types.size p.2) = some width) {r' : UInt64} {o' : Object}
    (there : a.object? types r' = some o') :
    ∃ o'', (a.stored (r + UInt64.ofNat p.1) width v).object? types r' = some o'' ∧
      o''.type = o'.type := by
  rw [object?_stored wf regular here place moved]
  split
  · rename_i same
    subst same
    cases here.symm.trans there
    exact ⟨_, rfl, rfl⟩
  · exact ⟨o', there, rfl⟩

/-- A value of the type of a place may be stored there. -/
theorem WellTyped.stored (wf : types.WellFormed) (typed : WellTyped types clean a)
    (here : a.object? types r = some o) (place : (o.places types)[i]? = some p)
    (moved : Width.ofSize? (types.size p.2) = some width) (good : HasType types clean a p.2 v) :
    WellTyped types clean (a.stored (r + UInt64.ofNat p.1) width v) := by
  obtain ⟨cells, regular⟩ := typed.regular
  have keeps : ∀ t w, HasType types clean a t w →
      HasType types clean (a.stored (r + UInt64.ofNat p.1) width v) t w := fun t w has =>
    has.mono fun o there => object?_stored_type wf regular here place moved there
  refine ⟨⟨cells, regular_stored wf regular here place moved⟩, fun r' o' there => ?_⟩
  rw [object?_stored wf regular here place moved] at there
  split at there
  · cases there
    rw [Object.slotTypes_set]
    exact forall₂_set ((typed.objects r o here).imp keeps) (Object.slotTypes_of_place place)
      (keeps _ _ (good.cut wf moved))
  · exact (typed.objects r' o' there).imp keeps

end Store

/-! ## Allocations -/

section Allocation

variable {type : TypeId} {total : Nat}

/-- An allocation keeps every object. -/
theorem object?_extended_of_some (wf : types.WellFormed) (extended : a.Extended types type total b)
    (regular : a.Regular types cells) (here : a.object? types r = some o) :
    b.object? types r = some o := by
  have enough := (size_le_of_sizeFrom extended.sized).1
  have room := extended.room
  rw [object?_extended wf extended regular, if_neg, here]
  rintro rfl
  rw [object?_nextData regular (by omega)] at here
  cases here

theorem WellTyped.extended (wf : types.WellFormed) (typed : WellTyped types clean a)
    (extended : a.Extended types type total b) : WellTyped types clean b := by
  obtain ⟨cells, regular⟩ := typed.regular
  refine ⟨⟨_, extended.regular regular⟩, fun r o here => ?_⟩
  rw [object?_extended wf extended regular] at here
  split at here
  · cases here
    unfold Object.slotTypes Object.places
    dsimp only
    rw [List.length_replicate, placesIn_length]
    generalize placesIn types type (b.firstWord a.used).toNat = places
    induction places with
    | nil => exact .nil
    | cons p rest ih => exact .cons (.null types clean b p.2) ih
  · exact (typed.objects r o here).imp fun t w has => has.mono fun o there =>
      ⟨o, object?_extended_of_some wf extended regular there, rfl⟩

end Allocation

/-! ## Collections -/

/-- A heap stays well typed if a collection keeps all that the objects which stay refer to. -/
theorem WellTyped.settled (wf : types.WellFormed) (typed : WellTyped types clean a)
    (regular : a.Regular types cells) {M roots : List UInt64} (settled : Settled a types cells M b)
    (exactly : ∀ r, r ∈ M ↔ Reachable a types cells roots r) : WellTyped types clean b := by
  refine ⟨⟨_, settled.regular regular⟩, fun r o here => ?_⟩
  rw [object?_settled wf settled regular] at here
  split at here
  · rename_i stays
    obtain ⟨c, x, at_⟩ := at_of_object? regular here
    have all := typed.objects r o here
    refine List.forall₂_iff_get.mpr ⟨all.length_eq, fun i bound bound' => ?_⟩
    have has := all.get bound bound'
    refine ⟨fun reference => ?_, has.truth⟩
    by_cases null : (o.words.get ⟨i, bound'⟩) = 0
    · exact .inl null
    · -- An object that stays is reachable, and so is what it refers to.
      obtain ⟨o', there, type⟩ := has.object reference null
      have bound'' : i < (o.places types).length := by
        rwa [Object.slotTypes, List.length_map] at bound
      have place := List.getElem?_eq_getElem bound''
      have same : (o.slotTypes types).get ⟨i, bound⟩ = (o.places types)[i].2 := by
        simp [Object.slotTypes]
      have refers : o.words.get ⟨i, bound'⟩ ∈ a.references types x :=
        (at_.mem_references wf regular).mpr ⟨null, i, _, place, same ▸ reference,
          List.getElem?_eq_getElem bound'⟩
      have reached : Reachable a types cells roots (o.words.get ⟨i, bound'⟩) := by
        refine .follow ?_ (mem_objectsOf.mpr ⟨c, at_.mem, at_.live⟩) refers
        rw [at_.address]
        exact (exactly r).mp stays
      refine .inr ⟨o', ?_, type⟩
      rw [object?_settled wf settled regular, if_pos ((exactly _).mpr reached)]
      exact there
  · cases here

/-- A collection on a well-typed heap from live roots succeeds and leaves it well typed. -/
theorem WellTyped.collect (wf : types.WellFormed) {k : Collector}
    (typed : WellTyped types clean k.heap) (regular : k.heap.Regular types cells)
    {roots : List UInt64}
    (rooted : ∀ r ∈ roots, r ≠ 0 → ∃ o, k.heap.object? types r = some o) :
    ∃ M report heap journal,
      Collector.collect types roots k
        = .ok report { k with heap, journal, stats := k.stats.record report } ∧
      (∀ r, r ∈ M ↔ Reachable k.heap types cells roots r) ∧ Settled k.heap types cells M heap ∧
      WellTyped types clean heap := by
  obtain ⟨M, report, heap, journal, ran, _, exactly, settled, _⟩ :=
    Collector.collect_spec wf (typed.consistent wf regular) regular.clear fun r mem nonnull =>
      (live_iff regular).mpr (rooted r mem nonnull)
  exact ⟨M, report, heap, journal, ran, exactly, settled, typed.settled wf regular settled exactly⟩

theorem wellTyped_empty (types : TypeTable) (clean : Bool) {region : Region}
    (below : region.base.toNat + region.size < 2 ^ 64) : WellTyped types clean ⟨region, 0⟩ := by
  have regular : Arena.Regular ⟨region, 0⟩ types [] := by
    refine ⟨⟨below, Nat.zero_le _⟩, rfl, fun x mem => ?_⟩
    cases mem
  refine ⟨⟨[], regular⟩, fun r o here => ?_⟩
  obtain ⟨c, mem, _⟩ := (object?_eq_some_iff regular).mp here
  cases mem

end Heaps

end Heap

end ManagedCode
