import Mathlib.Logic.Relation
import ManagedCode.Proofs.Snapshots

/-!
# The check finds the least assignment

A body is well typed when operand types can be assigned to some of its positions, none to the first,
so that every instruction with an assignment accepts it and hands its result on to all positions that
control goes to from there. This says nothing about how such an assignment is found. The check does
find one whenever there is one, and the one it finds is contained in all the others.

* `Closed`: an assignment that is closed under control.
* `WellDeclared`, `checkDefinition_eq_ok_iff`: what is checked apart from the instructions.
* `Below.advance`: a visit of the search stays inside every closed assignment, so it cannot fail.
* `verify_least`: the check passes exactly the well typed bodies and returns the least assignment,
  defined where control can come, in whatever order the search visits instructions.
-/

namespace ManagedCode.Typing

open Bytecode TypeSystem

/-- Control can go from position `i` of a body to `j`. -/
def Follows (code : Array Instr) (i j : Nat) : Prop :=
  ∃ instr, code[i]? = some instr ∧
    (instr.target? = some j ∨ instr.endsBlock = false ∧ j = i + 1)

/-- Control can come to a position from the first one. -/
def Reaches (code : Array Instr) : Nat → Prop :=
  Relation.ReflTransGen (Follows code) 0

abbrev Assignment := Nat → Option OperandTypes

/-- The operand types of an assignment are accepted where they stand and handed on to every
position that control goes to from there, which lies in the body. -/
structure Closed (s : Scope) (S : Assignment) : Prop where
  entry : S 0 = some []
  accepts : ∀ i stack, S i = some stack →
    ∃ instr after, s.function.code[i]? = some instr ∧ step s instr stack = .ok after ∧
      ∀ j, Follows s.function.code i j → j < s.function.code.size ∧ S j = some after

/-- The assignment that a table of snapshots writes down. -/
def noted (states : Snapshots) : Assignment := fun i => (states[i]?).bind id

variable {stack : OperandTypes}

theorem noted_eq_some_iff {states : Snapshots} {i : Nat} :
    noted states i = some stack ↔ states[i]? = some (some stack) := by
  simp [noted, Option.bind_eq_some_iff]

/-- What is declared apart from the instructions is in order. -/
structure WellDeclared (s : Scope) : Prop where
  resolved : ∀ type ∈ s.function.definition.parameters ++ s.function.locals ++
    [s.function.definition.returnType], (s.types.shape? type).isSome
  locals : TypeId.void ∉ s.function.locals
  receiver : ∀ owner, s.function.definition.owner = some owner →
    s.function.definition.parameters.head? = some owner
  constructor_ : s.function.definition.constructor = true →
    s.function.definition.returnType = .void

section Declaration

variable {s : Scope}

theorem discard_resolve_eq_ok_iff {type : TypeId} :
    discard (s.resolve type) = (.ok () : Except Cause Unit) ↔ (s.types.shape? type).isSome := by
  unfold Scope.resolve
  cases s.types.shape? type with
  | none => exact ⟨(nomatch ·), (nomatch ·)⟩
  | some shape => exact ⟨fun _ => rfl, fun _ => rfl⟩

theorem resolveAll_eq_ok_iff {types : List TypeId} :
    s.resolveAll types = .ok () ↔ ∀ type ∈ types, (s.types.shape? type).isSome := by
  induction types with
  | nil => exact ⟨fun _ => List.forall_mem_nil _, fun _ => rfl⟩
  | cons head rest ih =>
    rw [List.forall_mem_cons, ← ih, ← discard_resolve_eq_ok_iff]
    show (discard (s.resolve head) >>= fun _ => s.resolveAll rest) = .ok () ↔ _
    rw [except_bind_eq_ok_iff]
    exact ⟨fun ⟨(), here, later⟩ => ⟨here, later⟩, fun ⟨here, later⟩ => ⟨(), here, later⟩⟩

theorem receiver_iff {d : Definition} :
    ¬(d.owner.isSome && d.parameters.head? != d.owner) = true ↔
      ∀ owner, d.owner = some owner → d.parameters.head? = some owner := by
  cases d.owner <;> simp

theorem checkDefinition_eq_ok_iff : checkDefinition s = .ok () ↔ WellDeclared s := by
  have locals : s.function.locals.findIdx? (· == .void) = none ↔
      TypeId.void ∉ s.function.locals := by
    rw [List.findIdx?_eq_none_iff]
    simp only [beq_eq_false_iff_ne]
    exact ⟨fun all mem => all _ mem rfl, fun none_ _ mem same => none_ (same ▸ mem)⟩
  unfold checkDefinition
  simp only [except_bind_eq_ok_iff]
  constructor
  · rintro ⟨⟨⟩, resolved, ⟨⟩, returns, rest⟩
    split at rest
    · cases rest
    rename_i noVoid
    split at rest
    · cases rest
    rename_i receiver
    split at rest
    · cases rest
    rename_i built
    exact {
      resolved := List.forall_mem_append.mpr ⟨resolveAll_eq_ok_iff.mp resolved,
        List.forall_mem_singleton.mpr (discard_resolve_eq_ok_iff.mp returns)⟩
      locals := locals.mp noVoid
      receiver := receiver_iff.mp receiver
      constructor_ := fun isConstructor => by simpa [isConstructor] using built }
  · intro declared
    obtain ⟨resolved, returns⟩ := List.forall_mem_append.mp declared.resolved
    refine ⟨(), resolveAll_eq_ok_iff.mpr resolved, (),
      discard_resolve_eq_ok_iff.mpr (returns _ (List.mem_singleton_self _)), ?_⟩
    rw [locals.mpr declared.locals]
    dsimp only
    rw [if_neg (receiver_iff.mpr declared.receiver), if_neg ?_]
    · rfl
    · simpa using declared.constructor_

end Declaration

variable {next : List Nat}

section Control

variable {code : Array Instr} {i : Nat} {instr : Instr}

theorem mem_successors_iff (at_ : code[i]? = some instr)
    (run : Exploration.successors code i instr = .ok next) (j : Nat) :
    j ∈ next ↔ Follows code i j := by
  obtain ⟨_, _, rfl⟩ := Exploration.successors_eq_ok run
  rw [List.mem_append, Option.mem_toList]
  constructor
  · rintro (jump | falls)
    · exact ⟨instr, at_, .inl jump⟩
    · split at falls
      · cases falls
      · rename_i goes
        exact ⟨instr, at_, .inr ⟨by simpa using goes, List.mem_singleton.mp falls⟩⟩
  · rintro ⟨other, here, follows⟩
    cases at_.symm.trans here
    refine follows.imp id fun ⟨goes, next⟩ => ?_
    rw [if_neg (by simp [goes]), next]
    exact List.mem_singleton_self _

theorem successors_of_inside (at_ : code[i]? = some instr)
    (inside : ∀ j, Follows code i j → j < code.size) :
    ∃ next, Exploration.successors code i instr = .ok next := by
  have falls : instr.endsBlock = false → i + 1 < code.size := fun goes =>
    inside (i + 1) ⟨instr, at_, .inr ⟨goes, rfl⟩⟩
  have jumps : ∀ t, instr.target? = some t → t < code.size := fun t target =>
    inside t ⟨instr, at_, .inl target⟩
  unfold Exploration.successors
  cases target : instr.target? with
  | none =>
    cases ends : instr.endsBlock with
    | true => exact ⟨_, rfl⟩
    | false => exact ⟨_, by simp [falls ends]; rfl⟩
  | some t =>
    cases ends : instr.endsBlock with
    | true => exact ⟨_, by simp [jumps t target]; rfl⟩
    | false => exact ⟨_, by simp [jumps t target, falls ends]; rfl⟩

end Control

section Search

variable {s : Scope} {S : Assignment} {x : Exploration}

theorem Checked.closed {states : Snapshots} (checked : Checked s states) :
    Closed s (noted states) := by
  refine ⟨noted_eq_some_iff.mpr checked.entry, fun i stack at_ => ?_⟩
  have at_ := noted_eq_some_iff.mp at_
  have bound : i < s.function.code.size := by
    rw [← checked.size]
    exact (Array.getElem?_eq_some_iff.mp at_).1
  have here := Array.getElem?_eq_getElem bound
  obtain ⟨after, next, stepped, found, handed⟩ := checked.visited i stack at_ _ here
  refine ⟨_, after, here, stepped, fun j follows => ?_⟩
  have mem := (mem_successors_iff here found j).mpr follows
  exact ⟨Exploration.successors_lt found j mem, noted_eq_some_iff.mpr (handed j mem)⟩

/-- What was noted so far is part of an assignment, and only noted positions are listed. -/
structure Below (S : Assignment) (x : Exploration) : Prop where
  noted : ∀ (i : Nat) (stack : OperandTypes), x.states[i]? = some (some stack) → S i = some stack
  listed : ∀ i ∈ x.worklist, ∃ stack, x.states[i]? = some (some stack)

theorem Below.perm {states : Snapshots} {worklist worklist' : List Nat}
    (below : Below S ⟨states, worklist⟩) (perm : worklist.Perm worklist') :
    Below S ⟨states, worklist'⟩ :=
  ⟨below.noted, fun i mem => below.listed i (perm.mem_iff.mpr mem)⟩

/-- Handing on the operand types that an assignment has at the successor. -/
theorem Below.flow {n : Nat} (below : Below S x) (at_ : S n = some stack) :
    ∃ y, Exploration.flow s stack x n = .ok y ∧ Below S y := by
  unfold Exploration.flow
  split
  · rename_i bound
    split
    · refine ⟨_, rfl, fun i other noted => ?_, fun i mem => ?_⟩
      · rw [Array.getElem?_set bound] at noted
        split at noted
        · rename_i same
          cases noted
          exact same ▸ at_
        · exact below.noted i other noted
      · by_cases same : n = i
        · exact ⟨stack, by rw [Array.getElem?_set bound, if_pos same]⟩
        · rw [Array.getElem?_set bound, if_neg same]
          exact below.listed i ((List.mem_cons.mp mem).resolve_left (Ne.symm same))
    · rename_i existing met
      have same : existing = stack := by
        have noted := below.noted n existing (by rw [Array.getElem?_eq_getElem bound, met])
        exact Option.some.inj (noted.symm.trans at_)
      exact ⟨x, if_pos same, below⟩
  · exact ⟨x, rfl, below⟩

theorem Below.foldlM_flow (below : Below S x) (at_ : ∀ n ∈ next, S n = some stack) :
    ∃ y, next.foldlM (Exploration.flow s stack) x = .ok y ∧ Below S y := by
  induction next generalizing x with
  | nil => exact ⟨x, rfl, below⟩
  | cons head rest ih =>
    obtain ⟨mid, first, below⟩ := below.flow (s := s) (at_ head List.mem_cons_self)
    obtain ⟨y, later, below⟩ := ih below fun n mem => at_ n (List.mem_cons_of_mem _ mem)
    exact ⟨y, by rw [List.foldlM_cons, first]; exact later, below⟩

/-- A visit goes through below a closed assignment and stays below it. -/
theorem Below.advance {states : Snapshots} {index : Nat} {rest : List Nat} (closed : Closed s S)
    (below : Below S ⟨states, index :: rest⟩) :
    ∃ y, Exploration.advance s ⟨states, rest⟩ index = .ok y ∧ Below S y := by
  obtain ⟨stack, met⟩ := below.listed index List.mem_cons_self
  obtain ⟨instr, after, here, stepped, handed⟩ :=
    closed.accepts index stack (below.noted index stack met)
  obtain ⟨next, found⟩ := successors_of_inside here fun j follows => (handed j follows).1
  have met : states[index]? = some (some stack) := met
  have others : Below S ⟨states, rest⟩ :=
    ⟨below.noted, fun i mem => below.listed i (List.mem_cons_of_mem _ mem)⟩
  obtain ⟨y, flowed, below'⟩ := others.foldlM_flow (s := s)
    fun n mem => (handed n ((mem_successors_iff here found n).mp mem)).2
  refine ⟨y, ?_, below'⟩
  unfold Exploration.advance
  simp only [here, met, Option.bind_some, id, Option.getD_some, stepped, found]
  exact flowed

/-- Below a closed assignment a search in any order ends with a part of it. -/
theorem explores_below {r : Except Located Snapshots} (run : Exploration.Explores s x r)
    (closed : Closed s S) (below : Below S x) :
    ∃ states, r = .ok states ∧ ∀ i stack, noted states i = some stack → S i = some stack := by
  induction run with
  | done states => exact ⟨states, rfl, fun i stack at_ => below.noted i stack (noted_eq_some_iff.mp at_)⟩
  | fails chosen failed =>
    obtain ⟨y, advanced, _⟩ := (below.perm chosen).advance closed
    cases failed.symm.trans advanced
  | visits chosen advanced _ ih =>
    obtain ⟨y, advanced', below'⟩ := (below.perm chosen).advance closed
    cases advanced.symm.trans advanced'
    exact ih below'

theorem below_start (entry : S 0 = some []) (nonempty : 0 < s.function.code.size) :
    Below S (.start s.function.code.size) := by
  have zero := (Exploration.sound_start s nonempty).2
  refine ⟨fun i stack at_ => ?_, fun i mem => ?_⟩
  · unfold Exploration.start at at_
    rw [Array.getElem?_setIfInBounds] at at_
    split at at_
    · rename_i same
      subst same
      rw [if_pos (by simpa using nonempty)] at at_
      cases at_
      exact entry
    · rw [Array.getElem?_replicate] at at_
      split at at_ <;> cases at_
  · cases List.mem_singleton.mp mem
    exact ⟨[], zero⟩

/-- Every position that control can come to is in a closed assignment. -/
theorem Closed.defined (closed : Closed s S) {i : Nat} (reaches : Reaches s.function.code i) :
    ∃ stack, S i = some stack := by
  induction reaches with
  | refl => exact ⟨[], closed.entry⟩
  | tail _ follows ih =>
    obtain ⟨stack, at_⟩ := ih
    obtain ⟨_, after, _, _, handed⟩ := closed.accepts _ stack at_
    exact ⟨after, (handed _ follows).2⟩

open Classical in
/-- A closed assignment stays closed when it forgets the positions that control cannot come to. -/
theorem Closed.restrict (closed : Closed s S) :
    Closed s fun i => if Reaches s.function.code i then S i else none := by
  refine ⟨by rw [if_pos .refl]; exact closed.entry, fun i stack at_ => ?_⟩
  split at at_
  · rename_i reaches
    obtain ⟨instr, after, here, stepped, handed⟩ := closed.accepts i stack at_
    refine ⟨instr, after, here, stepped, fun j follows => ⟨(handed j follows).1, ?_⟩⟩
    rw [if_pos (show Reaches s.function.code j from reaches.tail follows)]
    exact (handed j follows).2
  · cases at_

end Search

section Check

variable {s : Scope} {states : Snapshots}

/-- A search that ends well, in whatever order, ends with the least closed assignment. -/
theorem least_of_explores (nonempty : 0 < s.function.code.size)
    (run : Exploration.Explores s (.start s.function.code.size) (.ok states)) :
    Closed s (noted states) ∧
      ∀ S, Closed s S → ∀ i stack, noted states i = some stack → S i = some stack := by
  refine ⟨(checked_of_explores nonempty run).closed, fun S closed => ?_⟩
  obtain ⟨_, same, below⟩ := explores_below run closed (below_start closed.entry nonempty)
  cases same
  exact below

/-- Two tables of one size that note the same are equal. -/
theorem eq_of_noted {other : Snapshots} (size : states.size = other.size)
    (same : ∀ i stack, noted states i = some stack ↔ noted other i = some stack) :
    states = other := by
  refine Array.ext size fun i here there => ?_
  have equal : noted states i = noted other i := Option.ext (same i)
  simpa [noted, here, there] using equal

theorem reaches_iff_noted (closed : Closed s (noted states))
    (least : ∀ S, Closed s S → ∀ i stack, noted states i = some stack → S i = some stack) (i : Nat) :
    (noted states i).isSome ↔ Reaches s.function.code i := by
  refine ⟨fun some_ => ?_, fun reaches => ?_⟩
  · obtain ⟨stack, at_⟩ := Option.isSome_iff_exists.mp some_
    have kept := least _ closed.restrict i stack at_
    split at kept
    · assumption
    · cases kept
  · exact Option.isSome_iff_exists.mpr (closed.defined reaches)

end Check

/-- The check passes a function exactly when its declaration is in order, its body is not empty and
some assignment of operand types to positions is closed under control. The table it returns is the
least such assignment and is defined exactly where control can come. A search that visits the
instructions in any other order passes the same functions and finds the same table. -/
theorem verify_least (s : Scope) :
    ((∃ states, verify s = .ok states) ↔
      WellDeclared s ∧ 0 < s.function.code.size ∧ ∃ S, Closed s S) ∧
    (∀ states, verify s = .ok states →
      states.size = s.function.code.size ∧ Closed s (noted states) ∧
        (∀ S, Closed s S → ∀ i stack, noted states i = some stack → S i = some stack) ∧
        ∀ i, (noted states i).isSome ↔ Reaches s.function.code i) ∧
    (WellDeclared s → 0 < s.function.code.size →
      ∀ r, Exploration.Explores s (.start s.function.code.size) r →
        ∀ states, r = .ok states ↔ verify s = .ok states) := by
  have found : ∀ states, verify s = .ok states → 0 < s.function.code.size ∧
      Exploration.Explores s (.start s.function.code.size) (.ok states) := by
    intro states run
    obtain ⟨_, nonempty, finished⟩ := verify_eq_ok_iff.mp run
    exact ⟨nonempty, finished ▸ Exploration.explores_finish s _⟩
  have passes : WellDeclared s → 0 < s.function.code.size → ∀ S, Closed s S →
      ∃ states, verify s = .ok states := by
    intro declared nonempty S closed
    obtain ⟨states, finished, _⟩ := explores_below (Exploration.explores_finish s _) closed
      (below_start closed.entry nonempty)
    exact ⟨states, verify_eq_ok_iff.mpr
      ⟨checkDefinition_eq_ok_iff.mpr declared, nonempty, finished⟩⟩
  refine ⟨⟨fun ⟨states, run⟩ => ?_, fun ⟨declared, nonempty, S, closed⟩ =>
    passes declared nonempty S closed⟩, fun states run => ?_, fun declared nonempty r explored states => ?_⟩
  · obtain ⟨nonempty, explored⟩ := found states run
    exact ⟨checkDefinition_eq_ok_iff.mp (verify_eq_ok_iff.mp run).1, nonempty, _,
      (least_of_explores nonempty explored).1⟩
  · obtain ⟨nonempty, explored⟩ := found states run
    obtain ⟨closed, least⟩ := least_of_explores nonempty explored
    exact ⟨(checked_of_explores nonempty explored).size, closed, least,
      reaches_iff_noted closed least⟩
  · -- Both searches end with a least assignment, and there is only one.
    have same : ∀ one other, Exploration.Explores s (.start s.function.code.size) (.ok one) →
        Exploration.Explores s (.start s.function.code.size) (.ok other) → one = other := by
      intro one other first second
      obtain ⟨closed, least⟩ := least_of_explores nonempty first
      obtain ⟨closed', least'⟩ := least_of_explores nonempty second
      exact eq_of_noted
        ((checked_of_explores nonempty first).size.trans (checked_of_explores nonempty second).size.symm)
        fun i stack => ⟨least _ closed' i stack, least' _ closed i stack⟩
    constructor
    · rintro rfl
      obtain ⟨other, run⟩ := passes declared nonempty _ (least_of_explores nonempty explored).1
      rw [run, same _ _ explored (found other run).2]
    · intro run
      obtain ⟨_, explored'⟩ := found states run
      obtain ⟨closed, _⟩ := least_of_explores nonempty explored'
      obtain ⟨other, rfl, _⟩ := explores_below explored closed (below_start closed.entry nonempty)
      rw [same _ _ explored explored']

end ManagedCode.Typing
