import ManagedCode.Proofs.Action
import ManagedCode.Typing.Snapshot

/-!
# What a checked function promises

The search through a body ends when every instruction that was met has been visited. Its snapshots
are then closed under control: the instruction at a reachable position accepts the operand types
noted there, and each position that control goes to from there has the operand types after it.

* `Checked`: the snapshots of a body are closed.
* `checked_of_verify`: a function that passes the check has such snapshots.
* `Scope.Agrees`: what the check of a body depends on.
-/

namespace ManagedCode.Typing

open Bytecode TypeSystem

variable {s : Scope} {states : Snapshots}

/-- The operand types at a position are accepted by its instruction and handed on. -/
def Visited (s : Scope) (states : Snapshots) (i : Nat) (stack : OperandTypes) : Prop :=
  ∀ instr, s.function.code[i]? = some instr →
    ∃ after next, step s instr stack = .ok after ∧
      Exploration.successors s.function.code i instr = .ok next ∧
      ∀ j ∈ next, states[j]? = some (some after)

/-- The snapshots of a body are closed under control. -/
structure Checked (s : Scope) (states : Snapshots) : Prop where
  size : states.size = s.function.code.size
  entry : states[0]? = some (some [])
  visited : ∀ i stack, states[i]? = some (some stack) → Visited s states i stack

namespace Exploration

variable {s : Scope} {x y : Exploration}
variable {stack : OperandTypes} {next : List Nat} {i : Nat} {states : Snapshots}

/-- Operand types that are noted stay, new ones are at positions still to be visited. -/
structure Extends (x y : Exploration) : Prop where
  size : y.states.size = x.states.size
  kept : ∀ (i : Nat) (stack : OperandTypes), x.states[i]? = some (some stack) →
    y.states[i]? = some (some stack)
  new : ∀ (i : Nat) (stack : OperandTypes), y.states[i]? = some (some stack) →
    x.states[i]? = some (some stack) ∨ i ∈ y.worklist
  listed : ∀ i ∈ x.worklist, i ∈ y.worklist

theorem Extends.refl (x : Exploration) : Extends x x :=
  ⟨rfl, fun _ _ => id, fun _ _ => .inl, fun _ => id⟩

theorem Extends.trans {z : Exploration} (first : Extends x y) (second : Extends y z) :
    Extends x z := by
  refine ⟨second.size.trans first.size, fun i stack at_ => second.kept i stack (first.kept i stack at_),
    fun i stack at_ => ?_, fun i mem => second.listed i (first.listed i mem)⟩
  rcases second.new i stack at_ with old | new
  · exact (first.new i stack old).imp id (second.listed i)
  · exact .inr new

theorem flow_spec {n : Nat} (bound : n < x.states.size) (run : flow s stack x n = .ok y) :
    Extends x y ∧ y.states[n]? = some (some stack) := by
  unfold flow at run
  rw [dif_pos bound] at run
  split at run
  · rename_i unmet
    cases run
    have new : ∀ i, (x.states.set n (some stack) bound)[i]?
        = if n = i then some (some stack) else x.states[i]? := fun i => Array.getElem?_set bound
    refine ⟨⟨Array.size_set bound, fun i other at_ => ?_, fun i other at_ => ?_,
      fun i mem => List.mem_cons_of_mem _ mem⟩, ?_⟩
    · dsimp only
      rw [new]
      split
      · rename_i same
        subst same
        rw [Array.getElem?_eq_getElem bound, unmet] at at_
        cases at_
      · exact at_
    · dsimp only at at_
      rw [new] at at_
      split at at_
      · rename_i same
        subst same
        exact .inr List.mem_cons_self
      · exact .inl at_
    · dsimp only
      rw [new, if_pos rfl]
  · rename_i existing met
    split at run
    · rename_i same
      cases run
      refine ⟨.refl x, ?_⟩
      rw [Array.getElem?_eq_getElem bound, met, same]
    · cases run

theorem foldlM_flow_spec (bound : ∀ n ∈ next, n < x.states.size)
    (run : next.foldlM (flow s stack) x = .ok y) :
    Extends x y ∧ ∀ n ∈ next, y.states[n]? = some (some stack) := by
  induction next generalizing x with
  | nil =>
    cases run
    exact ⟨.refl _, fun n mem => nomatch mem⟩
  | cons head rest ih =>
    rw [List.foldlM_cons] at run
    obtain ⟨mid, first, later⟩ := except_bind_eq_ok_iff.mp run
    obtain ⟨extends_, here⟩ := flow_spec (bound head List.mem_cons_self) first
    obtain ⟨extends', there⟩ := ih
      (fun n mem => by rw [extends_.size]; exact bound n (List.mem_cons_of_mem _ mem)) later
    refine ⟨extends_.trans extends', fun n mem => ?_⟩
    rcases List.mem_cons.mp mem with rfl | mem
    · exact extends'.kept _ _ here
    · exact there n mem

variable {code : Array Instr}

variable {instr : Instr}

/-- Where control goes from an instruction: to its target and, unless it ends a block, to the next
position. Both are positions of the body. -/
theorem successors_eq_ok (run : successors code i instr = .ok next) :
    (∀ target, instr.target? = some target → target < code.size) ∧
      (instr.endsBlock = false → i + 1 < code.size) ∧
      next = instr.target?.toList ++ (if instr.endsBlock then [] else [i + 1]) := by
  have rest : ∀ jumps : List Nat,
      (if instr.endsBlock then pure jumps
        else if i + 1 < code.size then pure (jumps ++ [i + 1]) else throw Cause.fallsOffEnd)
        = (.ok next : Except Cause (List Nat)) →
      (instr.endsBlock = false → i + 1 < code.size) ∧
        next = jumps ++ (if instr.endsBlock then [] else [i + 1]) := by
    intro jumps found
    split at found
    · rename_i ends
      cases found
      rw [if_pos ends, List.append_nil]
      exact ⟨fun no => (Bool.noConfusion (ends.symm.trans no)), rfl⟩
    · rename_i goes
      split at found
      · rename_i inside
        cases found
        rw [if_neg goes]
        exact ⟨fun _ => inside, rfl⟩
      · cases found
  unfold successors at run
  dsimp only at run
  cases target : instr.target? with
  | none =>
    rw [target] at run
    exact ⟨(fun _ no => nomatch no), rest [] run⟩
  | some t =>
    rw [target] at run
    dsimp only at run
    split at run
    · rename_i inside
      exact ⟨(fun _ same => Option.some.inj same ▸ inside), rest [t] run⟩
    · cases run

theorem successors_lt (run : successors code i instr = .ok next) : ∀ j ∈ next, j < code.size := by
  obtain ⟨target, falls, rfl⟩ := successors_eq_ok run
  intro j mem
  rcases List.mem_append.mp mem with jump | follows
  · exact target j (Option.mem_toList.mp jump)
  · split at follows
    · cases follows
    · rename_i goes
      cases List.mem_singleton.mp follows
      exact falls (by simpa using goes)

/-- The instructions that were met are noted with the right size, and those that are not to be
visited any more have handed on their operand types. -/
structure Sound (s : Scope) (x : Exploration) : Prop where
  size : x.states.size = s.function.code.size
  visited : ∀ i stack, x.states[i]? = some (some stack) → i ∉ x.worklist →
    Visited s x.states i stack

theorem visited_extends (visited : Visited s x.states i stack) (extends_ : Extends x y) :
    Visited s y.states i stack := by
  intro instr at_
  obtain ⟨after, next, stepped, found, handed⟩ := visited instr at_
  exact ⟨after, next, stepped, found, fun j mem => extends_.kept j after (handed j mem)⟩

/-- Visiting the instruction at the head of the worklist. -/
theorem Sound.advance {index : Nat} {rest : List Nat} (sound : Sound s ⟨states, index :: rest⟩)
    (run : advance s ⟨states, rest⟩ index = .ok y) : Sound s y ∧ Extends ⟨states, rest⟩ y := by
  unfold Exploration.advance at run
  split at run
  · rename_i outside
    cases run
    refine ⟨⟨sound.size, fun i stack at_ notListed => ?_⟩, .refl _⟩
    by_cases same : i = index
    · subst same
      exact fun instr here => nomatch outside.symm.trans here
    · exact sound.visited i stack at_ fun mem => (List.mem_cons.mp mem).elim same notListed
  · rename_i instr here
    obtain ⟨after, stepped, run⟩ := except_bind_eq_ok_iff.mp run
    obtain ⟨next, found, run⟩ := except_bind_eq_ok_iff.mp run
    have stepped := mapError_eq_ok_iff.mp stepped
    have found := mapError_eq_ok_iff.mp found
    have size : states.size = s.function.code.size := sound.size
    obtain ⟨extends_, handed⟩ := foldlM_flow_spec
      (fun n mem => by rw [show (⟨states, rest⟩ : Exploration).states = states from rfl, size]
                       exact successors_lt found n mem) run
    refine ⟨⟨extends_.size.trans size, fun i stack at_ notListed => ?_⟩, extends_⟩
    have old := (extends_.new i stack at_).resolve_right notListed
    by_cases same : i = index
    · -- The visit itself handed on what the instruction makes of its operand types.
      subst same
      intro other here'
      cases here.symm.trans here'
      have noted : ((states[i]?).bind id).getD [] = stack := by
        rw [show states[i]? = some (some stack) from old]
        rfl
      rw [noted] at stepped
      exact ⟨after, next, stepped, found, handed⟩
    · refine visited_extends (x := ⟨states, rest⟩) (sound.visited i stack old fun mem => ?_) extends_
      exact (List.mem_cons.mp mem).elim same fun later => notListed (extends_.listed i later)

/-- The search in any order: at each point any instruction of the worklist may be visited next. -/
inductive Explores (s : Scope) : Exploration → Except Located Snapshots → Prop
  | done (states : Snapshots) : Explores s ⟨states, []⟩ (.ok states)
  | fails {x : Exploration} {index : Nat} {rest : List Nat} {e : Located} :
      x.worklist.Perm (index :: rest) →
      Exploration.advance s ⟨x.states, rest⟩ index = .error e → Explores s x (.error e)
  | visits {x y : Exploration} {index : Nat} {rest : List Nat} {r : Except Located Snapshots} :
      x.worklist.Perm (index :: rest) →
      Exploration.advance s ⟨x.states, rest⟩ index = .ok y → Explores s y r → Explores s x r

/-- The search that always visits the head of the worklist is one of them. -/
theorem explores_finish (s : Scope) (x : Exploration) : Explores s x (x.finish s) := by
  fun_induction Exploration.finish s x with
  | case1 x empty =>
    obtain ⟨states, worklist⟩ := x
    cases empty
    exact .done states
  | case2 x index rest listed e failed => exact .fails (.of_eq listed) failed
  | case3 x index rest listed y advanced ih => exact .visits (.of_eq listed) advanced ih

theorem Sound.perm {worklist worklist' : List Nat} (sound : Sound s ⟨states, worklist⟩)
    (perm : worklist.Perm worklist') : Sound s ⟨states, worklist'⟩ :=
  ⟨sound.size, fun i stack at_ notListed =>
    sound.visited i stack at_ fun mem => notListed (perm.mem_iff.mp mem)⟩

/-- In whatever order the instructions were visited, the snapshots at the end are closed. -/
theorem Explores.sound {r : Except Located Snapshots} (run : Explores s x r) (sound : Sound s x)
    (ends : r = .ok states) :
    states.size = s.function.code.size ∧
      (∀ (i : Nat) (stack : OperandTypes), x.states[i]? = some (some stack) →
        states[i]? = some (some stack)) ∧
      ∀ (i : Nat) (stack : OperandTypes), states[i]? = some (some stack) →
        Visited s states i stack := by
  induction run with
  | done last =>
    cases ends
    exact ⟨sound.size, fun _ _ => id,
      fun i stack at_ => sound.visited i stack at_ List.not_mem_nil⟩
  | fails => cases ends
  | visits chosen advanced _ ih =>
    obtain ⟨sound', extends_⟩ := (sound.perm chosen).advance advanced
    obtain ⟨size, kept, visited⟩ := ih sound' ends
    exact ⟨size, fun i stack at_ => kept i stack (extends_.kept i stack at_), visited⟩

theorem sound_start (s : Scope) (nonempty : 0 < s.function.code.size) :
    Sound s (start s.function.code.size) ∧
      (start s.function.code.size).states[0]? = some (some []) := by
  have states : ∀ i, (start s.function.code.size).states[i]?
      = if i = 0 then some (some []) else (Array.replicate s.function.code.size none)[i]? := by
    intro i
    unfold start
    rw [Array.getElem?_setIfInBounds]
    split
    · rename_i same
      subst same
      simp [nonempty]
    · rename_i other
      rw [if_neg (Ne.symm other)]
  refine ⟨⟨by simp [start], fun i stack at_ notListed => ?_⟩, by rw [states, if_pos rfl]⟩
  rw [states] at at_
  split at at_
  · rename_i same
    subst same
    exact absurd List.mem_cons_self notListed
  · rw [Array.getElem?_replicate] at at_
    split at at_ <;> cases at_

end Exploration

theorem checked_of_explores (nonempty : 0 < s.function.code.size)
    (run : Exploration.Explores s (.start s.function.code.size) (.ok states)) :
    Checked s states := by
  obtain ⟨sound, entry⟩ := Exploration.sound_start s nonempty
  obtain ⟨size, kept, visited⟩ := run.sound sound rfl
  exact ⟨size, kept 0 [] entry, visited⟩

/-- A function passes the check when its declaration does, it has a body and the search ends. -/
theorem verify_eq_ok_iff :
    verify s = .ok states ↔ checkDefinition s = .ok () ∧ 0 < s.function.code.size ∧
      (Exploration.start s.function.code.size).finish s = .ok states := by
  unfold verify snapshots
  rw [mapError_eq_ok_iff, except_bind_eq_ok_iff]
  simp only [mapError_eq_ok_iff, Array.isEmpty_iff_size_eq_zero]
  constructor
  · rintro ⟨⟨⟩, defined, run⟩
    split at run
    · cases run
    · exact ⟨defined, by omega, run⟩
  · rintro ⟨defined, nonempty, run⟩
    exact ⟨(), defined, by rw [if_neg (by omega)]; exact run⟩

/-- A function that passes the check has closed snapshots. -/
theorem checked_of_verify (run : verify s = .ok states) :
    checkDefinition s = .ok () ∧ Checked s states := by
  obtain ⟨defined, nonempty, finished⟩ := verify_eq_ok_iff.mp run
  exact ⟨defined, checked_of_explores nonempty (finished ▸ Exploration.explores_finish s _)⟩

/-! ## What the check depends on -/

/-- Two scopes with the same types, the same definitions of functions and the same body. -/
structure Scope.Agrees (s s' : Scope) : Prop where
  types : s'.types = s.types
  callee : ∀ id, s'.callee id = s.callee id
  definition : s'.function.definition = s.function.definition
  locals : s'.function.locals = s.function.locals
  code : s'.function.code = s.function.code

section Agrees

variable {s s' : Scope}

section

variable (agrees : s.Agrees s')

include agrees

/-- What depends on the types of a scope only. -/
theorem Scope.Agrees.helpers :
    s'.resolve = s.resolve ∧ s'.unsupported = s.unsupported ∧ s'.expect = s.expect ∧
      s'.isNumeric = s.isNumeric ∧ s'.element = s.element ∧ s'.checkField = s.checkField ∧
      s'.resolveAll = s.resolveAll := by
  obtain ⟨types, functions, function⟩ := s
  obtain ⟨types', functions', function'⟩ := s'
  have same : types' = types := agrees.types
  subst same
  exact ⟨rfl, rfl, rfl, rfl, rfl, rfl, rfl⟩

theorem Scope.Agrees.pops :
    popExpect s' = popExpect s ∧ popPair s' = popPair s ∧ popAll s' = popAll s := by
  obtain ⟨_, _, expect, _⟩ := agrees.helpers
  have expects : popExpect s' = popExpect s := by
    funext expected stack
    unfold popExpect
    rw [expect]
  refine ⟨expects, ?_, ?_⟩
  · funext stack
    unfold popPair
    rw [expect]
  · funext expected
    induction expected with
    | nil => rfl
    | cons head rest ih =>
      funext stack
      show (popExpect s' head stack >>= popAll s' rest) = (popExpect s head stack >>= popAll s rest)
      rw [expects, ih]

theorem step_agrees (i : Instr) (stack : OperandTypes) : step s' i stack = step s i stack := by
  obtain ⟨resolve, unsupported, expect, isNumeric, element, checkField, resolveAll⟩ := agrees.helpers
  obtain ⟨popExpects, popPairs, popAlls⟩ := agrees.pops
  simp only [step, applyCall, popCompared, resolve, unsupported, expect, isNumeric, element,
    checkField, resolveAll, popExpects, popPairs, popAlls, agrees.callee, agrees.definition,
    agrees.locals, agrees.types]

theorem checkDefinition_agrees : checkDefinition s' = checkDefinition s := by
  obtain ⟨resolve, _, _, _, _, _, resolveAll⟩ := agrees.helpers
  unfold checkDefinition
  rw [resolve, resolveAll, agrees.definition, agrees.locals]

end

theorem Checked.agrees (checked : Checked s states) (agrees : s.Agrees s') : Checked s' states := by
  refine ⟨by rw [agrees.code]; exact checked.size, checked.entry, fun i stack at_ instr here => ?_⟩
  rw [agrees.code] at here ⊢
  obtain ⟨after, next, stepped, found, handed⟩ := checked.visited i stack at_ instr here
  exact ⟨after, next, by rw [step_agrees agrees]; exact stepped, found, handed⟩

theorem advance_agrees (agrees : s.Agrees s') (x : Exploration) (index : Nat) :
    Exploration.advance s' x index = Exploration.advance s x index := by
  have flows : Exploration.flow s' = Exploration.flow s := by
    funext stack x successor
    unfold Exploration.flow Scope.names
    rw [agrees.types]
  unfold Exploration.advance
  simp only [step_agrees agrees, agrees.code, flows]

theorem finish_agrees (agrees : s.Agrees s') (x : Exploration) : x.finish s' = x.finish s := by
  fun_induction Exploration.finish s x with
  | case1 x empty =>
    rw [Exploration.finish]
    split
    · rfl
    · rename_i listed
      cases empty.symm.trans listed
  | case2 x index rest listed e failed =>
    rw [← advance_agrees agrees] at failed
    rw [Exploration.finish]
    split
    · rename_i empty
      cases listed.symm.trans empty
    · rename_i listed'
      cases listed.symm.trans listed'
      rw [failed]
  | case3 x index rest listed y advanced ih =>
    rw [← advance_agrees agrees] at advanced
    rw [Exploration.finish]
    split
    · rename_i empty
      cases listed.symm.trans empty
    · rename_i listed'
      cases listed.symm.trans listed'
      rw [advanced]
      exact ih

/-- The check gives the same result in scopes that agree. -/
theorem verify_agrees (agrees : s.Agrees s') : verify s' = verify s := by
  unfold verify snapshots Function.signature
  rw [checkDefinition_agrees agrees, agrees.code, finish_agrees agrees, agrees.definition,
    agrees.types]

end Agrees

end ManagedCode.Typing
