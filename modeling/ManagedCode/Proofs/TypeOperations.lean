import ManagedCode.Proofs.TypeNames

/-!
# Type operations that fail

An operation that fails changes nothing, but that a class whose definition fails stays declared when
both were asked for at once. Its name is taken from then on.

* `TypeTable.failed_operation_exact`: what operations that fail leave.
-/

namespace ManagedCode.TypeSystem.TypeTable

/-- A name that is taken is refused. -/
theorem createClass_declared (t : TypeTable) (name : String) (shape : Shape)
    (fields : List FieldDef) :
    createClass name fields (t.push name shape)
      = .error (.duplicateType name) (t.push name shape) := by
  refine bind_of_error ?_
  unfold declareClass
  cases found : (t.push name shape).lookup name with
  | some id => rfl
  | none =>
    rw [lookup_eq_none_iff, names_push] at found
    exact absurd (List.mem_append_right _ (List.mem_singleton_self name)) found

/-- **Operations that fail.** An operation that fails leaves the table as it was, but that a class
stays declared when only its definition fails. Creating this class once more fails whatever its
fields are; defining it does what creating it would have done. -/
theorem failed_operation_exact (t u : TypeTable) (c : Command) (e : TypeError)
    (failed : c.perform t = .error e u) :
    u = t ∨ ∃ name fields, c = .createClass name fields ∧
      declareClass name t = .ok t.nextId u ∧ defineClass t.nextId fields u = .error e u ∧
      ∀ again, createClass name again u = .error (.duplicateType name) u ∧
        ∀ v, createClass name again t = .ok t.nextId v ↔
          defineClass t.nextId again u = .ok () v := by
  cases c with
  | arrayOf element =>
    have failed := map_eq_error_iff.mp failed
    rcases t.arrayOf_cases element with ⟨_, run, _⟩ | ⟨_, ⟨_, _, run⟩ | ⟨_, run⟩⟩
    all_goals cases run.symm.trans failed
    exact .inl rfl
  | declareClass name =>
    have failed := map_eq_error_iff.mp failed
    rcases t.declareClass_cases name with ⟨_, run⟩ | ⟨_, run⟩
    all_goals cases run.symm.trans failed
    exact .inl rfl
  | defineClass id fields =>
    have failed := map_eq_error_iff.mp failed
    rcases t.defineClass_cases id fields with ⟨_, run⟩ | ⟨_, _, run⟩
    all_goals cases run.symm.trans failed
    exact .inl rfl
  | createClass name fields =>
    have failed := map_eq_error_iff.mp failed
    rcases t.createClass_cases name fields with
      ⟨_, run⟩ | ⟨unused, ⟨_, undefined, run⟩ | ⟨_, _, run⟩⟩
    all_goals cases run.symm.trans failed
    · exact .inl rfl
    · have declared : declareClass name t = .ok t.nextId (t.push name (.object none)) := by
        unfold declareClass
        rw [unused]
      refine .inr ⟨name, fields, rfl, declared, undefined, fun again =>
        ⟨t.createClass_declared name _ again, fun v => ?_⟩⟩
      have first : createClass name again t = (do
          defineClass t.nextId again
          return t.nextId : EStateM TypeError TypeTable TypeId) (t.push name (.object none)) :=
        bind_of_ok declared
      rw [first, bind_eq_ok_iff]
      constructor
      · rintro ⟨_, _, defined, returned⟩
        cases returned
        exact defined
      · exact fun defined => ⟨(), v, defined, rfl⟩

/-- A class with two fields of one name is refused and stays declared. Other fields come too late to
create it, but not to define it. -/
theorem failed_operation_exact_twice :
    ∃ e u v, createClass "Pair" [⟨"x", .int, .everyone⟩, ⟨"x", .int, .everyone⟩] .primitives
        = .error e u ∧
      createClass "Pair" [⟨"x", .int, .everyone⟩] u = .error (.duplicateType "Pair") u ∧
      defineClass TypeTable.primitives.nextId [⟨"x", .int, .everyone⟩] u = .ok () v := by
  have failed : createClass "Pair" [⟨"x", .int, .everyone⟩, ⟨"x", .int, .everyone⟩] .primitives
      = .error (.duplicateField "Pair" "x") (TypeTable.primitives.push "Pair" (.object none)) := by
    cbv
  have good : ∃ v, createClass "Pair" [⟨"x", .int, .everyone⟩] .primitives
      = .ok TypeTable.primitives.nextId v := ⟨_, by cbv⟩
  obtain ⟨v, good⟩ := good
  rcases failed_operation_exact _ _ (.createClass _ _) _ (map_eq_error_iff.mpr failed) with
    same | ⟨_, _, asked, _, _, retry⟩
  · exact absurd (congrArg (fun t => t.entries.size) same) (by decide +kernel)
  · cases asked
    obtain ⟨refused, defined⟩ := retry [⟨"x", .int, .everyone⟩]
    exact ⟨_, _, v, failed, refused, (defined v).mp good⟩

/-- A class that cannot be created takes its name with it. -/
theorem failed_class_stays :
    ∃ e u, createClass "Cell" [⟨"empty", .void, .everyone⟩] .primitives = .error e u ∧
      TypeTable.primitives.lookup "Cell" = none ∧ u.lookup "Cell" = some (.ofIndex 4) ∧
      createClass "Cell" [] u = .error (.duplicateType "Cell") u :=
  ⟨.voidField "Cell" "empty", TypeTable.primitives.push "Cell" (.object none), by cbv, by cbv,
    by cbv, by cbv⟩

end ManagedCode.TypeSystem.TypeTable
