import ManagedCode.Proofs.TypeTable
import Mathlib.Algebra.Group.Nat.Defs
import Std.Data.HashMap.Lemmas

/-!
# Names and numbers of types

Types are numbered in the order in which they are made, and a name belongs to one type only. Whatever
operations were called and whether they succeeded, a type is found by its name, and it keeps name and
shape for good, but that a class may get its layout once.

* `TypeTable.names`: the names in the order of the numbers. `TypeTable.creations`: the names of the
  types that operations make.
* `TypeTable.directory`: a map from names to types that is filled as types are made; it finds what a
  search finds.
* `TypeTable.names_identify_types`: every sequence of operations.
-/

namespace ManagedCode.TypeSystem

namespace TypeId

/-- The numbers of types end here. -/
def limit : Nat := 2 ^ 32

theorem toNat_raw (id : TypeId) : id.raw.toNat = id.index + 1 := by
  have positive : id.raw.toNat ≠ 0 := fun zero => id.ne_zero (UInt32.toNat_inj.mp zero)
  unfold index
  omega

theorem index_inj {id other : TypeId} (same : id.index = other.index) : id = other := by
  have numbers : id.raw.toNat = other.raw.toNat := by rw [toNat_raw, toNat_raw, same]
  cases id
  cases other
  cases UInt32.toNat_inj.mp numbers
  rfl

theorem index_ofIndex {i : Nat} (few : i + 1 < limit) : (ofIndex i).index = i := by
  unfold limit at few
  have number : (UInt32.ofNat i + 1).toNat = i + 1 := by
    rw [UInt32.toNat_add, UInt32.toNat_ofNat', show UInt32.toNat 1 = 1 from rfl]
    omega
  unfold ofIndex
  split
  · rename_i zero
    rw [zero] at number
    cases number
  · show (UInt32.ofNat i + 1).toNat - 1 = i
    omega

theorem ofIndex_index (id : TypeId) : ofIndex id.index = id := by
  have few : id.index + 1 < limit := by
    rw [← toNat_raw]
    exact id.raw.toNat_lt
  exact index_inj (index_ofIndex few)

end TypeId

namespace TypeTable

variable {t : TypeTable} {id : TypeId} {name : String}

/-! ## Names -/

/-- The names of the types in the order of their numbers. -/
def names (t : TypeTable) : List String := t.entries.toList.map TypeEntry.name

def Issued (t : TypeTable) (id : TypeId) : Prop := (t.entryOf? id).isSome = true

theorem length_names (t : TypeTable) : t.names.length = t.entries.size := by
  simp [names]

theorem issued_iff : t.Issued id ↔ id.index < t.entries.size := by
  unfold Issued entryOf?
  simp

theorem getElem?_names (t : TypeTable) (id : TypeId) :
    t.names[id.index]? = (t.entryOf? id).map TypeEntry.name := by
  unfold names entryOf?
  rw [List.getElem?_map, Array.getElem?_toList]

theorem getElem?_names_of_issued (issued : t.Issued id) :
    t.names[id.index]? = some (t.name id) := by
  obtain ⟨entry, found⟩ := Option.isSome_iff_exists.mp issued
  rw [getElem?_names]
  unfold name
  rw [found]
  rfl

theorem issued_of_getElem?_names (there : t.names[id.index]? = some name) :
    t.Issued id ∧ t.name id = name := by
  have issued : t.Issued id := by
    rw [issued_iff, ← length_names]
    exact (List.getElem?_eq_some_iff.mp there).1
  exact ⟨issued, Option.some.inj ((getElem?_names_of_issued issued).symm.trans there)⟩

theorem names_push (t : TypeTable) (name : String) (shape : Shape) :
    (t.push name shape).names = t.names ++ [name] := by
  simp [names, push]

theorem names_reshape (t : TypeTable) (id : TypeId) (shape : Shape) :
    (t.reshape id shape).names = t.names := by
  unfold names reshape
  apply List.ext_getElem?
  intro i
  simp only [List.getElem?_map, Array.getElem?_toList, Array.getElem?_modify]
  split
  · cases t.entries[i]? <;> rfl
  · rfl

/-! ## Finding a type by its name -/

theorem lookup_eq (t : TypeTable) (name : String) :
    t.lookup name = (t.names.findIdx? (· == name)).map TypeId.ofIndex := by
  unfold lookup names
  rw [List.findIdx?_map, ← List.findIdx?_toArray]
  rfl

theorem lookup_eq_none_iff : t.lookup name = none ↔ name ∉ t.names := by
  rw [lookup_eq, Option.map_eq_none_iff, List.findIdx?_eq_none_iff]
  constructor
  · intro none mem
    simpa using none name mem
  · intro absent other mem
    simp only [beq_eq_false_iff_ne]
    rintro rfl
    exact absent mem

/-- What is found has the name. -/
theorem getElem?_of_lookup (few : t.entries.size < TypeId.limit) (found : t.lookup name = some id) :
    t.names[id.index]? = some name := by
  rw [lookup_eq, Option.map_eq_some_iff] at found
  obtain ⟨i, first, rfl⟩ := found
  obtain ⟨bound, same, _⟩ := List.findIdx?_eq_some_iff_getElem.mp first
  have near := bound
  rw [length_names] at near
  rw [TypeId.index_ofIndex (by omega), List.getElem?_eq_getElem bound]
  exact congrArg some (eq_of_beq same)

/-- A type is found by its name where names are distinct. -/
theorem lookup_name (distinct : t.names.Nodup) (issued : t.Issued id) :
    t.lookup (t.name id) = some id := by
  obtain ⟨bound, there⟩ := List.getElem?_eq_some_iff.mp (getElem?_names_of_issued issued)
  have first : t.names.findIdx? (· == t.name id) = some id.index := by
    rw [List.findIdx?_eq_some_iff_getElem]
    refine ⟨bound, by simp [there], fun j before => ?_⟩
    have apart := (List.nodup_iff_pairwise_ne.mp distinct)
    rw [List.pairwise_iff_getElem] at apart
    have other := apart j id.index (by omega) bound before
    rw [there] at other
    simpa using other
  rw [lookup_eq, first, Option.map_some, TypeId.ofIndex_index]

/-- The map from names to types that is filled as types are made. -/
def directory (t : TypeTable) : Std.HashMap String TypeId :=
  t.names.zipIdx.foldl (fun map (name, i) => map.insert name (.ofIndex i)) ∅

variable {u : TypeTable}

/-- A new type is entered with its name. -/
theorem directory_append (names : u.names = t.names ++ [name]) :
    u.directory = t.directory.insert name t.nextId := by
  unfold directory nextId
  rw [names, List.zipIdx_append, List.foldl_append, length_names]
  simp

theorem getElem?_foldl_insert {names : List String} (distinct : names.Nodup) (offset : Nat)
    (map : Std.HashMap String TypeId) (name : String) :
    ((names.zipIdx offset).foldl (fun map (name, i) => map.insert name (.ofIndex i)) map)[name]?
      = ((names.findIdx? (· == name)).map fun i => TypeId.ofIndex (offset + i)).or map[name]? := by
  induction names generalizing offset map with
  | nil => rfl
  | cons first rest ih =>
    obtain ⟨unused, distinct⟩ := List.nodup_cons.mp distinct
    rw [List.zipIdx_cons, List.foldl_cons, ih distinct, List.findIdx?_cons,
      Std.HashMap.getElem?_insert]
    by_cases same : first = name
    · -- The name does not come again, so that its first entry stays.
      subst same
      have absent : rest.findIdx? (· == first) = none := by
        rw [List.findIdx?_eq_none_iff]
        intro other mem
        simp only [beq_eq_false_iff_ne]
        rintro rfl
        exact unused mem
      simp [absent]
    · simp only [beq_iff_eq, same, ↓reduceIte, Option.map_map, Function.comp_def]
      congr 2
      funext i
      rw [Nat.add_assoc, Nat.add_comm 1]

/-- The map finds what a search finds. -/
theorem getElem?_directory (distinct : t.names.Nodup) (name : String) :
    t.directory[name]? = t.lookup name := by
  unfold directory
  rw [getElem?_foldl_insert distinct, lookup_eq]
  simp

/-! ## What an operation does to the names -/

/-- The name of the type that an operation asks for. -/
def Command.asksFor (t : TypeTable) : Command → Option String
  | .arrayOf element => some (t.arrayName element)
  | .declareClass name => some name
  | .defineClass .. => none
  | .createClass name _ => some name

theorem Command.leaves_perform (c : Command) (t : TypeTable) : leaves (c.perform t) = c.run t := by
  cases c with
  | _ => exact leaves_map _ _ t

/-- How an operation that asks for a type of a name can end, and what it does to the names. A class
that was declared stays when its definition fails. -/
inductive Outcome (t : TypeTable) (asked : Option String) :
    EStateM.Result TypeError TypeTable (Option TypeId) → Prop where
  | refused (e : TypeError) : Outcome t asked (.error e t)
  | found {name : String} {id : TypeId} (asks : asked = some name) (there : t.lookup name = some id) :
      Outcome t asked (.ok (some id) t)
  | made {name : String} {u : TypeTable} (asks : asked = some name) (unused : name ∉ t.names)
      (names : u.names = t.names ++ [name]) : Outcome t asked (.ok (some t.nextId) u)
  | abandoned {name : String} {u : TypeTable} (e : TypeError) (asks : asked = some name)
      (unused : name ∉ t.names) (names : u.names = t.names ++ [name]) : Outcome t asked (.error e u)
  | defined {u : TypeTable} (names : u.names = t.names) : Outcome t asked (.ok none u)

theorem outcome_arrayOf (t : TypeTable) (element : TypeId) :
    Outcome t (some (t.arrayName element)) ((some <$> arrayOf element) t) := by
  rcases t.arrayOf_cases element with ⟨e, failed, _⟩ | ⟨_, ⟨id, there, found⟩ | ⟨unused, made⟩⟩
  · rw [map_eq_error_iff.mpr failed]
    exact .refused e
  · rw [map_eq_ok_iff.mpr ⟨id, found, rfl⟩]
    exact .found rfl there
  · rw [map_eq_ok_iff.mpr ⟨_, made, rfl⟩]
    exact .made rfl (lookup_eq_none_iff.mp unused) (names_push ..)

theorem outcome_createClass (t : TypeTable) (name : String) (fields : List FieldDef) :
    Outcome t (some name) ((some <$> createClass name fields) t) := by
  rcases t.createClass_cases name fields with
    ⟨e, failed⟩ | ⟨unused, ⟨e, _, failed⟩ | ⟨layout, _, made⟩⟩
  · rw [map_eq_error_iff.mpr failed]
    exact .refused e
  · rw [map_eq_error_iff.mpr failed]
    exact .abandoned e rfl (lookup_eq_none_iff.mp unused) (names_push ..)
  · rw [map_eq_ok_iff.mpr ⟨t.nextId, made, rfl⟩]
    exact .made rfl (lookup_eq_none_iff.mp unused) ((names_reshape ..).trans (names_push ..))

theorem Command.outcome (t : TypeTable) (c : Command) : Outcome t (c.asksFor t) (c.perform t) := by
  cases c with
  | arrayOf element => exact outcome_arrayOf t element
  | declareClass name =>
    rcases t.declareClass_cases name with ⟨e, failed⟩ | ⟨unused, declared⟩
    · rw [Command.perform, map_eq_error_iff.mpr failed]
      exact .refused e
    · rw [Command.perform, map_eq_ok_iff.mpr ⟨_, declared, rfl⟩]
      exact .made rfl (lookup_eq_none_iff.mp unused) (names_push ..)
  | defineClass id fields =>
    rcases t.defineClass_cases id fields with ⟨e, failed⟩ | ⟨layout, _, defined⟩
    · rw [Command.perform, map_eq_error_iff.mpr failed]
      exact .refused e
    · rw [Command.perform, map_eq_ok_iff.mpr ⟨_, defined, rfl⟩]
      exact .defined (names_reshape ..)
  | createClass name fields => exact outcome_createClass t name fields

/-- An operation adds at most one name, that of the type it asks for, and only a new one. -/
theorem Command.names_run (t : TypeTable) (c : Command) :
    (c.run t).names = t.names ∨
      ∃ name, c.asksFor t = some name ∧ name ∉ t.names ∧ (c.run t).names = t.names ++ [name] := by
  have outcome := c.outcome t
  rw [← c.leaves_perform]
  generalize c.perform t = result at outcome
  cases outcome with
  | refused e | found asks there => exact .inl rfl
  | made asks unused names | abandoned e asks unused names => exact .inr ⟨_, asks, unused, names⟩
  | defined names => exact .inl names

/-- The map gets at most one entry, that of a new type under a new name. -/
theorem Command.directory_run (t : TypeTable) (c : Command) :
    (c.run t).directory = t.directory ∨ ∃ name, c.asksFor t = some name ∧ name ∉ t.names ∧
      (c.run t).directory = t.directory.insert name t.nextId := by
  rcases c.names_run t with same | ⟨name, asks, unused, longer⟩
  · refine .inl ?_
    unfold directory
    rw [same]
  · exact .inr ⟨name, asks, unused, directory_append longer⟩

/-- An operation that is answered with a type is answered with the one of the name it asks for, and
with the last one if it made a type. -/
theorem Command.answer_named {c : Command} (few : u.entries.size < TypeId.limit)
    (answer : c.perform t = .ok (some id) u) :
    (∃ name, c.asksFor t = some name ∧ u.names[id.index]? = some name) ∧
      (t.entries.size < u.entries.size → id.raw.toNat = u.entries.size) := by
  have outcome := c.outcome t
  rw [answer] at outcome
  cases outcome with
  | found asks there =>
    exact ⟨⟨_, asks, getElem?_of_lookup few there⟩, fun more => absurd more (Nat.lt_irrefl _)⟩
  | made asks unused names =>
    have longer := congrArg List.length names
    rw [length_names, List.length_append, length_names, List.length_singleton] at longer
    have place : t.nextId.index = t.entries.size := TypeId.index_ofIndex (by omega)
    refine ⟨⟨_, asks, ?_⟩, fun _ => ?_⟩
    · rw [place, names, ← length_names, List.getElem?_concat_length]
    · rw [TypeId.toNat_raw, place, longer]

/-! ## Sequences of operations -/

/-- The table that a sequence of operations leads to. An operation may fail. -/
def after (t : TypeTable) (commands : List Command) : TypeTable := commands.foldl Command.run t

/-- The names of the types that operations make, one after the other. -/
def creations (t : TypeTable) : List Command → List String
  | [] => []
  | c :: rest =>
    (if t.entries.size < (c.run t).entries.size then (c.asksFor t).toList else [])
      ++ creations (c.run t) rest

theorem names_after (t : TypeTable) (commands : List Command) :
    (t.after commands).names = t.names ++ creations t commands := by
  induction commands generalizing t with
  | nil => exact (List.append_nil _).symm
  | cons c rest ih =>
    show ((c.run t).after rest).names = _
    rw [ih, creations, ← List.append_assoc]
    congr 1
    rcases c.names_run t with same | ⟨name, asks, _, longer⟩
    · have size := congrArg List.length same
      rw [length_names, length_names] at size
      rw [if_neg (by omega), List.append_nil, same]
    · have size := congrArg List.length longer
      rw [length_names, List.length_append, length_names, List.length_singleton] at size
      rw [if_pos (by omega), asks, longer]
      rfl

theorem nodup_names_after (distinct : t.names.Nodup) (commands : List Command) :
    (t.after commands).names.Nodup := by
  induction commands generalizing t with
  | nil => exact distinct
  | cons c rest ih =>
    apply ih
    rcases c.names_run t with same | ⟨name, _, unused, longer⟩
    · rw [same]
      exact distinct
    · rw [longer, List.nodup_append]
      refine ⟨distinct, by simp, ?_⟩
      rintro other mem _ last rfl
      cases List.mem_singleton.mp last
      exact unused mem

theorem WellFormed.after (wf : t.WellFormed) (commands : List Command) :
    (t.after commands).WellFormed := by
  induction commands generalizing t with
  | nil => exact wf
  | cons c rest ih => exact ih ((c.changes t).wellFormed wf)

theorem grows_after (t : TypeTable) (commands : List Command) : t.Grows (t.after commands) := by
  induction commands generalizing t with
  | nil => exact .refl t
  | cons c rest ih => exact (c.grows t).trans (ih _)

/-! ## Names, numbers and shapes for good -/

/-- What a type keeps in a later table: everything, but that a class may get its layout once. -/
structure Persists (t u : TypeTable) (id : TypeId) : Prop where
  issued : u.Issued id
  name : u.name id = t.name id
  shape : u.shape? id = t.shape? id ∨
    t.shape? id = some (.object none) ∧ ∃ layout, u.shape? id = some (.object (some layout))
  element : u.element? id = t.element? id
  size : u.size id = t.size id
  reference : u.isReference id = t.isReference id
  layout : ∀ layout, t.layout? id = some layout → u.layout? id = some layout

theorem shape?_of_issued (issued : t.Issued id) : ∃ shape, t.shape? id = some shape := by
  obtain ⟨entry, found⟩ := Option.isSome_iff_exists.mp issued
  exact ⟨entry.shape, by rw [shape?, found]; rfl⟩

theorem issued_of_shape? {shape : Shape} (known : t.shape? id = some shape) : t.Issued id := by
  obtain ⟨entry, found, _⟩ := Option.map_eq_some_iff.mp known
  exact Option.isSome_iff_exists.mpr ⟨entry, found⟩

theorem resolveAll_eq_ok_iff {ids : List TypeId} :
    t.resolveAll ids = .ok () ↔ ∀ id ∈ ids, t.Issued id := by
  induction ids with
  | nil => exact ⟨fun _ _ mem => absurd mem List.not_mem_nil, fun _ => rfl⟩
  | cons first rest ih =>
    have both : t.resolveAll (first :: rest)
        = (discard (t.resolve first) >>= fun _ => t.resolveAll rest) := rfl
    rw [List.forall_mem_cons, ← ih, both, resolve]
    cases known : t.shape? first with
    | none =>
      constructor
      · intro passed
        cases passed
      · rintro ⟨issued, _⟩
        obtain ⟨shape, known'⟩ := shape?_of_issued issued
        cases known.symm.trans known'
    | some shape => exact ⟨fun passed => ⟨issued_of_shape? known, passed⟩, fun both => both.2⟩

theorem persists_after (issued : t.Issued id) (later : List Command) :
    t.Persists (t.after later) id := by
  have grows := grows_after t later
  obtain ⟨shape, known⟩ := shape?_of_issued issued
  obtain ⟨shape', known', size, reference⟩ := grows.keeps id shape known
  have named : (t.after later).names[id.index]? = some (t.name id) := by
    rw [names_after, List.getElem?_append_left]
    · exact getElem?_names_of_issued issued
    · rw [length_names]
      exact issued_iff.mp issued
  obtain ⟨issued', name⟩ := issued_of_getElem?_names named
  have kept : (t.after later).shape? id = t.shape? id ∨
      t.shape? id = some (.object none) ∧
        ∃ layout, (t.after later).shape? id = some (.object (some layout)) := by
    rw [known]
    exact (grows id shape known).imp_right fun ⟨undefined, defined⟩ =>
      ⟨congrArg some undefined, defined⟩
  refine ⟨issued', name, kept, ?_, ?_, ?_, fun layout => grows.layout?⟩
  · unfold element?
    rcases kept with same | ⟨undefined, layout, defined⟩
    · rw [same]
    · rw [undefined, defined]
      rfl
  · rw [size_of_shape? known, size_of_shape? known', size]
  · rw [isReference_of_shape? known, isReference_of_shape? known', reference]

theorem names_primitives : TypeTable.primitives.names = ["Int", "Float", "Bool", "Void"] := by
  simp [names, primitives, Primitive.name]

theorem nodup_names_primitives : TypeTable.primitives.names.Nodup := by
  rw [names_primitives]
  decide

theorem name_primitives (p : Primitive) :
    TypeTable.primitives.Issued p.id ∧ TypeTable.primitives.name p.id = p.name := by
  apply issued_of_getElem?_names
  rw [names_primitives]
  cases p <;> rfl

/-- **Names and numbers of types.** After any operations, whether they succeeded or not, and as long
as there are numbers: the numbers of the types are one, two and so on in the order in which the types
were made, the four primitive types first; names are distinct, a type is found by its name, also in a
map that only gets the types that are made, and no other name finds one; an operation is answered with
the type of the name that it asks for, the last one if it made it; and whatever operations follow, a
type keeps its number, name and shape, but that a class may get its layout once. -/
theorem names_identify_types (commands : List Command)
    (few : (TypeTable.primitives.after commands).entries.size < TypeId.limit) :
    let t := TypeTable.primitives.after commands
    ((∀ n, (∃ id, t.Issued id ∧ id.raw.toNat = n) ↔ 1 ≤ n ∧ n ≤ t.entries.size) ∧
      t.names = ["Int", "Float", "Bool", "Void"] ++ creations .primitives commands ∧
      (∀ id, t.Issued id → t.names[id.raw.toNat - 1]? = some (t.name id)) ∧
      ∀ p : Primitive, t.Issued p.id ∧ t.name p.id = p.name ∧ t.shape? p.id = some (.primitive p)) ∧
    (t.names.Nodup ∧ (∀ name id, t.lookup name = some id ↔ t.Issued id ∧ t.name id = name) ∧
      (∀ name, t.lookup name = none ↔ name ∉ t.names) ∧
      (∀ name, t.directory[name]? = t.lookup name) ∧
      ∀ c : Command, (c.run t).directory = t.directory ∨
        ∃ name, c.asksFor t = some name ∧ name ∉ t.names ∧
          (c.run t).directory = t.directory.insert name t.nextId) ∧
    (∀ (c : Command) (id : TypeId) (u : TypeTable), c.perform t = .ok (some id) u →
      u.entries.size < TypeId.limit →
        (∃ name, c.asksFor t = some name ∧ u.Issued id ∧ u.name id = name) ∧
        (t.entries.size < u.entries.size → id.raw.toNat = u.entries.size)) ∧
    ∀ later id, t.Issued id → t.Persists (t.after later) id := by
  intro t
  have few : t.entries.size < TypeId.limit := few
  have distinct : t.names.Nodup := nodup_names_after nodup_names_primitives commands
  have start : t.names = ["Int", "Float", "Bool", "Void"] ++ creations .primitives commands := by
    rw [← names_primitives]
    exact names_after _ commands
  refine ⟨⟨fun n => ?_, start, fun id issued => ?_, fun p => ?_⟩,
    ⟨distinct, fun name id => ⟨fun found => ?_, ?_⟩, fun name => lookup_eq_none_iff,
      getElem?_directory distinct, fun c => c.directory_run t⟩,
    fun c id u answer few' => ?_, fun later id issued => persists_after issued later⟩
  · constructor
    · rintro ⟨id, issued, rfl⟩
      rw [issued_iff] at issued
      rw [id.toNat_raw]
      omega
    · rintro ⟨low, high⟩
      have place := TypeId.index_ofIndex (i := n - 1) (by omega)
      refine ⟨.ofIndex (n - 1), issued_iff.mpr (by omega), ?_⟩
      rw [TypeId.toNat_raw]
      omega
  · exact getElem?_names_of_issued issued
  · obtain ⟨issued, name⟩ := name_primitives p
    have shape := wellFormed_primitives.primitive p
    have persists := persists_after issued commands
    refine ⟨persists.issued, persists.name.trans name, ?_⟩
    rcases persists.shape with same | ⟨undefined, _⟩
    · exact same.trans shape
    · cases undefined.symm.trans shape
  · exact issued_of_getElem?_names (getElem?_of_lookup few found)
  · rintro ⟨issued, rfl⟩
    exact lookup_name distinct issued
  · obtain ⟨⟨name, asks, there⟩, last⟩ := Command.answer_named few' answer
    exact ⟨⟨name, asks, issued_of_getElem?_names there⟩, last⟩

/-- A class that is declared twice, and one whose definition fails. -/
theorem names_identify_types_abandoned :
    let commands : List Command := [.declareClass "Node", .createClass "Node" [],
      .arrayOf (.ofIndex 4), .createClass "Cell" [⟨"empty", .void, .everyone⟩], .arrayOf (.ofIndex 4)]
    let t := TypeTable.primitives.after commands
    t.entries.size < TypeId.limit ∧
    t.names = ["Int", "Float", "Bool", "Void", "Node", "Array[Node]", "Cell"] ∧
    (∀ n, (∃ id, t.Issued id ∧ id.raw.toNat = n) ↔ 1 ≤ n ∧ n ≤ t.entries.size) ∧
    (∀ name id, t.lookup name = some id ↔ t.Issued id ∧ t.name id = name) ∧
    ∀ later id, t.Issued id → t.Persists (t.after later) id := by
  intro commands t
  have few : t.entries.size < TypeId.limit := by decide +kernel
  obtain ⟨⟨numbers, _⟩, ⟨_, found, _⟩, _, persists⟩ := names_identify_types commands few
  exact ⟨few, by decide +kernel, numbers, found, persists⟩

end TypeTable

end ManagedCode.TypeSystem
