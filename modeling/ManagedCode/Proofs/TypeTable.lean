import ManagedCode.Proofs.Action
import ManagedCode.TypeSystem.Table

/-!
# Well-formed type tables

A table made by the operations of `ManagedCode.TypeSystem.Table` keeps three promises, whatever
operations were called and whether they succeeded (`TypeTable.Built.wellFormed`):

* the primitive types stand first and keep their shape, and no other type is primitive;
* the fields of a class lie one after the other without a gap, and each has the size of its type;
* the element type of an array has a size.

Operations add types and give classes their layouts; they change nothing else (`Command.grows`).
-/

namespace ManagedCode

namespace TypeSystem

/-! ## Definitions -/

/-- Fields that lie one after the other from an offset on. -/
def Packed : Nat → List Field → Prop
  | _, [] => True
  | offset, f :: rest => f.offset = offset ∧ Packed (offset + f.size) rest

def Primitive.id : Primitive → TypeId
  | int => .int
  | float => .float
  | bool => .bool
  | void => .void

theorem TypeId.ofRaw?_raw (type : TypeId) : TypeId.ofRaw? type.raw = some type := by
  simp [TypeId.ofRaw?, type.ne_zero]

namespace TypeTable

/-- A field takes the bytes of its type, at least one, and knows whether it is a reference. -/
structure FieldFits (t : TypeTable) (f : Field) : Prop where
  size : f.size = t.size f.type
  reference : f.reference = t.isReference f.type
  nonempty : f.size ≠ 0

/-- What every table keeps. -/
structure WellFormed (t : TypeTable) : Prop where
  primitive : ∀ p : Primitive, t.shape? p.id = some (.primitive p)
  primitive_only : ∀ id p, t.shape? id = some (.primitive p) → id = p.id
  packed : ∀ id layout, t.layout? id = some layout → Packed 0 layout.fields
  fits : ∀ id layout, t.layout? id = some layout → ∀ f ∈ layout.fields, t.FieldFits f
  element : ∀ id element, t.element? id = some element → t.size element ≠ 0

inductive Command where
  | arrayOf (element : TypeId)
  | declareClass (name : String)
  | defineClass (id : TypeId) (fields : List FieldDef)
  | createClass (name : String) (fields : List FieldDef)

def Command.run (t : TypeTable) : Command → TypeTable
  | .arrayOf element => leaves (TypeTable.arrayOf element t)
  | .declareClass name => leaves (TypeTable.declareClass name t)
  | .defineClass id fields => leaves (TypeTable.defineClass id fields t)
  | .createClass name fields => leaves (TypeTable.createClass name fields t)

/-- Does what is asked of a table of types. A type that was found or made is the answer. -/
def Command.perform : Command → EStateM TypeError TypeTable (Option TypeId)
  | .arrayOf element => some <$> TypeTable.arrayOf element
  | .declareClass name => some <$> TypeTable.declareClass name
  | .defineClass id fields => (fun _ => none) <$> TypeTable.defineClass id fields
  | .createClass name fields => some <$> TypeTable.createClass name fields

inductive Built : TypeTable → Prop
  | primitives : Built .primitives
  | run {t : TypeTable} (c : Command) : Built t → Built (c.run t)

end TypeTable

/-! ## Packed fields -/

variable {fields : List Field} {f : Field}

variable {offset : Nat}

theorem Packed.field_le (packed : Packed offset fields) (mem : f ∈ fields) :
    offset ≤ f.offset ∧
      f.offset + f.size ≤ offset + fields.foldr (fun field total => field.size + total) 0 := by
  induction fields generalizing offset with
  | nil => cases mem
  | cons g rest ih =>
    obtain ⟨start, later⟩ := packed
    rw [List.foldr_cons]
    rcases List.mem_cons.mp mem with rfl | there
    · omega
    · have := ih later there
      omega

theorem Packed.offset_add_size_le {layout : Layout} (packed : Packed 0 layout.fields)
    (mem : f ∈ layout.fields) : f.offset + f.size ≤ layout.size := by
  have := (packed.field_le mem).2
  simpa [Layout.size] using this

namespace TypeTable

variable {t u : TypeTable} {id : TypeId} {shape : Shape} {layout : Layout}

/-! ## Shapes after an operation -/

theorem shape?_push_of_some (name : String) (new : Shape) (known : t.shape? id = some shape) :
    (t.push name new).shape? id = some shape := by
  unfold shape? entryOf? at *
  cases entry : t.entries[id.index]? with
  | none => simp [entry] at known
  | some e =>
    obtain ⟨inside, value⟩ := Array.getElem?_eq_some_iff.mp entry
    rw [push, Array.getElem?_push_lt inside, value]
    rwa [entry] at known

variable {new : Shape} {owner : String} {taken : List String} {defs : List FieldDef}

theorem shape?_push_cases {name : String} (found : (t.push name new).shape? id = some shape) :
    t.shape? id = some shape ∨ shape = new := by
  unfold shape? entryOf? push at *
  rw [Array.getElem?_push] at found
  split at found
  · simp only [Option.map_some, Option.some.injEq] at found
    exact .inr found.symm
  · exact .inl found

theorem shape?_reshape (id other : TypeId) (new : Shape) :
    (t.reshape id new).shape? other
      = if id.index = other.index then (t.shape? other).map fun _ => new else t.shape? other := by
  unfold shape? entryOf? reshape
  rw [Array.getElem?_modify]
  split
  · cases t.entries[other.index]? <;> rfl
  · rfl

theorem size_of_shape? (h : t.shape? id = some shape) : t.size id = shape.size := by
  simp [size, h]

theorem isReference_of_shape? (h : t.shape? id = some shape) :
    t.isReference id = shape.isReference := by
  simp [isReference, h]

theorem shape?_of_size_ne (h : t.size id ≠ 0) : ∃ shape, t.shape? id = some shape := by
  cases known : t.shape? id with
  | none => simp [size, known] at h
  | some shape => exact ⟨shape, rfl⟩

/-- A table in which every type of another keeps its size and stays a reference or not. -/
def Keeps (t u : TypeTable) : Prop :=
  ∀ id shape, t.shape? id = some shape →
    ∃ shape', u.shape? id = some shape' ∧ shape'.size = shape.size ∧
      shape'.isReference = shape.isReference

theorem Keeps.size (keeps : t.Keeps u) (h : t.size id ≠ 0) : u.size id = t.size id := by
  obtain ⟨shape, known⟩ := shape?_of_size_ne h
  obtain ⟨shape', known', size, _⟩ := keeps id shape known
  rw [size_of_shape? known, size_of_shape? known', size]

theorem Keeps.fieldFits (keeps : t.Keeps u) (fits : t.FieldFits f) : u.FieldFits f := by
  have issued : t.size f.type ≠ 0 := by
    rw [← fits.size]
    exact fits.nonempty
  obtain ⟨shape, known⟩ := shape?_of_size_ne issued
  obtain ⟨shape', known', size, reference⟩ := keeps f.type shape known
  refine ⟨?_, ?_, fits.nonempty⟩
  · rw [fits.size, keeps.size issued]
  · rw [fits.reference, isReference_of_shape? known, isReference_of_shape? known', reference]

/-! ## Tables only grow -/

/-- A table in which every type of another keeps its shape, but that a class may have got its
layout. -/
def Grows (t u : TypeTable) : Prop :=
  ∀ id shape, t.shape? id = some shape →
    u.shape? id = some shape ∨
      shape = .object none ∧ ∃ layout, u.shape? id = some (.object (some layout))

theorem Grows.refl (t : TypeTable) : t.Grows t := fun _ _ known => .inl known

theorem Grows.trans {v : TypeTable} (first : t.Grows u) (second : u.Grows v) : t.Grows v := by
  intro id shape known
  rcases first id shape known with same | ⟨undefined, layout, defined⟩
  · exact second id shape same
  · rcases second id _ defined with kept | ⟨clash, _⟩
    · exact .inr ⟨undefined, layout, kept⟩
    · cases clash

/-- What the shape of a type tells stays, if that of a class without a layout tells nothing. -/
theorem Grows.bind_shape? (grows : t.Grows u) {β : Type} {g : Shape → Option β} {b : β}
    (blank : g (.object none) = none) (known : (t.shape? id).bind g = some b) :
    (u.shape? id).bind g = some b := by
  obtain ⟨shape, found, has⟩ := Option.bind_eq_some_iff.mp known
  rcases grows id shape found with same | ⟨rfl, _⟩
  · exact Option.bind_eq_some_iff.mpr ⟨shape, same, has⟩
  · cases blank.symm.trans has

theorem Grows.layout? (grows : t.Grows u) (known : t.layout? id = some layout) :
    u.layout? id = some layout :=
  grows.bind_shape? rfl known

theorem Grows.element? (grows : t.Grows u) {element : TypeId}
    (known : t.element? id = some element) : u.element? id = some element :=
  grows.bind_shape? rfl known

theorem Grows.keeps (grows : t.Grows u) : t.Keeps u := by
  intro id shape known
  rcases grows id shape known with same | ⟨rfl, layout, defined⟩
  · exact ⟨shape, same, rfl, rfl⟩
  · exact ⟨_, defined, rfl, rfl⟩

theorem grows_push (t : TypeTable) (name : String) (new : Shape) : t.Grows (t.push name new) :=
  fun _ _ known => .inl (shape?_push_of_some name new known)

theorem grows_reshape (layout : Layout) (undefined : t.shape? id = some (.object none)) :
    t.Grows (t.reshape id (.object (some layout))) := by
  intro other shape known
  rw [shape?_reshape]
  split
  · rename_i same
    have both : t.shape? other = some (.object none) := by
      unfold shape? entryOf? at *
      rwa [← same]
    cases known.symm.trans both
    exact .inr ⟨rfl, layout, by rw [known]; rfl⟩
  · exact .inl known

/-! ## Well-formedness is kept -/

/-- The shapes of the primitive table, by position. -/
theorem shape?_primitives_cases (known : TypeTable.primitives.shape? id = some shape) :
    ∃ p : Primitive, shape = .primitive p ∧ id = p.id := by
  obtain ⟨raw, ne_zero⟩ := id
  have position : raw.toNat ≠ 0 := fun zero => ne_zero (UInt32.toNat_inj.mp zero)
  have issue : ∀ p : Primitive, raw.toNat = p.id.raw.toNat →
      (⟨raw, ne_zero⟩ : TypeId) = p.id := by
    intro p same
    have equal : raw = p.id.raw := UInt32.toNat_inj.mp same
    cases p <;> (subst equal; rfl)
  unfold shape? entryOf? primitives TypeId.index at known
  obtain ⟨n, hn⟩ : ∃ n, raw.toNat = n + 1 := ⟨raw.toNat - 1, by omega⟩
  rw [hn, Nat.add_sub_cancel] at known
  rcases n with _ | _ | _ | _ | n
  · exact ⟨.int, by simpa using known.symm, issue .int (by rw [hn]; rfl)⟩
  · exact ⟨.float, by simpa using known.symm, issue .float (by rw [hn]; rfl)⟩
  · exact ⟨.bool, by simpa using known.symm, issue .bool (by rw [hn]; rfl)⟩
  · exact ⟨.void, by simpa using known.symm, issue .void (by rw [hn]; rfl)⟩
  · simp at known

theorem wellFormed_primitives : WellFormed .primitives := by
  have no_layout : ∀ id, TypeTable.primitives.layout? id = none := by
    intro id
    rw [layout?, Option.bind_eq_none_iff]
    intro shape known
    obtain ⟨p, rfl, _⟩ := shape?_primitives_cases known
    rfl
  have no_element : ∀ id, TypeTable.primitives.element? id = none := by
    intro id
    rw [element?, Option.bind_eq_none_iff]
    intro shape known
    obtain ⟨p, rfl, _⟩ := shape?_primitives_cases known
    rfl
  refine ⟨?_, ?_, ?_, ?_, ?_⟩
  · intro p
    cases p <;> simp [shape?, entryOf?, primitives, Primitive.id, TypeId.index, TypeId.int,
      TypeId.float, TypeId.bool, TypeId.void]
  · intro id p known
    obtain ⟨q, same, place⟩ := shape?_primitives_cases known
    cases same
    exact place
  · intro id layout h
    rw [no_layout] at h
    cases h
  · intro id layout h
    rw [no_layout] at h
    cases h
  · intro id element h
    rw [no_element] at h
    cases h

theorem WellFormed.push (wf : t.WellFormed) (name : String) (reference : new.isReference = true)
    (plain : new.layout? = none)
    (sized : ∀ element, new.element? = some element → t.size element ≠ 0) :
    (t.push name new).WellFormed := by
  have old_layout : ∀ id layout, (t.push name new).layout? id = some layout →
      t.layout? id = some layout := by
    intro id layout h
    obtain ⟨shape, found, has⟩ := Option.bind_eq_some_iff.mp h
    rcases shape?_push_cases found with known | rfl
    · exact Option.bind_eq_some_iff.mpr ⟨shape, known, has⟩
    · rw [plain] at has
      cases has
  refine ⟨fun p => shape?_push_of_some _ _ (wf.primitive p), ?_, ?_, ?_, ?_⟩
  · intro id p found
    rcases shape?_push_cases found with known | rfl
    · exact wf.primitive_only id p known
    · cases reference
  · exact fun id layout h => wf.packed id layout (old_layout id layout h)
  · exact fun id layout h f mem =>
      ((grows_push t name new).keeps).fieldFits (wf.fits id layout (old_layout id layout h) f mem)
  · intro id element h
    obtain ⟨shape, found, has⟩ := Option.bind_eq_some_iff.mp h
    have issued : t.size element ≠ 0 := by
      rcases shape?_push_cases found with known | rfl
      · exact wf.element id element (Option.bind_eq_some_iff.mpr ⟨shape, known, has⟩)
      · exact sized element has
    rw [((grows_push t name new).keeps).size issued]
    exact issued

theorem WellFormed.reshape (wf : t.WellFormed) (undefined : t.shape? id = some (.object none))
    (packed : Packed 0 layout.fields) (fits : ∀ f ∈ layout.fields, t.FieldFits f) :
    (t.reshape id (.object (some layout))).WellFormed := by
  have keeps := (grows_reshape layout undefined).keeps
  have cases_layout : ∀ other l, (t.reshape id (.object (some layout))).layout? other = some l →
      l = layout ∨ t.layout? other = some l := by
    intro other l h
    obtain ⟨shape, found, has⟩ := Option.bind_eq_some_iff.mp h
    rw [shape?_reshape] at found
    split at found
    · obtain ⟨_, _, rfl⟩ := Option.map_eq_some_iff.mp found
      cases has
      exact .inl rfl
    · exact .inr (Option.bind_eq_some_iff.mpr ⟨shape, found, has⟩)
  refine ⟨?_, ?_, ?_, ?_, ?_⟩
  · intro p
    have known := wf.primitive p
    rw [shape?_reshape]
    split
    · rename_i same
      have both : t.shape? p.id = some (.object none) := by
        unfold shape? entryOf? at *
        rwa [← same]
      rw [known] at both
      cases both
    · exact known
  · intro other p found
    rw [shape?_reshape] at found
    split at found
    · obtain ⟨_, _, same⟩ := Option.map_eq_some_iff.mp found
      cases same
    · exact wf.primitive_only other p found
  · intro other l h
    rcases cases_layout other l h with rfl | old
    · exact packed
    · exact wf.packed other l old
  · intro other l h f mem
    apply keeps.fieldFits
    rcases cases_layout other l h with rfl | old
    · exact fits f mem
    · exact wf.fits other l old f mem
  · intro other element h
    have old : t.element? other = some element := by
      obtain ⟨shape, found, has⟩ := Option.bind_eq_some_iff.mp h
      rw [shape?_reshape] at found
      split at found
      · obtain ⟨_, _, rfl⟩ := Option.map_eq_some_iff.mp found
        cases has
      · exact Option.bind_eq_some_iff.mpr ⟨shape, found, has⟩
    have issued := wf.element other element old
    rw [keeps.size issued]
    exact issued

/-- Of all types only one has no values. -/
theorem WellFormed.size_ne_zero (wf : t.WellFormed) (known : t.shape? id = some shape)
    (some_ : id ≠ .void) : t.size id ≠ 0 := by
  rw [size_of_shape? known]
  cases shape with
  | primitive p =>
    cases p with
    | void => exact absurd (wf.primitive_only id .void known) some_
    | _ => decide
  | array _ | object _ => simp [Shape.size, referenceSize]

/-! ## The operations -/

theorem layFields_cons_eq_ok_iff {d : FieldDef} {rest : List FieldDef} :
    t.layFields owner offset taken (d :: rest) = .ok fields ↔
      t.size d.type ≠ 0 ∧ d.name ∉ taken ∧ ∃ others,
        t.layFields owner (offset + t.size d.type) (d.name :: taken) rest = .ok others ∧
          ⟨d, offset, t.size d.type, t.isReference d.type⟩ :: others = fields := by
  simp only [layFields]
  by_cases empty : t.size d.type = 0
  · simp [empty]
  · by_cases again : d.name ∈ taken
    · simp [empty, again]
    · rw [if_neg empty, if_neg (by simpa using again), except_bind_eq_ok_iff]
      simp [empty, again, pure, Except.pure]

/-- The laid out fields are packed and fit their types. -/
theorem layFields_spec (laid : t.layFields owner offset taken defs = .ok fields) :
    Packed offset fields ∧ ∀ f ∈ fields, t.FieldFits f := by
  induction defs generalizing offset taken fields with
  | nil =>
    cases laid
    exact ⟨trivial, fun f mem => by cases mem⟩
  | cons d rest ih =>
    obtain ⟨nonempty, _, others, later, rfl⟩ := layFields_cons_eq_ok_iff.mp laid
    obtain ⟨packed, fits⟩ := ih later
    exact ⟨⟨rfl, packed⟩, List.forall_mem_cons.mpr ⟨⟨rfl, rfl, nonempty⟩, fits⟩⟩

theorem layoutFor_eq_ok_iff : t.layoutFor id defs = .ok layout ↔
    t.shape? id = some (.object none) ∧ t.resolveAll (defs.map FieldDef.type) = .ok () ∧
      t.layFields (t.name id) 0 [] defs = .ok layout.fields := by
  unfold layoutFor resolve
  cases t.shape? id with
  | none => simp [bind, Except.bind]
  | some shape =>
    cases shape with
    | primitive p | array e => simp [bind, Except.bind, throw, throwThe, MonadExceptOf.throw]
    | object l =>
      cases l with
      | some l => simp [bind, Except.bind, throw, throwThe, MonadExceptOf.throw]
      | none =>
        show (t.resolveAll _ >>= fun _ => t.layFields (t.name id) 0 [] defs >>= fun fields =>
          pure (Layout.mk fields)) = .ok layout ↔ _
        rw [except_bind_eq_ok_iff]
        simp only [except_bind_eq_ok_iff, pure, Except.pure, Except.ok.injEq, true_and]
        constructor
        · rintro ⟨_, all, fields, laid, rfl⟩
          exact ⟨all, laid⟩
        · rintro ⟨all, laid⟩
          exact ⟨(), all, _, laid, rfl⟩

/-- A layout is given only to a class that has none. -/
theorem layoutFor_spec (laid : t.layoutFor id defs = .ok layout) :
    t.shape? id = some (.object none) ∧ Packed 0 layout.fields ∧ ∀ f ∈ layout.fields, t.FieldFits f := by
  obtain ⟨undefined, _, laid⟩ := layoutFor_eq_ok_iff.mp laid
  exact ⟨undefined, layFields_spec laid⟩

/-! ## Operations -/

theorem arrayOf_cases (t : TypeTable) (element : TypeId) :
    (∃ e, arrayOf element t = .error e t ∧ (element = .void ∨ t.shape? element = none)) ∨
      (element ≠ .void ∧ ∃ shape, t.shape? element = some shape) ∧
        ((∃ id, t.lookup (t.arrayName element) = some id ∧ arrayOf element t = .ok id t) ∨
          t.lookup (t.arrayName element) = none ∧
            arrayOf element t = .ok t.nextId (t.push (t.arrayName element) (.array element))) := by
  unfold arrayOf resolve
  by_cases void : element = .void
  · exact .inl ⟨_, if_pos void, .inl void⟩
  · rw [if_neg void]
    cases t.shape? element with
    | none => exact .inl ⟨_, rfl, .inr rfl⟩
    | some shape =>
      refine .inr ⟨⟨void, shape, rfl⟩, ?_⟩
      dsimp only
      cases t.lookup (t.arrayName element) with
      | some id => exact .inl ⟨id, rfl, rfl⟩
      | none => exact .inr ⟨rfl, rfl⟩

theorem declareClass_cases (t : TypeTable) (name : String) :
    (∃ e, declareClass name t = .error e t) ∨
      t.lookup name = none ∧ declareClass name t = .ok t.nextId (t.push name (.object none)) := by
  unfold declareClass
  cases t.lookup name with
  | some id => exact .inl ⟨_, rfl⟩
  | none => exact .inr ⟨rfl, rfl⟩

theorem defineClass_cases (t : TypeTable) (id : TypeId) (fields : List FieldDef) :
    (∃ e, defineClass id fields t = .error e t) ∨
      ∃ layout, t.layoutFor id fields = .ok layout ∧
        defineClass id fields t = .ok () (t.reshape id (.object (some layout))) := by
  unfold defineClass
  cases t.layoutFor id fields with
  | ok layout => exact .inr ⟨layout, rfl, rfl⟩
  | error e => exact .inl ⟨e, rfl⟩

/-- A class that was declared stays when its definition fails. -/
theorem createClass_cases (t : TypeTable) (name : String) (fields : List FieldDef) :
    (∃ e, createClass name fields t = .error e t) ∨ t.lookup name = none ∧
      ((∃ e, defineClass t.nextId fields (t.push name (.object none))
            = .error e (t.push name (.object none)) ∧
          createClass name fields t = .error e (t.push name (.object none))) ∨
        ∃ layout, (t.push name (.object none)).layoutFor t.nextId fields = .ok layout ∧
          createClass name fields t = .ok t.nextId
            ((t.push name (.object none)).reshape t.nextId (.object (some layout)))) := by
  rcases t.declareClass_cases name with ⟨e, failed⟩ | ⟨unused, declared⟩
  · exact .inl ⟨e, bind_of_error failed⟩
  · have first : createClass name fields t = (do
        defineClass t.nextId fields
        return t.nextId : EStateM TypeError TypeTable TypeId) (t.push name (.object none)) :=
      bind_of_ok declared
    refine .inr ⟨unused, ?_⟩
    rcases (t.push name (.object none)).defineClass_cases t.nextId fields with
      ⟨e, failed⟩ | ⟨layout, laid, defined⟩
    · exact .inl ⟨e, failed, first.trans (bind_of_error failed)⟩
    · exact .inr ⟨layout, laid, first.trans (bind_of_ok defined)⟩

/-- What operations do to a table, whether they succeed or not. -/
inductive Changes : TypeTable → TypeTable → Prop where
  | refl (t : TypeTable) : Changes t t
  | trans {t u v : TypeTable} (first : Changes t u) (second : Changes u v) : Changes t v
  | array {t : TypeTable} {element : TypeId} {shape : Shape} (some_ : element ≠ .void)
      (known : t.shape? element = some shape) :
      Changes t (t.push (t.arrayName element) (.array element))
  | declare (t : TypeTable) (name : String) : Changes t (t.push name (.object none))
  | define {t : TypeTable} {id : TypeId} {fields : List FieldDef} {layout : Layout}
      (laid : t.layoutFor id fields = .ok layout) :
      Changes t (t.reshape id (.object (some layout)))

theorem Command.changes (t : TypeTable) (c : Command) : Changes t (c.run t) := by
  cases c with
  | arrayOf element =>
    rcases t.arrayOf_cases element with
      ⟨e, run, _⟩ | ⟨⟨some_, _, known⟩, ⟨id, _, run⟩ | ⟨_, run⟩⟩ <;> rw [Command.run, run]
    · exact .refl t
    · exact .refl t
    · exact .array some_ known
  | declareClass name =>
    rcases t.declareClass_cases name with ⟨e, run⟩ | ⟨_, run⟩ <;> rw [Command.run, run]
    · exact .refl t
    · exact .declare t name
  | defineClass id fields =>
    rcases t.defineClass_cases id fields with ⟨e, run⟩ | ⟨layout, laid, run⟩ <;>
      rw [Command.run, run]
    · exact .refl t
    · exact .define laid
  | createClass name fields =>
    rcases t.createClass_cases name fields with
      ⟨e, run⟩ | ⟨_, ⟨e, _, run⟩ | ⟨layout, laid, run⟩⟩ <;> rw [Command.run, run]
    · exact .refl t
    · exact .declare t name
    · exact .trans (.declare t name) (.define laid)

theorem Changes.wellFormed (changes : Changes t u) (wf : t.WellFormed) : u.WellFormed := by
  induction changes with
  | refl => exact wf
  | trans _ _ first second => exact second (first wf)
  | @array t element shape some_ known =>
    refine wf.push _ rfl rfl ?_
    intro e same
    cases same
    exact wf.size_ne_zero known some_
  | declare t name => exact wf.push name rfl rfl fun element h => by cases h
  | define laid =>
    obtain ⟨undefined, packed, fits⟩ := layoutFor_spec laid
    exact wf.reshape undefined packed fits

theorem Changes.grows (changes : Changes t u) : t.Grows u := by
  induction changes with
  | refl t => exact .refl t
  | trans _ _ first second => exact first.trans second
  | array => exact grows_push _ _ _
  | declare t name => exact grows_push t name _
  | define laid => exact grows_reshape _ (layoutFor_spec laid).1

/-- An operation takes no type away and changes none, but that it may give a class its layout. -/
theorem Command.grows (t : TypeTable) (c : Command) : t.Grows (c.run t) := (c.changes t).grows

/-- Whatever operations were called, the table is well-formed. -/
theorem Built.wellFormed (built : Built t) : t.WellFormed := by
  induction built with
  | primitives => exact wellFormed_primitives
  | run c _ ih => exact (c.changes _).wellFormed ih

end TypeTable

end TypeSystem

end ManagedCode
