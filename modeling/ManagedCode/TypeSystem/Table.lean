import ManagedCode.TypeSystem.Basic

/-!
# Type tables

A type table lists the types of a program in order of creation, the four primitive types
first. Types are only added; a class is declared first and given its layout once, so that its
fields can have its own type.

* `TypeTable.lookup` finds a type by its name.
* `TypeTable.arrayOf` gives the array type of an element type, made on first use.
* `TypeTable.declareClass`, `defineClass` and `createClass` make classes.
-/

namespace ManagedCode.TypeSystem

structure TypeEntry where
  name : String
  shape : Shape

/-- The types of a program; the type with number `n` stands at position `n - 1`. -/
structure TypeTable where
  entries : Array TypeEntry

/-- A field of a class as an instruction names it. -/
structure FieldRef where
  owner : TypeId
  index : Nat
  offset : UInt32
  type : TypeId
  deriving DecidableEq

namespace TypeTable

def primitives : TypeTable :=
  ⟨#[.int, .float, .bool, .void].map fun p : Primitive => ⟨p.name, .primitive p⟩⟩

instance : Inhabited TypeTable := ⟨primitives⟩

def entryOf? (t : TypeTable) (id : TypeId) : Option TypeEntry :=
  t.entries[id.index]?

def shape? (t : TypeTable) (id : TypeId) : Option Shape :=
  (t.entryOf? id).map TypeEntry.shape

/-- The name of a type that was never issued. -/
def unresolvedName : String := "<unresolved>"

def name (t : TypeTable) (id : TypeId) : String :=
  ((t.entryOf? id).map TypeEntry.name).getD unresolvedName

/-- Bytes of a value at rest; zero for a type that was never issued. -/
def size (t : TypeTable) (id : TypeId) : Nat :=
  ((t.shape? id).map Shape.size).getD 0

def isReference (t : TypeTable) (id : TypeId) : Bool :=
  ((t.shape? id).map Shape.isReference).getD false

def element? (t : TypeTable) (id : TypeId) : Option TypeId :=
  (t.shape? id).bind Shape.element?

def layout? (t : TypeTable) (id : TypeId) : Option Layout :=
  (t.shape? id).bind Shape.layout?

def lookup (t : TypeTable) (name : String) : Option TypeId :=
  (t.entries.findIdx? (·.name == name)).map TypeId.ofIndex

def fieldRef? (t : TypeTable) (owner : TypeId) (name : String) : Option FieldRef := do
  let layout ← t.layout? owner
  let index ← layout.index? name
  let field ← layout.fields[index]?
  return ⟨owner, index, UInt32.ofNat field.offset, field.type⟩

/-- The shape of a type, or the error that it was never issued. -/
def resolve (t : TypeTable) (id : TypeId) : Except TypeError Shape :=
  match t.shape? id with
  | some shape => .ok shape
  | none => .error (.unknownType id.raw)

/-- Fails on the first of the types that was never issued. -/
def resolveAll (t : TypeTable) (ids : List TypeId) : Except TypeError Unit :=
  ids.forM fun id => discard (t.resolve id)

def push (t : TypeTable) (name : String) (shape : Shape) : TypeTable :=
  ⟨t.entries.push ⟨name, shape⟩⟩

def nextId (t : TypeTable) : TypeId :=
  .ofIndex t.entries.size

/-- Places fields one after the other from `offset` on, without padding. `taken` holds the
names that came before. -/
def layFields (t : TypeTable) (owner : String) :
    Nat → List String → List FieldDef → Except TypeError (List Field)
  | _, _, [] => .ok []
  | offset, taken, d :: rest =>
      let size := t.size d.type
      if size = 0 then .error (.voidField owner d.name)
      else if taken.contains d.name then .error (.duplicateField owner d.name)
      else do
        let fields ← layFields t owner (offset + size) (d.name :: taken) rest
        return { d with offset, size, reference := t.isReference d.type } :: fields

def reshape (t : TypeTable) (id : TypeId) (shape : Shape) : TypeTable :=
  ⟨t.entries.modify id.index ({ · with shape })⟩

def arrayName (t : TypeTable) (element : TypeId) : String :=
  "Array[" ++ t.name element ++ "]"

/-- The array type with the given element type. A type that has its name already is taken for
it. -/
def arrayOf (element : TypeId) : EStateM TypeError TypeTable TypeId := fun t =>
  if element = .void then .error .voidArrayElement t
  else
    match t.resolve element with
    | .error e => .error e t
    | .ok _ =>
        match t.lookup (t.arrayName element) with
        | some id => .ok id t
        | none => .ok t.nextId (t.push (t.arrayName element) (.array element))

/-- A new class without a layout. -/
def declareClass (name : String) : EStateM TypeError TypeTable TypeId := fun t =>
  match t.lookup name with
  | some _ => .error (.duplicateType name) t
  | none => .ok t.nextId (t.push name (.object none))

/-- The layout that a declared class would get. -/
def layoutFor (t : TypeTable) (id : TypeId) (fields : List FieldDef) :
    Except TypeError Layout := do
  match ← t.resolve id with
  | .object none =>
      t.resolveAll (fields.map FieldDef.type)
      return ⟨← t.layFields (t.name id) 0 [] fields⟩
  | .object (some _) => throw (.classAlreadyDefined (t.name id))
  | _ => throw (.notAClass (t.name id))

/-- Gives a declared class its layout, once. -/
def defineClass (id : TypeId) (fields : List FieldDef) : EStateM TypeError TypeTable Unit :=
  fun t =>
    match t.layoutFor id fields with
    | .ok layout => .ok () (t.reshape id (.object (some layout)))
    | .error e => .error e t

/-- Declares a class and then defines it. The declaration stays when the definition fails. -/
def createClass (name : String) (fields : List FieldDef) :
    EStateM TypeError TypeTable TypeId := do
  let id ← declareClass name
  defineClass id fields
  return id

end TypeTable

end ManagedCode.TypeSystem
