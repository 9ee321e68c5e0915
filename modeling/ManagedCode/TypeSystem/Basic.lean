/-!
# Types

The vocabulary of types: identifiers, primitive types, classes with their laid-out fields, and
arrays. A type table (`ManagedCode.TypeSystem.Table`) issues the identifiers.
-/

namespace ManagedCode.TypeSystem

/-- The number of a type. Zero is never issued, so that an object header with type zero can
stand for a dead object. -/
structure TypeId where
  raw : UInt32
  ne_zero : raw ≠ 0
  deriving DecidableEq

namespace TypeId

def ofRaw? (raw : UInt32) : Option TypeId :=
  if h : raw = 0 then none else some ⟨raw, h⟩

/-- Where the type stands in order of creation, from zero. -/
def index (t : TypeId) : Nat := t.raw.toNat - 1

/-- The type created when `index` others existed. Numbers end at the largest word. -/
def ofIndex (index : Nat) : TypeId :=
  if h : UInt32.ofNat index + 1 = 0 then ⟨0xFFFFFFFF, by decide⟩ else ⟨UInt32.ofNat index + 1, h⟩

def int : TypeId := ⟨1, by decide⟩
def float : TypeId := ⟨2, by decide⟩
def bool : TypeId := ⟨3, by decide⟩
def void : TypeId := ⟨4, by decide⟩

instance : Inhabited TypeId := ⟨int⟩

end TypeId

/-- The types that are not references. -/
inductive Primitive where
  | int
  | float
  | bool
  | void
  deriving DecidableEq, Repr

namespace Primitive

def name : Primitive → String
  | int => "Int"
  | float => "Float"
  | bool => "Bool"
  | void => "Void"

/-- Bytes of a value at rest. -/
def size : Primitive → Nat
  | int => 4
  | float => 4
  | bool => 1
  | void => 0

end Primitive

/-- Bytes of a reference at rest. -/
def referenceSize : Nat := 8

inductive Access where
  | everyone
  | ownerOnly
  deriving DecidableEq, Repr

def Access.text : Access → String
  | everyone => "Public"
  | ownerOnly => "Private"

/-- A field as declared. -/
structure FieldDef where
  name : String
  type : TypeId
  access : Access

/-- A field with its place in the object. -/
structure Field extends FieldDef where
  offset : Nat
  size : Nat
  reference : Bool

/-- The fields of a class in order of declaration. -/
structure Layout where
  fields : List Field

namespace Layout

def size (l : Layout) : Nat :=
  l.fields.foldr (fun field total => field.size + total) 0

def index? (l : Layout) (name : String) : Option Nat :=
  l.fields.findIdx? (·.name == name)

def field? (l : Layout) (name : String) : Option Field :=
  l.fields.find? (·.name == name)

def references (l : Layout) : List Field :=
  l.fields.filter Field.reference

end Layout

/-- What a type is. A class has no layout until it is defined. -/
inductive Shape where
  | primitive (p : Primitive)
  | array (element : TypeId)
  | object (layout : Option Layout)

namespace Shape

def isReference : Shape → Bool
  | primitive _ => false
  | array _ => true
  | object _ => true

def size : Shape → Nat
  | primitive p => p.size
  | array _ => referenceSize
  | object _ => referenceSize

def element? : Shape → Option TypeId
  | array element => some element
  | _ => none

def layout? : Shape → Option Layout
  | object layout => layout
  | _ => none

end Shape

inductive TypeError where
  | duplicateType (name : String)
  | notAClass (name : String)
  | classAlreadyDefined (name : String)
  | voidField (owner field : String)
  | duplicateField (owner field : String)
  | voidArrayElement
  | unknownType (raw : UInt32)
  deriving DecidableEq, Repr

namespace TypeError

def kind : TypeError → String
  | duplicateType _ => "DuplicateType"
  | notAClass _ => "NotAClass"
  | classAlreadyDefined _ => "ClassAlreadyDefined"
  | voidField .. => "VoidField"
  | duplicateField .. => "DuplicateField"
  | voidArrayElement => "VoidArrayElement"
  | unknownType _ => "UnknownType"

def message : TypeError → String
  | duplicateType name => s!"type '{name}' is already declared"
  | notAClass name => s!"type '{name}' is not a class"
  | classAlreadyDefined name => s!"class '{name}' already has a field layout"
  | voidField owner field => s!"field '{owner}.{field}' cannot have type Void"
  | duplicateField owner field => s!"field '{owner}.{field}' is declared twice"
  | voidArrayElement => "arrays of Void are not allowed"
  | unknownType raw => s!"type id #{raw} was not issued by this provider"

end TypeError

end ManagedCode.TypeSystem
