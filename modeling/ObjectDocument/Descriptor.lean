import ObjectDocument.Datum

/-!
# Descriptors

A `Descriptor` is what the mapper is told of a type: its identity, its name, its kind and the
types it declares it may stand in for. Descriptors are the same when their identities are.
-/

namespace ObjectDocument

structure FieldSpec where
  name : String
  typeName : String
  required : Bool
  deriving DecidableEq, Repr

/-- The mapped fields of an entity in the order of their declaration, and the instance from which
reading starts. -/
structure Schema where
  fields : List FieldSpec
  start : Datum

def Schema.field? (s : Schema) (name : String) : Option FieldSpec :=
  s.fields.find? (·.name == name)

inductive Primitive
  | bool
  | char
  | integer (t : IntType)
  | float32
  | float64
  deriving DecidableEq, Repr

def Primitive.label : Primitive → String
  | .bool => "Bool"
  | .char => "Char"
  | .integer t => t.name.capitalize
  | .float32 => "F32"
  | .float64 => "F64"

inductive Kind
  | unit
  | primitive (k : Primitive)
  | text
  | bytes
  | enum
  | id
  | timestamp
  | document
  | sequence
  | optional
  | entity (schema : Schema)
  | unstructured

def Kind.label : Kind → String
  | .unit => "Unit"
  | .primitive k => "Primitive(" ++ k.label ++ ")"
  | .text => "Text"
  | .bytes => "Bytes"
  | .enum => "Enum"
  | .id => "Id"
  | .timestamp => "Timestamp"
  | .document => "Document"
  | .sequence => "Sequence"
  | .optional => "Optional"
  | .entity _ => "Entity"
  | .unstructured => "Opaque"

structure Descriptor where
  id : Ty
  name : String
  kind : Kind
  /-- The types this one may stand in for, each once. -/
  supertypes : List Ty

namespace Descriptor

def of (t : Ty) (kind : Kind) : Descriptor := ⟨t, t.name, kind, []⟩

def standingInFor (d : Descriptor) (t : Ty) : Descriptor :=
  if t ∈ d.supertypes then d else { d with supertypes := d.supertypes ++ [t] }

def isDocument (d : Descriptor) : Bool := d.kind matches .document

def schema? (d : Descriptor) : Option Schema :=
  match d.kind with
  | .entity schema => some schema
  | _ => none

def same (d e : Descriptor) : Bool := d.id == e.id

def relatedTo (d e : Descriptor) : Bool :=
  d.id == e.id || d.supertypes.contains e.id || e.supertypes.contains d.id

end Descriptor

def AtomType.kind : AtomType → Kind
  | .bool => .primitive .bool
  | .char => .primitive .char
  | .integer t => .primitive (.integer t)
  | .float32 => .primitive .float32
  | .float64 => .primitive .float64
  | .text => .text
  | .bytes => .bytes
  | .id => .id
  | .timestamp => .timestamp

end ObjectDocument
