import ObjectDocument.Dialogue
import ObjectDocument.Document

/-!
# Catalogues of types

A catalogue says what is known of the named types of a host: entities and value enums, which are
given by their fields and variants, and types declared by hand, which say for themselves how they
look. From it follow the descriptor of every type and all that the mapper may ask of an object.
-/

namespace ObjectDocument

structure FieldDecl where
  ident : String
  ty : Ty
  /-- How the field is mapped; `none` if it is skipped. -/
  mapping : Option FieldSpec
  default : Datum

def FieldDecl.key? (f : FieldDecl) : Option String := f.mapping.map FieldSpec.name

/-- An entity: its fields in order. No two mapped fields have the same key. -/
structure EntityDecl where
  fields : List FieldDecl
  keys_nodup : (fields.filterMap FieldDecl.key?).Nodup

namespace EntityDecl

def specs (d : EntityDecl) : List FieldSpec := d.fields.filterMap FieldDecl.mapping

def start (d : EntityDecl) (name : String) : Datum :=
  .record name (d.fields.map FieldDecl.default)

def schema (d : EntityDecl) (name : String) : Schema := ⟨d.specs, d.start name⟩

def field? (d : EntityDecl) (key : String) : Option FieldDecl :=
  d.fields.find? fun f => f.key? == some key

def getPart (key : String) : List FieldDecl → List Datum → Option Datum
  | f :: fields, x :: parts => if f.key? = some key then some x else getPart key fields parts
  | _, _ => none

def setPart (key : String) (y : Datum) : List FieldDecl → List Datum → List Datum
  | f :: fields, x :: parts =>
    if f.key? = some key then y :: parts else x :: setPart key y fields parts
  | _, parts => parts

end EntityDecl

/-- A value enum: its variants in order, each with its name in documents. No name stands for two
variants. -/
structure EnumDecl where
  variants : List (String × String)
  names_nodup : (variants.map Prod.snd).Nodup

namespace EnumDecl

def nameOf? (d : EnumDecl) (variant : String) : Option String := d.variants.lookup variant

def variant? (d : EnumDecl) (name : String) : Option String :=
  (d.variants.find? fun v => v.2 == name).map Prod.fst

end EnumDecl

inductive View
  | null
  | entity
  | sequence
  | document (d : Document)
  | unstructured

inductive Reading
  | never
  | throughMapper
  | direct (read : Value → Dialogue (List Datum))

def Reading.AsksNothing : Reading → Prop
  | .never => True
  | .throughMapper => False
  | .direct read => ∀ v, ∃ result, read v = .done result

/-- A type declared by hand. All its objects answer with the one descriptor; reading it and setting
its fields may ask the mapper. -/
structure HostDecl where
  descriptor : Descriptor
  isNull : List Datum → Bool
  toValue : List Datum → Option Value
  view : List Datum → View
  reading : Reading
  fields : List FieldSpec
  getField : String → List Datum → Option Datum
  setField : String → Value → List Datum → Dialogue (List Datum)
  default : List Datum

def HostDecl.unstructured (name : String) : HostDecl where
  descriptor := .of (.named name) .unstructured
  isNull := fun _ => false
  toValue := fun _ => none
  view := fun _ => .unstructured
  reading := .never
  fields := []
  getField := fun _ _ => none
  setField := fun key _ _ => .fail (.unknownField name key)
  default := []

inductive Declaration
  | entity (d : EntityDecl)
  | enum (d : EnumDecl)
  | host (d : HostDecl)

structure Catalogue where
  declarations : List (String × Declaration)
  wideNaN : WideNaN

namespace Catalogue

variable (Γ : Catalogue)

def find? (name : String) : Option Declaration := Γ.declarations.lookup name

/-! ## Descriptors -/

/-- The descriptor of a type. A box has that of the type inside it. -/
def descriptor : Ty → Descriptor
  | .unit => .of .unit .unit
  | .atom a => .of (.atom a) a.kind
  | .document => .of .document .document
  | .seq item => .of (.seq item) .sequence
  | .option item => .of (.option item) .optional
  | .box item => descriptor item
  | .named name =>
    match Γ.find? name with
    | some (.entity d) => .of (.named name) (.entity (d.schema name))
    | some (.enum _) => (Descriptor.of (.named name) .enum).standingInFor .anyEnum
    | some (.host d) => d.descriptor
    | none => .of (.named name) .unstructured
  | .anyEnum => .of .anyEnum .unstructured

/-- The descriptor of an object. What holds something answers for what it holds. -/
def typeOf : Datum → Descriptor
  | .some inner => typeOf inner
  | .boxed inner => typeOf inner
  | x => Γ.descriptor x.ty

/-! ## Objects -/

def isNull : Datum → Bool
  | .none _ => true
  | .some inner => isNull inner
  | .boxed inner => isNull inner
  | .record name parts =>
    match Γ.find? name with
    | some (.host d) => d.isNull parts
    | _ => false
  | _ => false

def toValue : Datum → Option Value
  | .atom a => some a.toValue
  | .some inner => toValue inner
  | .boxed inner => toValue inner
  | .variant name v =>
    match Γ.find? name with
    | some (.enum d) => (d.nameOf? v).map Value.enum
    | _ => none
  | .record name parts =>
    match Γ.find? name with
    | some (.host d) => d.toValue parts
    | _ => none
  | _ => none

def view : Datum → View
  | .some inner => view inner
  | .boxed inner => view inner
  | .none _ => .null
  | .document d => .document d
  | .seq _ _ => .sequence
  | .record name parts =>
    match Γ.find? name with
    | some (.entity _) => .entity
    | some (.host d) => d.view parts
    | _ => .unstructured
  | _ => .unstructured

def fields : Datum → List FieldSpec
  | .record name _ =>
    match Γ.find? name with
    | some (.entity d) => d.specs
    | some (.host d) => d.fields
    | _ => []
  | _ => []

def getField (key : String) : Datum → Option Datum
  | .record name parts =>
    match Γ.find? name with
    | some (.entity d) => EntityDecl.getPart key d.fields parts
    | some (.host d) => d.getField key parts
    | _ => none
  | _ => none

def default? : Ty → Option Datum
  | .unit => some .unit
  | .atom a => some (.atom a.default)
  | .document => some (.document .empty)
  | .seq item => some (.seq item [])
  | .option item => some (.none item)
  | .box item => (default? item).map .boxed
  | .named name =>
    match Γ.find? name with
    | some (.entity d) => some (d.start name)
    | some (.enum d) => d.variants.head?.map fun v => .variant name v.1
    | some (.host d) => some (.record name d.default)
    | none => none
  | .anyEnum => none

/-! ## Options and boxes are transparent -/

@[simp] theorem typeOf_present (x : Datum) : Γ.typeOf x.present = Γ.typeOf x := by
  induction x using Datum.present.induct <;> simp_all [Datum.present, typeOf]

@[simp] theorem isNull_present (x : Datum) : Γ.isNull x.present = Γ.isNull x := by
  induction x using Datum.present.induct <;> simp_all [Datum.present, isNull]

@[simp] theorem toValue_present (x : Datum) : Γ.toValue x.present = Γ.toValue x := by
  induction x using Datum.present.induct <;> simp_all [Datum.present, toValue]

@[simp] theorem view_present (x : Datum) : Γ.view x.present = Γ.view x := by
  induction x using Datum.present.induct <;> simp_all [Datum.present, view]

end Catalogue

end ObjectDocument
