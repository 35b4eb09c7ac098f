import ObjectDocument.Catalogue
import ObjectDocument.Deriving.Literal

/-!
# Declaring entities and value enums by their items

An item is a struct or an enum with the attributes on its members. `entity` and `valueEnum` say
which items declare an entity or a value enum, and what they declare. Of several faults the first in
the order of the text is told.
-/

namespace ObjectDocument.Deriving

/-! ## Items -/

inductive ItemKind
  | namedStruct
  | tupleStruct
  | unitStruct
  | enum
  | union
  deriving DecidableEq, Repr

inductive Piece
  | name (path : String)
  | equals
  | comma
  | literal (value : Literal)
  | other
  deriving DecidableEq, Repr

/-- What an attribute lists between two commas; a comma after it is the last piece of `rest`. -/
structure Word where
  first : Piece
  rest : List Piece
  deriving DecidableEq, Repr

def Piece.words : List Piece → List Word
  | [] => []
  | .comma :: pieces => ⟨.comma, []⟩ :: words pieces
  | p :: pieces =>
    match words pieces with
    | [] => [⟨p, []⟩]
    | w :: ws => ⟨p, w.first :: w.rest⟩ :: ws

/-- An attribute is a path alone, a path with `=` and a value, or a path with a list in brackets. -/
inductive Arguments
  | none
  | value
  | list (pieces : List Piece)
  deriving DecidableEq, Repr

structure Attribute where
  path : String
  arguments : Arguments
  deriving DecidableEq, Repr

inductive Shape
  | unit
  | tuple (arity : Nat)
  | named (arity : Nat)
  deriving DecidableEq, Repr

def Shape.arity : Shape → Nat
  | .unit => 0
  | .tuple arity | .named arity => arity

/-- A field of a struct, which has a type, or a variant of an enum, which has a shape. -/
structure Member where
  name : String
  typeName : String
  shape : Shape
  attributes : List Attribute
  deriving DecidableEq, Repr

structure Item where
  kind : ItemKind
  isGeneric : Bool
  members : List Member
  deriving DecidableEq, Repr

inductive Fault
  | genericStruct
  | notStruct
  | unnamedFields
  | genericEnum
  | notEnum
  | variantWithFields
  | listMissing (path : String)
  | valueForList (path : String)
  | literalForWord
  | tokenForWord
  | equalsExpected
  | stringExpected
  | stringMissing
  | commaExpected
  | unknownFieldWord
  | unknownVariantWord
  | skipCombined
  | duplicateKey (key : String)
  | duplicateVariant (name : String)
  deriving DecidableEq, Repr

def Fault.text : Fault → String
  | .genericStruct => "Entity does not support generic structs"
  | .notStruct => "Entity only supports structs"
  | .unnamedFields => "Entity only supports structs with named fields"
  | .genericEnum => "ValueEnum does not support generic enums"
  | .notEnum => "ValueEnum only supports enums"
  | .variantWithFields => "ValueEnum only supports fieldless variants"
  | .listMissing path => "expected attribute arguments in parentheses: #[" ++ path ++ "(...)]"
  | .valueForList path => "expected parentheses: #[" ++ path ++ "(...)]"
  | .literalForWord => "unexpected literal in nested attribute, expected ident"
  | .tokenForWord => "unexpected token in nested attribute, expected ident"
  | .equalsExpected => "expected `=`"
  | .stringExpected => "expected string literal"
  | .stringMissing => "unexpected end of input, expected string literal"
  | .commaExpected => "expected `,`"
  | .unknownFieldWord => "expected `rename`, `required` or `skip`"
  | .unknownVariantWord => "expected `rename`"
  | .skipCombined => "`skip` cannot be combined with `rename` or `required`"
  | .duplicateKey key => "duplicate document key '" ++ key ++ "'"
  | .duplicateVariant name => "duplicate variant name '" ++ name ++ "'"

/-! ## Attributes -/

structure Marks where
  rename : Option String
  required : Bool
  skip : Bool
  deriving DecidableEq, Repr

def Marks.none : Marks := ⟨Option.none, false, false⟩

namespace Word

def name (w : Word) : Except Fault String :=
  match w.first with
  | .name path => .ok path
  | .literal _ => .error .literalForWord
  | _ => .error .tokenForWord

def close : List Piece → Except Fault Unit
  | [] | [.comma] => .ok ()
  | _ => .error .commaExpected

def string : List Piece → Except Fault String
  | .equals :: .literal (.string s) :: rest => (close rest).map fun _ => s
  | [.equals] => .error .stringMissing
  | .equals :: _ => .error .stringExpected
  | _ => .error .equalsExpected

end Word

def Marks.addFieldWord (marks : Marks) (w : Word) : Except Fault Marks := do
  let name ← w.name
  if name = "rename" then (Word.string w.rest).map fun s => { marks with rename := some s }
  else if name = "required" then (Word.close w.rest).map fun _ => { marks with required := true }
  else if name = "skip" then (Word.close w.rest).map fun _ => { marks with skip := true }
  else .error .unknownFieldWord

def Marks.addVariantWord (marks : Marks) (w : Word) : Except Fault Marks := do
  let name ← w.name
  if name = "rename" then (Word.string w.rest).map fun s => { marks with rename := some s }
  else .error .unknownVariantWord

/-- Marks a member by one of its attributes, which has to be a list. -/
def Marks.addAttribute (add : Marks → Word → Except Fault Marks) (marks : Marks) (a : Attribute) :
    Except Fault Marks :=
  match a.arguments with
  | .none => .error (.listMissing a.path)
  | .value => .error (.valueForList a.path)
  | .list pieces => (Piece.words pieces).foldlM add marks

def Member.marked (path : String) (member : Member) : List Attribute :=
  member.attributes.filter (·.path == path)

def Member.marks (path : String) (add : Marks → Word → Except Fault Marks) (member : Member) :
    Except Fault Marks :=
  (member.marked path).foldlM (Marks.addAttribute add) Marks.none

theorem nodup_concat {names : List String} {name : String} (h : names.Nodup) (hnew : name ∉ names) :
    (names ++ [name]).Nodup := by
  refine List.nodup_append.2 ⟨h, List.Pairwise.cons (by simp) .nil, ?_⟩
  rintro a ha _ hb rfl
  exact hnew (List.mem_singleton.1 hb ▸ ha)

/-! ## Entities -/

structure FieldPlan where
  ident : String
  mapping : Option FieldSpec
  deriving DecidableEq, Repr

def FieldPlan.key? (f : FieldPlan) : Option String := f.mapping.map FieldSpec.name

/-- The fields of a derived entity in order. No two mapped fields have the same key. -/
structure EntityPlan where
  fields : List FieldPlan
  keys_nodup : (fields.filterMap FieldPlan.key?).Nodup

namespace EntityPlan

def empty : EntityPlan := ⟨[], by simp⟩

def keys (p : EntityPlan) : List String := p.fields.filterMap FieldPlan.key?

def specs (p : EntityPlan) : List FieldSpec := p.fields.filterMap FieldPlan.mapping

def addSkipped (p : EntityPlan) (ident : String) : EntityPlan :=
  ⟨p.fields ++ [⟨ident, none⟩], by
    rw [List.filterMap_append, List.filterMap_cons_none rfl, List.filterMap_nil, List.append_nil]
    exact p.keys_nodup⟩

def addMapped (p : EntityPlan) (ident : String) (info : FieldSpec) : Except Fault EntityPlan :=
  if h : info.name ∈ p.keys then .error (.duplicateKey info.name)
  else .ok ⟨p.fields ++ [⟨ident, some info⟩], by
    rw [List.filterMap_append]
    exact nodup_concat p.keys_nodup h⟩

def addMember (p : EntityPlan) (member : Member) : Except Fault EntityPlan := do
  let marks ← member.marks "entity" Marks.addFieldWord
  if marks.skip then
    if marks.required ∨ marks.rename.isSome then .error .skipCombined
    else .ok (p.addSkipped member.name)
  else
    p.addMapped member.name
      ⟨marks.rename.getD member.name, member.typeName, marks.required⟩

def declare (p : EntityPlan) (ty : FieldPlan → Ty) (default : FieldPlan → Datum) : EntityDecl :=
  ⟨p.fields.map fun f => ⟨f.ident, ty f, f.mapping, default f⟩, by
    rw [List.filterMap_map]
    exact p.keys_nodup⟩

end EntityPlan

def entity (item : Item) : Except Fault EntityPlan :=
  if item.isGeneric then .error .genericStruct
  else match item.kind with
    | .namedStruct => item.members.foldlM EntityPlan.addMember .empty
    | .tupleStruct | .unitStruct => .error .unnamedFields
    | .enum | .union => .error .notStruct

/-! ## Value enums -/

def addVariant (d : EnumDecl) (member : Member) : Except Fault EnumDecl :=
  if member.shape = .unit then do
    let marks ← member.marks "value" Marks.addVariantWord
    let name := marks.rename.getD member.name
    if h : name ∈ d.variants.map Prod.snd then .error (.duplicateVariant name)
    else .ok ⟨d.variants ++ [(member.name, name)], by
      rw [List.map_append]
      exact nodup_concat d.names_nodup h⟩
  else .error .variantWithFields

def valueEnum (item : Item) : Except Fault EnumDecl :=
  if item.isGeneric then .error .genericEnum
  else match item.kind with
    | .enum => item.members.foldlM addVariant ⟨[], by simp⟩
    | _ => .error .notEnum

end ObjectDocument.Deriving
