import ObjectDocument.Deriving

/-!
# Declaring items in a catalogue

A type is spelled by its short name, and a sequence, option or box by the type inside it. A
catalogue grows by items, whose fields are typed by their spelling; the names of declared types
have a common qualifier in front of them.
-/

namespace ObjectDocument

def Ty.spelled : List (String × Ty) :=
  [("()", .unit), ("i8", .atom (.integer .i8)), ("i16", .atom (.integer .i16)),
    ("i32", .atom (.integer .i32)), ("i64", .atom (.integer .i64)),
    ("isize", .atom (.integer .isize)), ("u8", .atom (.integer .u8)),
    ("u16", .atom (.integer .u16)), ("u32", .atom (.integer .u32)),
    ("u64", .atom (.integer .u64)), ("usize", .atom (.integer .usize)),
    ("f32", .atom .float32), ("f64", .atom .float64), ("bool", .atom .bool),
    ("char", .atom .char), ("String", .atom .text), ("Binary", .atom .bytes),
    ("DocumentId", .atom .id), ("DateTime<Utc>", .atom .timestamp), ("Document", .document)]

def Ty.spelling : Ty → String
  | .seq t => "Vec<" ++ t.spelling ++ ">"
  | .option t => "Option<" ++ t.spelling ++ ">"
  | .box t => "Box<" ++ t.spelling ++ ">"
  | .named name => baseName name
  | t => ((Ty.spelled.find? fun s => s.2 == t).map Prod.fst).getD t.name

def inside? (opening s : List Char) : Option (List Char) :=
  if opening.isPrefixOf s ∧ s.getLast? = some '>' then some (s.drop opening.length).dropLast
  else none

def Ty.ofChars (qualifier : String) : (fuel : Nat) → List Char → Ty
  | 0, s => .named (qualifier ++ String.ofList s)
  | fuel + 1, s =>
    match Ty.spelled.lookup (String.ofList s) with
    | some t => t
    | none =>
      match inside? "Vec<".toList s, inside? "Option<".toList s, inside? "Box<".toList s with
      | some inner, _, _ => .seq (ofChars qualifier fuel inner)
      | _, some inner, _ => .option (ofChars qualifier fuel inner)
      | _, _, some inner => .box (ofChars qualifier fuel inner)
      | none, none, none => .named (qualifier ++ String.ofList s)

def Ty.ofText (qualifier s : String) : Ty := Ty.ofChars qualifier s.length s.toList

namespace Catalogue

def add (Γ : Catalogue) (name : String) (d : Declaration) : Catalogue :=
  { Γ with declarations := Γ.declarations ++ [(name, d)] }

/-- Declares an entity. A field starts from what is given for it, or else from what its type starts
from; a type declared later than this one starts from nothing. -/
def addEntity (Γ : Catalogue) (qualifier name : String) (item : Deriving.Item)
    (defaults : List (String × Datum)) : Except Deriving.Fault Catalogue := do
  let plan ← Deriving.entity item
  let ty (f : Deriving.FieldPlan) : Ty :=
    match item.members.find? fun member => member.name == f.ident with
    | some member => .ofText qualifier member.typeName
    | none => .unit
  let default (f : Deriving.FieldPlan) : Datum :=
    ((defaults.lookup f.ident).or (Γ.default? (ty f))).getD .unit
  pure (Γ.add (qualifier ++ name) (.entity (plan.declare ty default)))

def addEnum (Γ : Catalogue) (qualifier name : String) (item : Deriving.Item) :
    Except Deriving.Fault Catalogue := do
  pure (Γ.add (qualifier ++ name) (.enum (← Deriving.valueEnum item)))

end Catalogue

end ObjectDocument
