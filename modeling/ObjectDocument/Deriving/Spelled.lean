import ObjectDocument.Deriving
import ObjectDocument.Deriving.TypeName

/-!
# Spelled items

An item is given by the texts of its parts. Layout and comments in them do not matter.
-/

namespace ObjectDocument.Deriving

def nameOf (spelling : String) : String := Token.plain (Token.ofText spelling)

def Piece.spelled (name : String) (value : Option String) : List Piece :=
  .name (nameOf name) ::
    match value with
    | some text => [.equals, .literal (.ofText text)]
    | none => []

def Attribute.spelled (path : String) (words : List (List Piece)) : Attribute :=
  ⟨nameOf path, .list ([Piece.comma].intercalate words)⟩

def Member.spelled (name type : String) (shape : Shape) (attributes : List Attribute) : Member :=
  ⟨nameOf name, typeNameOf type, shape, attributes⟩

def Item.spelled (kind : ItemKind) (generics : String) (members : List Member) : Item :=
  ⟨kind, hasParameters generics, members⟩

end ObjectDocument.Deriving
