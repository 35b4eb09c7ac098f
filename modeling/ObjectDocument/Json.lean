/-!
# JSON as trees

Numbers are kept as they are spelled. Objects keep their members in order and may repeat a name.
-/

namespace ObjectDocument

inductive Json where
  | null
  | bool (b : Bool)
  | number (spelling : String)
  | string (s : String)
  | array (items : List Json)
  | object (members : List (String × Json))

structure Codec (α : Type) where
  write : α → Json
  read : Json → Option α

def Codec.Returns {α : Type} (c : Codec α) (a : α) : Prop := c.read (c.write a) = some a

instance {α : Type} [DecidableEq α] (c : Codec α) (a : α) : Decidable (c.Returns a) :=
  inferInstanceAs (Decidable (_ = _))

end ObjectDocument
