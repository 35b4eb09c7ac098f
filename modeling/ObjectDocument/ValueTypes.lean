import ObjectDocument.Descriptor

/-!
# Value types

A value type is atomic: it is stored as one document value and never taken apart. Which types are
value types is a set, fixed when it is made.
-/

namespace ObjectDocument

structure ValueTypes where
  members : List Ty

namespace ValueTypes

def builtin : List Ty :=
  [.atom .bool, .atom .char,
    .atom (.integer .i8), .atom (.integer .i16), .atom (.integer .i32), .atom (.integer .i64),
    .atom (.integer .isize),
    .atom (.integer .u8), .atom (.integer .u16), .atom (.integer .u32), .atom (.integer .u64),
    .atom (.integer .usize),
    .atom .float32, .atom .float64, .atom .text, .atom .bytes, .anyEnum, .atom .id,
    .atom .timestamp]

def extended (more : List Ty) : ValueTypes :=
  ⟨more.foldl (fun members t => if t ∈ members then members else members ++ [t]) builtin⟩

def contains (types : ValueTypes) (t : Ty) : Bool := types.members.contains t

/-- Whether a type is a value type: a number-like one, a member, or one that may stand in for a
member. -/
def covers (types : ValueTypes) (d : Descriptor) : Bool :=
  d.kind matches .primitive _ || types.contains d.id || d.supertypes.any types.contains

def size (types : ValueTypes) : Nat := types.members.length

end ValueTypes

end ObjectDocument
