import ObjectDocument.Value

/-!
# Types and atoms

`Ty` identifies a type: two types are the same exactly when their `Ty` are equal. Sequences,
options and boxes are built from other types; entities, value enums and types declared by hand are
known by name. An `Atom` is a value of one of the built-in scalar types; each scalar type says
which document values it reads.
-/

namespace ObjectDocument

inductive AtomType
  | bool
  | char
  | integer (t : IntType)
  | float32
  | float64
  | text
  | bytes
  | id
  | timestamp
  deriving DecidableEq, Repr

inductive Ty
  | unit
  | atom (a : AtomType)
  | document
  | seq (item : Ty)
  | option (item : Ty)
  | box (item : Ty)
  | named (name : String)
  /-- The marker type that every value enum may stand in for. It has no values. -/
  | anyEnum
  deriving DecidableEq, Repr, Inhabited

def AtomType.name : AtomType → String
  | .bool => "bool"
  | .char => "char"
  | .integer t => t.name
  | .float32 => "f32"
  | .float64 => "f64"
  | .text => "alloc::string::String"
  | .bytes => "docmap_api::value::Binary"
  | .id => "docmap_api::value::DocumentId"
  | .timestamp => "chrono::datetime::DateTime<chrono::offset::utc::Utc>"

def Ty.name : Ty → String
  | .unit => "()"
  | .atom a => a.name
  | .document => "docmap_api::document::Document"
  | .seq item => "alloc::vec::Vec<" ++ item.name ++ ">"
  | .option item => "core::option::Option<" ++ item.name ++ ">"
  | .box item => "alloc::boxed::Box<" ++ item.name ++ ">"
  | .named name => name
  | .anyEnum => "docmap_api::types::AnyEnum"

def baseName (name : String) : String := (name.splitOn "::").getLastD name

inductive Atom
  | bool (b : Bool)
  | char (c : Char)
  | integer {t : IntType} (n : Integer t)
  | float32 (x : Binary32)
  | float64 (x : Binary64)
  | text (s : String)
  | bytes (bs : List UInt8)
  | id (i : DocumentId)
  | timestamp (t : Timestamp)
  deriving DecidableEq

namespace Atom

def type : Atom → AtomType
  | .bool _ => .bool
  | .char _ => .char
  | .integer (t := t) _ => .integer t
  | .float32 _ => .float32
  | .float64 _ => .float64
  | .text _ => .text
  | .bytes _ => .bytes
  | .id _ => .id
  | .timestamp _ => .timestamp

def toValue : Atom → Value
  | .bool b => .bool b
  | .char c => .char c
  | .integer n => .ofInteger n
  | .float32 x => .float32 x
  | .float64 x => .float64 x
  | .text s => .string s
  | .bytes bs => .bytes bs
  | .id i => .id i
  | .timestamp t => .timestamp t

end Atom

namespace AtomType

/-- The atom that a document value stands for at a scalar type. Integers are read in either
signedness when they are in range, and floating-point numbers in either width when they are
exactly representable; nothing else is converted. -/
def ofValue? (nan : WideNaN) : AtomType → Value → Option Atom
  | .bool, .bool b => some (.bool b)
  | .char, .char c => some (.char c)
  | .integer t, .int64 n => (Integer.ofInt? t n.val).map .integer
  | .integer t, .uint64 n => (Integer.ofInt? t n.val).map .integer
  | .float32, .float32 x => some (.float32 x)
  | .float32, .float64 x => (x.narrow? nan).map .float32
  | .float64, v => (v.asFloat64? nan).map .float64
  | .text, .string s => some (.text s)
  | .bytes, .bytes bs => some (.bytes bs)
  | .id, .id i => some (.id i)
  | .timestamp, .timestamp t => some (.timestamp t)
  | _, _ => none

def default : AtomType → Atom
  | .bool => .bool false
  | .char => .char '\x00'
  | .integer t => .integer (Integer.zero t)
  | .float32 => .float32 (.ofBits 0)
  | .float64 => .float64 (.ofBits 0)
  | .text => .text ""
  | .bytes => .bytes []
  | .id => .id ⟨Integer.zero .u64⟩
  | .timestamp => .timestamp Timestamp.epoch

end AtomType

end ObjectDocument
