import ObjectDocument.Json
import ObjectDocument.Value

/-!
# The stored form of values

A value is stored as an object with one member, named for the kind of value; a null is the name
alone. A document is the list of its entries, each a list of a name and a value, so a document
read back has the entries as they stand, repeated names included. What a number, a text or an
instant looks like is left to the libraries that write and read them.
-/

namespace ObjectDocument

/-- The libraries that write and read scalars. -/
structure Scalars where
  integer : (t : IntType) → Codec (Integer t)
  float32 : Codec Binary32
  float64 : Codec Binary64
  text : Codec String
  timestamp : Codec Timestamp

variable (lib : Scalars)

/-! ## Scalars -/

def DocumentId.toJson (i : DocumentId) : Json := (lib.integer .u64).write i.number

def DocumentId.ofJson? (j : Json) : Option DocumentId :=
  ((lib.integer .u64).read j).map DocumentId.mk

def Value.bytesToJson (bs : List UInt8) : Json :=
  .array (bs.map fun b => (lib.integer .u8).write (.ofByte b))

def Value.bytesOfJson? : Json → Option (List UInt8)
  | .array items => items.mapM fun j => ((lib.integer .u8).read j).map Integer.toByte
  | _ => none

def Value.charOfJson? (j : Json) : Option Char :=
  (lib.text.read j).bind fun s =>
    match s.toList with
    | [c] => some c
    | _ => none

/-! ## Writing -/

mutual

def Value.toJson : Value → Json
  | .null => .string "Null"
  | .bool b => .object [("Bool", .bool b)]
  | .char c => .object [("Char", lib.text.write c.toString)]
  | .int64 n => .object [("Int64", (lib.integer .i64).write n)]
  | .uint64 n => .object [("UInt64", (lib.integer .u64).write n)]
  | .float32 x => .object [("Float32", lib.float32.write x)]
  | .float64 x => .object [("Float64", lib.float64.write x)]
  | .string s => .object [("String", lib.text.write s)]
  | .bytes bs => .object [("Bytes", Value.bytesToJson lib bs)]
  | .enum name => .object [("Enum", lib.text.write name)]
  | .id i => .object [("Id", i.toJson lib)]
  | .timestamp t => .object [("Timestamp", lib.timestamp.write t)]
  | .document d => .object [("Document", d.toJson)]
  | .array items => .object [("Array", .array (Value.itemsToJson items))]

def Document.toJson : Document → Json
  | ⟨entries⟩ => .array (Value.entriesToJson entries)

def Value.itemsToJson : List Value → List Json
  | [] => []
  | v :: rest => v.toJson :: Value.itemsToJson rest

def Value.entriesToJson : List (String × Value) → List Json
  | [] => []
  | (name, v) :: rest => .array [lib.text.write name, v.toJson] :: Value.entriesToJson rest

end

/-! ## Reading -/

def Value.atomOfJson? (kind : String) (body : Json) : Option Value :=
  match kind, body with
  | "Null", .null => some .null
  | "Bool", .bool b => some (.bool b)
  | "Char", j => (Value.charOfJson? lib j).map .char
  | "Int64", j => ((lib.integer .i64).read j).map .int64
  | "UInt64", j => ((lib.integer .u64).read j).map .uint64
  | "Float32", j => (lib.float32.read j).map .float32
  | "Float64", j => (lib.float64.read j).map .float64
  | "String", j => (lib.text.read j).map .string
  | "Bytes", j => (Value.bytesOfJson? lib j).map .bytes
  | "Enum", j => (lib.text.read j).map .enum
  | "Id", j => (DocumentId.ofJson? lib j).map .id
  | "Timestamp", j => (lib.timestamp.read j).map .timestamp
  | _, _ => none

mutual

def Value.ofJson? : Json → Option Value
  | .string kind => if kind = "Null" then some .null else none
  | .object [(kind, .array items)] =>
    if kind = "Array" then (Value.itemsOfJson? items).map .array
    else if kind = "Document" then (Value.entriesOfJson? items).map fun es => .document ⟨es⟩
    else Value.atomOfJson? lib kind (.array items)
  | .object [(kind, body)] => Value.atomOfJson? lib kind body
  | _ => none

def Value.itemsOfJson? : List Json → Option (List Value)
  | [] => some []
  | j :: rest => do
    let v ← Value.ofJson? j
    let vs ← Value.itemsOfJson? rest
    some (v :: vs)

def Value.entriesOfJson? : List Json → Option (List (String × Value))
  | [] => some []
  | .array [k, j] :: rest => do
    let name ← lib.text.read k
    let v ← Value.ofJson? j
    let es ← Value.entriesOfJson? rest
    some ((name, v) :: es)
  | _ => none

end

def Document.ofJson? : Json → Option Document
  | .array items => (Value.entriesOfJson? lib items).map Document.mk
  | _ => none

end ObjectDocument
