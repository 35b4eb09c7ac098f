import ObjectDocument.Number.Integer
import ObjectDocument.Number.Binary
import ObjectDocument.Timestamp

/-!
# Values and documents

A `Document` is the exchange form of the store: a list of named values in the order in which the
names were first put. `Value` is the closed set of things a document can hold. Equality of values
is structural, so floating-point numbers are equal when their bits are; `Value.numEq` is the
equality that compares them as numbers.
-/

namespace ObjectDocument

structure DocumentId where
  number : Integer .u64
  deriving DecidableEq, Inhabited

mutual

inductive Value where
  | null
  | bool (b : Bool)
  | char (c : Char)
  | int64 (n : Integer .i64)
  | uint64 (n : Integer .u64)
  | float32 (x : Binary32)
  | float64 (x : Binary64)
  | string (s : String)
  | bytes (bs : List UInt8)
  /-- The name of a variant; the type it belongs to is known from the target. -/
  | enum (name : String)
  | id (i : DocumentId)
  | timestamp (t : Timestamp)
  | document (d : Document)
  | array (items : List Value)

structure Document where
  entries : List (String × Value)

end

instance : Inhabited Value := ⟨.null⟩
instance : Inhabited Document := ⟨⟨[]⟩⟩

/-! ## Equality -/

mutual

def Value.beq : Value → Value → Bool
  | .null, .null => true
  | .bool x, .bool y => x == y
  | .char x, .char y => x == y
  | .int64 x, .int64 y => x == y
  | .uint64 x, .uint64 y => x == y
  | .float32 x, .float32 y => x == y
  | .float64 x, .float64 y => x == y
  | .string x, .string y => x == y
  | .bytes x, .bytes y => x == y
  | .enum x, .enum y => x == y
  | .id x, .id y => x == y
  | .timestamp x, .timestamp y => x == y
  | .document x, .document y => x.beq y
  | .array x, .array y => Value.beqItems x y
  | _, _ => false

def Document.beq : Document → Document → Bool
  | ⟨x⟩, ⟨y⟩ => Value.beqEntries x y

def Value.beqItems : List Value → List Value → Bool
  | [], [] => true
  | x :: xs, y :: ys => x.beq y && Value.beqItems xs ys
  | _, _ => false

def Value.beqEntries : List (String × Value) → List (String × Value) → Bool
  | [], [] => true
  | (j, x) :: xs, (k, y) :: ys => j == k && x.beq y && Value.beqEntries xs ys
  | _, _ => false

end

mutual

theorem Value.beq_iff : (a b : Value) → (a.beq b = true ↔ a = b)
  | .document x, b => by cases b <;> simp [Value.beq, Document.beq_iff x]
  | .array x, b => by cases b <;> simp [Value.beq, Value.beqItems_iff x]
  | .null, b | .bool _, b | .char _, b | .int64 _, b | .uint64 _, b | .float32 _, b
  | .float64 _, b | .string _, b | .bytes _, b | .enum _, b | .id _, b | .timestamp _, b => by
    cases b <;> simp [Value.beq]

theorem Document.beq_iff : (a b : Document) → (a.beq b = true ↔ a = b)
  | ⟨x⟩, ⟨y⟩ => by simp [Document.beq, Value.beqEntries_iff x]

theorem Value.beqItems_iff : (a b : List Value) → (Value.beqItems a b = true ↔ a = b)
  | [], b => by cases b <;> simp [Value.beqItems]
  | x :: xs, b => by
    cases b <;> simp [Value.beqItems, Value.beq_iff x, Value.beqItems_iff xs]

theorem Value.beqEntries_iff :
    (a b : List (String × Value)) → (Value.beqEntries a b = true ↔ a = b)
  | [], b => by cases b <;> simp [Value.beqEntries]
  | (k, x) :: xs, [] => by simp [Value.beqEntries]
  | (k, x) :: xs, (j, y) :: ys => by
    simp [Value.beqEntries, Value.beq_iff x, Value.beqEntries_iff xs, and_assoc]

end

instance : DecidableEq Value := fun a b => decidable_of_iff _ (Value.beq_iff a b)

instance : DecidableEq Document := fun a b => decidable_of_iff _ (Document.beq_iff a b)

/-! ## Parts of a value -/

namespace Value

def kindName : Value → String
  | .null => "Null"
  | .bool _ => "Bool"
  | .char _ => "Char"
  | .int64 _ => "Int64"
  | .uint64 _ => "UInt64"
  | .float32 _ => "Float32"
  | .float64 _ => "Float64"
  | .string _ => "String"
  | .bytes _ => "Bytes"
  | .enum _ => "Enum"
  | .id _ => "Id"
  | .timestamp _ => "Timestamp"
  | .document _ => "Document"
  | .array _ => "Array"

def isNull : Value → Bool
  | .null => true
  | _ => false

def asDocument? : Value → Option Document
  | .document d => some d
  | _ => none

def asArray? : Value → Option (List Value)
  | .array items => some items
  | _ => none

def asString? : Value → Option String
  | .string s => some s
  | _ => none

def asInt64? : Value → Option (Integer .i64)
  | .int64 n => some n
  | .uint64 n => Integer.ofInt? .i64 n.val
  | _ => none

def asUInt64? : Value → Option (Integer .u64)
  | .uint64 n => some n
  | .int64 n => Integer.ofInt? .u64 n.val
  | _ => none

def asFloat64? (nan : WideNaN) : Value → Option Binary64
  | .float64 x => some x
  | .float32 x => some (x.widen nan)
  | _ => none

def asBool? : Value → Option Bool
  | .bool b => some b
  | _ => none

def ofInteger {t : IntType} (n : Integer t) : Value :=
  if h : t.signed = true then .int64 ⟨n.val, IntType.holds_i64 h n.holds⟩
  else .uint64 ⟨n.val, IntType.holds_u64 h n.holds⟩

end Value

/-! ## Numeric equality -/

mutual

/-- Equality that compares floating-point numbers as numbers: a NaN differs from itself, and the
two zeros are equal. -/
def Value.numEq : Value → Value → Bool
  | .float32 x, .float32 y => x.numEq y
  | .float64 x, .float64 y => x.numEq y
  | .document d, .document e => d.numEq e
  | .array x, .array y => Value.numEqItems x y
  | .document _, _ | _, .document _ | .array _, _ | _, .array _ => false
  | x, y => x.beq y

def Document.numEq : Document → Document → Bool
  | ⟨x⟩, ⟨y⟩ => Value.numEqEntries x y

def Value.numEqItems : List Value → List Value → Bool
  | [], [] => true
  | x :: xs, y :: ys => x.numEq y && Value.numEqItems xs ys
  | _, _ => false

def Value.numEqEntries : List (String × Value) → List (String × Value) → Bool
  | [], [] => true
  | (j, x) :: xs, (k, y) :: ys => j == k && x.numEq y && Value.numEqEntries xs ys
  | _, _ => false

end

end ObjectDocument
