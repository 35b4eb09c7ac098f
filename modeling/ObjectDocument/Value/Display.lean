import ObjectDocument.Value
import ObjectDocument.Number.Shortest
import ObjectDocument.Text.Quoted
import ObjectDocument.Timestamp.Rfc3339

/-!
# Values as text for people

Documents are written in braces and arrays in brackets. Text is quoted, variants are not, and the
contents of bytes are not shown.
-/

namespace ObjectDocument

def displayedFloat : FloatStyle where
  tie := .up
  positional := none
  pointZero := false

mutual

def Value.display : Value → String
  | .null => "null"
  | .bool b => if b then "true" else "false"
  | .char c => "'" ++ c.toString ++ "'"
  | .int64 n => toString n
  | .uint64 n => toString n
  | .float32 x => displayedFloat.text .binary32 x.value
  | .float64 x => displayedFloat.text .binary64 x.value
  | .string s => Text.quoted s
  | .bytes bs => "<" ++ toString bs.length ++ " bytes>"
  | .enum name => name
  | .id i => "#" ++ toString i.number
  | .timestamp t => t.text "+00:00"
  | .document d => d.display
  | .array items => "[" ++ ", ".intercalate (Value.displayItems items) ++ "]"

def Document.display : Document → String
  | ⟨entries⟩ => "\x7b" ++ ", ".intercalate (Value.displayEntries entries) ++ "\x7d"

def Value.displayItems : List Value → List String
  | [] => []
  | v :: rest => v.display :: Value.displayItems rest

def Value.displayEntries : List (String × Value) → List String
  | [] => []
  | (k, v) :: rest => (k ++ ": " ++ v.display) :: Value.displayEntries rest

end

end ObjectDocument
