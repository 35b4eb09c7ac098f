import ObjectDocument.Value.Display

/-!
# Values as text for diagnosis

Each value is written with the name of its kind, so that two values of different kinds are never
written alike.
-/

namespace ObjectDocument

def diagnosedFloat : FloatStyle where
  tie := .up
  positional := some (-4, 15)
  pointZero := true

def bracketed (items : List String) : String := "[" ++ ", ".intercalate items ++ "]"

def recordText (name : String) (parts : List (String × String)) : String :=
  if parts.isEmpty then name
  else name ++ " \x7b " ++ ", ".intercalate (parts.map fun p => p.1 ++ ": " ++ p.2) ++ " \x7d"

def wrapText (name part : String) : String := name ++ "(" ++ part ++ ")"

def Binary32.debug (x : Binary32) : String := diagnosedFloat.text .binary32 x.value

def Binary64.debug (x : Binary64) : String := diagnosedFloat.text .binary64 x.value

def DocumentId.debug (i : DocumentId) : String := wrapText "DocumentId" (toString i.number)

def bytesDebug (bs : List UInt8) : String := bracketed (bs.map fun b => toString b.toNat)

mutual

def Value.debug : Value → String
  | .null => "Null"
  | .bool b => wrapText "Bool" (if b then "true" else "false")
  | .char c => wrapText "Char" (Text.quotedChar c)
  | .int64 n => wrapText "Int64" (toString n)
  | .uint64 n => wrapText "UInt64" (toString n)
  | .float32 x => wrapText "Float32" x.debug
  | .float64 x => wrapText "Float64" x.debug
  | .string s => wrapText "String" (Text.quoted s)
  | .bytes bs => wrapText "Bytes" (bytesDebug bs)
  | .enum name => wrapText "Enum" (Text.quoted name)
  | .id i => wrapText "Id" i.debug
  | .timestamp t => wrapText "Timestamp" (t.text "Z")
  | .document d => wrapText "Document" d.debug
  | .array items => wrapText "Array" (bracketed (Value.debugItems items))

def Document.debug : Document → String
  | ⟨entries⟩ => recordText "Document" [("entries", bracketed (Value.debugEntries entries))]

def Value.debugItems : List Value → List String
  | [] => []
  | v :: rest => v.debug :: Value.debugItems rest

def Value.debugEntries : List (String × Value) → List String
  | [] => []
  | (k, v) :: rest => ("(" ++ Text.quoted k ++ ", " ++ v.debug ++ ")") :: Value.debugEntries rest

end

end ObjectDocument
