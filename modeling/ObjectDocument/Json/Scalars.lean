import ObjectDocument.Json.Text
import ObjectDocument.Timestamp.Rfc3339
import ObjectDocument.Value.Stored

/-!
# Scalars in JSON texts

The libraries that the program runs with. What is proved of stored values takes them as given.
-/

namespace ObjectDocument

def storedFloat64 : FloatStyle where
  tie := .even
  positional := some (-5, 15)
  pointZero := true

/-- Stored 32-bit numbers have an exponent earlier than longer ones, as they have fewer digits. -/
def storedFloat32 : FloatStyle where
  tie := .even
  positional := some (-6, 12)
  pointZero := true

namespace Json

def ofFloat (s : FloatStyle) (f : FloatFormat) : FloatValue → Json
  | .finite negative m q => .number (Numeral.ofSpelling negative (s.spell f m q)).text
  | _ => .null

def numeral? : Json → Option Numeral
  | .number spelling => Numeral.ofText? spelling
  | _ => none

def string? : Json → Option String
  | .string s => some s
  | _ => none

end Json

def Scalars.json : Scalars where
  integer t := ⟨fun n => .number (Json.Numeral.ofInt n.val).text, fun j =>
    (j.numeral?.bind Json.Numeral.toInt?).bind (Integer.ofInt? t)⟩
  float32 := ⟨fun x => .ofFloat storedFloat32 .binary32 x.value, fun j =>
    j.numeral?.bind Json.Numeral.toBinary32?⟩
  float64 := ⟨fun x => .ofFloat storedFloat64 .binary64 x.value, fun j =>
    j.numeral?.bind Json.Numeral.toBinary64?⟩
  text := ⟨.string, Json.string?⟩
  timestamp := ⟨fun t => .string (t.text "Z"), fun j => j.string?.bind Timestamp.ofText?⟩

end ObjectDocument
