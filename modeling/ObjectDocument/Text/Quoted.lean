import ObjectDocument.Text.Hex
import ObjectDocument.Text.Printable

/-!
# Quoted text

Text between quotes, with the quote, the backslash, controls and characters that do not show
written as escapes.
-/

namespace ObjectDocument.Text

def escape (quote c : Char) : String :=
  if c = '\x00' then "\\0"
  else if c = '\t' then "\\t"
  else if c = '\r' then "\\r"
  else if c = '\n' then "\\n"
  else if c = '\\' ∨ c = quote then "\\" ++ c.toString
  else if hidden c then "\\u\x7b" ++ Hex.text 0 c.toNat ++ "\x7d"
  else c.toString

def quoted (s : String) : String := "\"" ++ String.join (s.toList.map (escape '"')) ++ "\""

def quotedChar (c : Char) : String := "'" ++ escape '\'' c ++ "'"

end ObjectDocument.Text
