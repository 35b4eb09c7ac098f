import ObjectDocument.Json
import ObjectDocument.Json.Numeral
import ObjectDocument.Text.Hex

/-!
# JSON texts

Writing is compact and escapes only what has to be escaped. A text holds one value with nothing but
white space around it, and at most 127 arrays and objects inside one another. Surrogate escapes have
to come in pairs.
-/

namespace ObjectDocument.Json

/-! ## Writing -/

def escape (c : Char) : String :=
  if c = '"' then "\\\""
  else if c = '\\' then "\\\\"
  else if c = '\x08' then "\\b"
  else if c = '\x0c' then "\\f"
  else if c = '\n' then "\\n"
  else if c = '\r' then "\\r"
  else if c = '\t' then "\\t"
  else if c.toNat < 0x20 then "\\u" ++ Text.Hex.text 4 c.toNat
  else c.toString

def quoted (s : String) : String := "\"" ++ String.join (s.toList.map escape) ++ "\""

mutual

def text : Json → String
  | .null => "null"
  | .bool b => if b then "true" else "false"
  | .number spelling => spelling
  | .string s => quoted s
  | .array items => "[" ++ ",".intercalate (itemTexts items) ++ "]"
  | .object members => "\x7b" ++ ",".intercalate (memberTexts members) ++ "\x7d"

def itemTexts : List Json → List String
  | [] => []
  | v :: rest => v.text :: itemTexts rest

def memberTexts : List (String × Json) → List String
  | [] => []
  | (name, v) :: rest => (quoted name ++ ":" ++ v.text) :: memberTexts rest

end

/-! ## Reading -/

def isSpace (c : Char) : Bool := c == ' ' || c == '\t' || c == '\n' || c == '\r'

def skipSpace (s : List Char) : List Char := s.dropWhile isSpace

def unit? (a b c d : Char) : Option Nat := Text.Hex.value? [a, b, c, d]

def isHighSurrogate (n : Nat) : Bool := 0xd800 ≤ n && n < 0xdc00

def isLowSurrogate (n : Nat) : Bool := 0xdc00 ≤ n && n < 0xe000

def unescape? : Char → Option Char
  | '"' => some '"'
  | '\\' => some '\\'
  | '/' => some '/'
  | 'b' => some '\x08'
  | 'f' => some '\x0c'
  | 'n' => some '\n'
  | 'r' => some '\r'
  | 't' => some '\t'
  | _ => none

def readString : List Char → Option (List Char × List Char)
  | [] => none
  | '"' :: rest => some ([], rest)
  | '\\' :: 'u' :: a :: b :: c :: d :: rest => do
    let n ← unit? a b c d
    if isLowSurrogate n then none
    else if isHighSurrogate n then
      match rest with
      | '\\' :: 'u' :: a :: b :: c :: d :: rest => do
        let m ← unit? a b c d
        if isLowSurrogate m then do
          let (s, rest) ← readString rest
          some (Char.ofNat (0x10000 + (n - 0xd800) * 0x400 + (m - 0xdc00)) :: s, rest)
        else none
      | _ => none
    else do
      let (s, rest) ← readString rest
      some (Char.ofNat n :: s, rest)
  | '\\' :: e :: rest => do
    let c ← unescape? e
    let (s, rest) ← readString rest
    some (c :: s, rest)
  | c :: rest =>
    if c.toNat < 0x20 ∨ c = '\\' then none
    else do
      let (s, rest) ← readString rest
      some (c :: s, rest)

mutual

/-- One value. `depth` is how many more containers may be opened, and `fuel` bounds the calls. -/
def readValue : (fuel depth : Nat) → List Char → Option (Json × List Char)
  | 0, _, _ => none
  | fuel + 1, depth, s =>
    match skipSpace s with
    | 'n' :: 'u' :: 'l' :: 'l' :: rest => some (.null, rest)
    | 't' :: 'r' :: 'u' :: 'e' :: rest => some (.bool true, rest)
    | 'f' :: 'a' :: 'l' :: 's' :: 'e' :: rest => some (.bool false, rest)
    | '"' :: rest => do
      let (s, rest) ← readString rest
      some (.string (String.ofList s), rest)
    | '[' :: rest =>
      if depth = 0 then none
      else match skipSpace rest with
        | ']' :: rest => some (.array [], rest)
        | rest => do
          let (items, rest) ← readItems fuel (depth - 1) rest
          some (.array items, rest)
    | '{' :: rest =>
      if depth = 0 then none
      else match skipSpace rest with
        | '}' :: rest => some (.object [], rest)
        | rest => do
          let (members, rest) ← readMembers fuel (depth - 1) rest
          some (.object members, rest)
    | rest => do
      let (n, rest) ← Numeral.read? rest
      some (.number n.text, rest)

def readItems : (fuel depth : Nat) → List Char → Option (List Json × List Char)
  | 0, _, _ => none
  | fuel + 1, depth, s => do
    let (v, rest) ← readValue fuel depth s
    match skipSpace rest with
    | ',' :: rest => do
      let (items, rest) ← readItems fuel depth rest
      some (v :: items, rest)
    | ']' :: rest => some ([v], rest)
    | _ => none

def readMembers : (fuel depth : Nat) → List Char → Option (List (String × Json) × List Char)
  | 0, _, _ => none
  | fuel + 1, depth, s =>
    match skipSpace s with
    | '"' :: rest => do
      let (name, rest) ← readString rest
      match skipSpace rest with
      | ':' :: rest => do
        let (v, rest) ← readValue fuel depth rest
        match skipSpace rest with
        | ',' :: rest => do
          let (members, rest) ← readMembers fuel depth rest
          some ((String.ofList name, v) :: members, rest)
        | '}' :: rest => some ([(String.ofList name, v)], rest)
        | _ => none
      | _ => none
    | _ => none

end

def maxNesting : Nat := 127

/-- The tree that a text spells. Each call consumes a character or is the only one at its place,
so twice the length bounds them all. -/
def ofText? (s : String) : Option Json :=
  let chars := s.toList
  match readValue (2 * chars.length + 2) maxNesting chars with
  | some (v, rest) => if skipSpace rest = [] then some v else none
  | none => none

end ObjectDocument.Json
