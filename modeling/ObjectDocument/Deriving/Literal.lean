import ObjectDocument.Deriving.Token

/-!
# Literals in attributes

Of the literals that an attribute may hold only strings have a value here, written with escapes or
raw.
-/

namespace ObjectDocument.Deriving

inductive Literal
  | string (value : String)
  /-- A number, a character, bytes or a truth value. -/
  | other
  deriving DecidableEq, Repr

namespace Literal

def charOf (digits : List Char) : Char := Char.ofNat ((Text.Hex.value? digits).getD 0)

def isLayout (c : Char) : Bool := c == ' ' || c == '\t' || c == '\n' || c == '\r'

/-- The contents of a string with escapes, up to its closing quote. In `code` the digits of a
character are being read, and after a broken line `skipping` layout. -/
def cooked (code : Option (List Char)) (skipping : Bool) : List Char → List Char
  | [] => []
  | c :: rest =>
    match code with
    | some digits =>
      if c = '\x7d' then charOf digits.reverse :: cooked none false rest
      else if c = '\x7b' ∨ c = '_' then cooked (some digits) false rest
      else cooked (some (c :: digits)) false rest
    | none =>
      if skipping && isLayout c then cooked none true rest
      else if c = '"' then []
      else if c = '\\' then
        match rest with
        | 'x' :: a :: b :: rest => charOf [a, b] :: cooked none false rest
        | 'u' :: rest => cooked (some []) false rest
        | 'n' :: rest => '\n' :: cooked none false rest
        | 'r' :: rest => '\r' :: cooked none false rest
        | 't' :: rest => '\t' :: cooked none false rest
        | '0' :: rest => '\x00' :: cooked none false rest
        | '\n' :: rest | '\r' :: rest => cooked none true rest
        | e :: rest => e :: cooked none false rest
        | [] => []
      else if c = '\r' then cooked none false rest
      else c :: cooked none false rest

def raw (marks : Nat) : List Char → List Char
  | [] => []
  | c :: rest =>
    if c = '"' ∧ rest.take marks = List.replicate marks '#' then [] else c :: raw marks rest

def ofQuoted : List Char → Literal
  | '"' :: rest => .string (String.ofList (cooked none false rest))
  | 'r' :: rest =>
    let marks := (rest.takeWhile (· == '#')).length
    .string (String.ofList (raw marks (rest.drop (marks + 1))))
  | _ => .other

def ofText (s : String) : Literal :=
  match Token.ofText s with
  | [.quoted text] => ofQuoted text.toList
  | _ => .other

end Literal

end ObjectDocument.Deriving
