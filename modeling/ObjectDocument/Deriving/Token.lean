import ObjectDocument.Text.Blank
import ObjectDocument.Text.Quoted

/-!
# The tokens of a spelling

An item is spelled in words, quoted literals, marks and brackets, with layout and comments between
them. A comment that documents what follows it is read as the attribute `doc` with its text.
-/

namespace ObjectDocument.Deriving

inductive Token
  | word (text : String)
  | lifetime (text : String)
  /-- Characters between quotes as they are spelled, with the letters before and after them. -/
  | quoted (text : String)
  /-- A punctuation mark, and whether another one follows at once. -/
  | mark (c : Char) (joint : Bool)
  | opening (c : Char)
  | closing (c : Char)
  deriving DecidableEq, Repr

namespace Token

def text : Token → String
  | .word text | .lifetime text | .quoted text => text
  | .mark c _ | .opening c | .closing c => c.toString

/-! ## Characters -/

def isLayout (c : Char) : Bool := Text.isBlank c || c == '\u200e' || c == '\u200f'

def isWordChar (c : Char) : Bool :=
  c.isAlphanum || c == '_' || (0x80 ≤ c.toNat && !isLayout c)

def isMark (c : Char) : Bool := "~!@#$%^&*-=+|;:,<.>/?'".toList.contains c

def startsWithMark : List Char → Bool
  | '/' :: '/' :: _ | '/' :: '*' :: _ => false
  | c :: _ => isMark c
  | [] => false

/-! ## Comments -/

def takeLine : List Char → List Char × List Char
  | [] => ([], [])
  | '\n' :: rest => ([], rest)
  | '\r' :: '\n' :: rest => ([], rest)
  | c :: rest =>
    let (line, rest) := takeLine rest
    (c :: line, rest)

def takeComment (depth : Nat) : List Char → List Char × List Char
  | [] => ([], [])
  | '*' :: '/' :: rest =>
    match depth with
    | 0 => ([], rest)
    | depth + 1 =>
      let (inner, rest) := takeComment depth rest
      ('*' :: '/' :: inner, rest)
  | '/' :: '*' :: rest =>
    let (inner, rest) := takeComment (depth + 1) rest
    ('/' :: '*' :: inner, rest)
  | c :: rest =>
    let (inner, rest) := takeComment depth rest
    (c :: inner, rest)

def documentation (inner : Bool) (contents : List Char) : List Token :=
  [.mark '#' false] ++ (if inner then [.mark '!' false] else []) ++
    [.opening '[', .word "doc", .mark '=' false,
      .quoted (Text.quoted (String.ofList contents)), .closing ']']

def comment? : List Char → Option (List Token × List Char)
  | '/' :: '/' :: rest =>
    let (line, after) := takeLine rest
    match line with
    | '/' :: '/' :: _ => some ([], after)
    | '/' :: contents => some (documentation false contents, after)
    | '!' :: contents => some (documentation true contents, after)
    | _ => some ([], after)
  | '/' :: '*' :: rest =>
    let (inner, after) := takeComment 0 rest
    match inner with
    | [] | ['*'] | '*' :: '*' :: _ => some ([], after)
    | '*' :: contents => some (documentation false contents, after)
    | '!' :: contents => some (documentation true contents, after)
    | _ => some ([], after)
  | _ => none

/-! ## Quotes -/

def takeQuoted (quote : Char) : List Char → List Char × List Char
  | [] => ([], [])
  | '\\' :: c :: rest =>
    let (inner, rest) := takeQuoted quote rest
    ('\\' :: c :: inner, rest)
  | c :: rest =>
    if c = quote then ([c], rest)
    else
      let (inner, rest) := takeQuoted quote rest
      (c :: inner, rest)

def takeRaw (signs : Nat) : List Char → List Char × List Char
  | [] => ([], [])
  | c :: rest =>
    if c = '"' ∧ rest.take signs = List.replicate signs '#' then
      (c :: rest.take signs, rest.drop signs)
    else
      let (inner, rest) := takeRaw signs rest
      (c :: inner, rest)

/-- A quoted literal at the start of a text, and what follows it. Letters before the quotes tell its
kind; after an `r` nothing is escaped, and number signs may stand around the quotes. -/
def literal? (s : List Char) : Option (List Char × List Char) :=
  let letters := s.takeWhile fun c => c == 'b' || c == 'c' || c == 'r'
  let rest := s.drop letters.length
  let signs := rest.takeWhile (· == '#')
  let plainLetters := letters = [] ∨ letters = ['b'] ∨ letters = ['c']
  let rawLetters := letters = ['r'] ∨ letters = ['b', 'r'] ∨ letters = ['c', 'r']
  match rest.drop signs.length with
  | '"' :: body =>
    if plainLetters ∧ signs = [] then
      let (inner, after) := takeQuoted '"' body
      some (letters ++ '"' :: inner, after)
    else if rawLetters then
      let (inner, after) := takeRaw signs.length body
      some (letters ++ signs ++ '"' :: inner, after)
    else none
  | '\'' :: c :: body =>
    if (letters = [] ∧ (c = '\\' ∨ body.head? = some '\'') ∨ letters = ['b']) ∧ signs = [] then
      let (inner, after) := takeQuoted '\'' (if c = '\\' then c :: body else body)
      some (letters ++ '\'' :: (if c = '\\' then inner else c :: inner), after)
    else none
  | _ => none

/-! ## Reading -/

def next : List Char → List Token × List Char
  | [] => ([], [])
  | c :: rest =>
    match comment? (c :: rest), literal? (c :: rest) with
    | some found, _ => found
    | none, some (text, rest) =>
      ([.quoted (String.ofList (text ++ rest.takeWhile isWordChar))], rest.dropWhile isWordChar)
    | none, none =>
      if c = '\'' then
        ([.lifetime (String.ofList (c :: rest.takeWhile isWordChar))], rest.dropWhile isWordChar)
      else if isWordChar c then
        let raw := if c = 'r' ∧ rest.head? = some '#' then 1 else 0
        let name := rest.take raw ++ (rest.drop raw).takeWhile isWordChar
        ([.word (String.ofList (c :: name))], rest.drop name.length)
      else if c = '(' ∨ c = '[' ∨ c = '\x7b' then ([.opening c], rest)
      else if c = ')' ∨ c = ']' ∨ c = '\x7d' then ([.closing c], rest)
      else ([.mark c (startsWithMark rest)], rest)

def ofChars : (fuel : Nat) → List Char → List Token
  | 0, _ => []
  | fuel + 1, s =>
    match s.dropWhile isLayout with
    | [] => []
    | s =>
      let (tokens, rest) := next s
      tokens ++ ofChars fuel rest

def ofText (s : String) : List Token := ofChars s.length s.toList

def plain (tokens : List Token) : String := String.join (tokens.map text)

end Token

end ObjectDocument.Deriving
