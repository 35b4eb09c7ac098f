import ObjectDocument.Settings
import ObjectDocument.Text.Hex

/-!
# Settings as TOML

Of TOML only what can set the two keys is read: bare and quoted keys, integers in four bases,
booleans, comments and blank lines. Whatever else a text may hold is refused as a key or value
that there is no setting for.
-/

namespace ObjectDocument.Settings

-- Powers are those of the core library, whatever else is imported.
attribute [local instance (2000)] instPowNat

/-! ## Lines -/

def isBlank (c : Char) : Bool := c == ' ' || c == '\t'

def skipBlanks (s : List Char) : List Char := s.dropWhile isBlank

def isVisible (c : Char) : Bool := c == '\t' || (0x20 ≤ c.toNat && c.toNat != 0x7f)

def lines : List Char → List (List Char)
  | [] => [[]]
  | '\r' :: '\n' :: rest => [] :: lines rest
  | '\n' :: rest => [] :: lines rest
  | c :: rest =>
    match lines rest with
    | line :: more => (c :: line) :: more
    | [] => [[c]]

def isRest (s : List Char) : Bool :=
  match skipBlanks s with
  | [] => true
  | '#' :: comment => comment.all isVisible
  | _ => false

/-! ## Keys -/

def isBareKey (c : Char) : Bool := c.isAlphanum || c == '_' || c == '-'

def charOfCode? (n : Nat) : Option Char := if n.isValidChar then some (Char.ofNat n) else none

def unescape? : Char → Option Char
  | 'b' => some '\x08'
  | 't' => some '\t'
  | 'n' => some '\n'
  | 'f' => some '\x0c'
  | 'r' => some '\r'
  | '"' => some '"'
  | '\\' => some '\\'
  | _ => none

def readBasic : List Char → Option (List Char × List Char)
  | '"' :: rest => some ([], rest)
  | '\\' :: 'u' :: a :: b :: c :: d :: rest => do
    let x ← (Text.Hex.value? [a, b, c, d]).bind charOfCode?
    let (s, rest) ← readBasic rest
    some (x :: s, rest)
  | '\\' :: 'U' :: a :: b :: c :: d :: e :: f :: g :: h :: rest => do
    let x ← (Text.Hex.value? [a, b, c, d, e, f, g, h]).bind charOfCode?
    let (s, rest) ← readBasic rest
    some (x :: s, rest)
  | '\\' :: e :: rest => do
    let x ← unescape? e
    let (s, rest) ← readBasic rest
    some (x :: s, rest)
  | c :: rest =>
    if isVisible c ∧ c ≠ '\\' then do
      let (s, rest) ← readBasic rest
      some (c :: s, rest)
    else none
  | [] => none

def readKey? : List Char → Option (List Char × List Char)
  | '"' :: rest => readBasic rest
  | '\'' :: rest =>
    let key := rest.takeWhile fun c => isVisible c && c != '\''
    match rest.drop key.length with
    | '\'' :: rest => some (key, rest)
    | _ => none
  | s =>
    let key := s.takeWhile isBareKey
    if key.isEmpty then none else some (key, s.drop key.length)

/-! ## Values -/

inductive Scalar
  | integer (n : Int)
  | boolean (b : Bool)

def digitsBetween? (isDigit : Char → Bool) : List Char → Option (List Char)
  | [] => none
  | [c] => if isDigit c then some [c] else none
  | c :: '_' :: rest =>
    if isDigit c then (digitsBetween? isDigit rest).map (c :: ·) else none
  | c :: rest => if isDigit c then (digitsBetween? isDigit rest).map (c :: ·) else none

def radixValue (radix : Nat) (digits : List Char) : Int :=
  digits.foldl (fun n c => radix * n + (Text.Hex.digit? c).getD 0) 0

def decimal? (s : List Char) : Option Int := do
  let digits ← digitsBetween? Char.isDigit s
  if digits.head? = some '0' ∧ digits.length ≠ 1 then none else some (radixValue 10 digits)

def integer? (s : List Char) : Option Int :=
  match s with
  | '0' :: 'x' :: s => (digitsBetween? (fun c => (Text.Hex.digit? c).isSome) s).map (radixValue 16)
  | '0' :: 'o' :: s => (digitsBetween? (fun c => '0' ≤ c ∧ c ≤ '7') s).map (radixValue 8)
  | '0' :: 'b' :: s => (digitsBetween? (fun c => '0' ≤ c ∧ c ≤ '1') s).map (radixValue 2)
  | '-' :: s => (decimal? s).map fun n => -n
  | '+' :: s => decimal? s
  | s => decimal? s

def scalar? (s : List Char) : Option Scalar :=
  if s = ['t', 'r', 'u', 'e'] then some (.boolean true)
  else if s = ['f', 'a', 'l', 's', 'e'] then some (.boolean false)
  else do
    let n ← integer? s
    if -2 ^ (63 : Nat) ≤ n ∧ n < 2 ^ (63 : Nat) then some (.integer n) else none

/-! ## Settings -/

structure Assigned where
  maxDepth : Option Nat
  passThroughAssignable : Option Bool

def Assigned.set? (a : Assigned) (key : String) (v : Scalar) : Option Assigned :=
  match key, v, a with
  | "max_depth", .integer n, ⟨none, p⟩ => if 0 ≤ n then some ⟨some n.toNat, p⟩ else none
  | "pass_through_assignable", .boolean b, ⟨d, none⟩ => some ⟨d, some b⟩
  | _, _, _ => none

def Assigned.addLine? (a : Assigned) (line : List Char) : Option Assigned :=
  if isRest line then some a
  else do
    let (key, rest) ← readKey? (skipBlanks line)
    match skipBlanks rest with
    | '=' :: rest => do
      let rest := skipBlanks rest
      let word := rest.takeWhile fun c => !(isBlank c || c == '#')
      let v ← scalar? word
      if isRest (rest.drop word.length) then a.set? (String.ofList key) v else none
    | _ => none

def withoutMark : List Char → List Char
  | '\ufeff' :: rest => rest
  | s => s

/-- The settings that a text stands for. Keys that are not set keep their standard. -/
def ofText (s : String) : Except SettingsError Settings :=
  match (lines (withoutMark s.toList)).foldlM Assigned.addLine? ⟨none, none⟩ with
  | none => .error (.here .malformed)
  | some a =>
    let settings : Settings :=
      ⟨a.maxDepth.getD standard.maxDepth,
        a.passThroughAssignable.getD standard.passThroughAssignable⟩
    if settings.maxDepth = 0 then .error (.here .zeroDepth) else .ok settings

def ofFile (path : String) (content : Except SettingsCause String) :
    Except SettingsError Settings :=
  match content with
  | .error cause => .error (.under path (.here cause))
  | .ok s => (ofText s).mapError (.under path)

end ObjectDocument.Settings
