import ObjectDocument.Text.Blank
import ObjectDocument.Timestamp

/-!
# Instants as text

Writing follows RFC 3339, with a sign before years outside 0 to 9999 and as many groups of three
fraction digits as are needed. Reading is lenient: white space may stand before each number and
around separators, a signed year may have any number of digits, and the offset may be `Z`, `UTC`
or hours and minutes.
-/

namespace ObjectDocument.Timestamp

-- Powers are those of the core library, whatever else is imported.
attribute [local instance (2000)] instPowNat

open ObjectDocument

/-! ## Writing -/

def padded (width n : Nat) : String :=
  let digits := Nat.toDigits 10 n
  String.ofList (List.replicate (width - digits.length) '0' ++ digits)

def yearText (year : Int) : String :=
  if 0 ≤ year ∧ year ≤ 9999 then padded 4 year.toNat
  else (if year < 0 then "-" else "+") ++ padded 4 year.natAbs

def fractionText (nanos : Nat) : String :=
  if nanos = 0 then ""
  else if nanos % 1000000 = 0 then "." ++ padded 3 (nanos / 1000000)
  else if nanos % 1000 = 0 then "." ++ padded 6 (nanos / 1000)
  else "." ++ padded 9 nanos

/-- Date and time in UTC, with the given text for the offset. A leap second is second 60. -/
def text (t : Timestamp) (offset : String) : String :=
  let date := t.date
  let leap := if 1000000000 ≤ t.nanos then 1 else 0
  yearText date.year ++ "-" ++ padded 2 date.month ++ "-" ++ padded 2 date.day ++ "T" ++
    padded 2 (t.secondOfDay / 3600) ++ ":" ++ padded 2 (t.secondOfDay / 60 % 60) ++ ":" ++
    padded 2 (t.secondOfDay % 60 + leap) ++ fractionText (t.nanos % 1000000000) ++ offset

/-! ## Reading -/

def skipBlanks (s : List Char) : List Char := s.dropWhile Text.isBlank

def digitsValue (digits : List Char) : Nat :=
  digits.foldl (fun n c => 10 * n + (c.toNat - '0'.toNat)) 0

def readDigits (limit : Option Nat) (s : List Char) : Option (List Char × List Char) :=
  let all := s.takeWhile Char.isDigit
  let digits := match limit with
    | some n => all.take n
    | none => all
  if digits.isEmpty then none else some (digits, s.drop digits.length)

def readNumber (s : List Char) : Option (Nat × List Char) := do
  let (digits, rest) ← readDigits (some 2) (skipBlanks s)
  some (digitsValue digits, rest)

/-- Four digits at most, or a sign and any number of digits. -/
def readYear (s : List Char) : Option (Int × List Char) :=
  match skipBlanks s with
  | '-' :: r => (readDigits none r).map fun (d, rest) => (-(digitsValue d : Int), rest)
  | '+' :: r => (readDigits none r).map fun (d, rest) => ((digitsValue d : Int), rest)
  | r => (readDigits (some 4) r).map fun (d, rest) => ((digitsValue d : Int), rest)

def readSeparator (separator : Char) (s : List Char) : Option (List Char) :=
  match skipBlanks s with
  | c :: r => if c = separator then some r else none
  | [] => none

def readFraction : List Char → Option (Nat × List Char)
  | '.' :: s => do
    let (digits, rest) ← readDigits (some 9) s
    some (digitsValue digits * 10 ^ (9 - digits.length), rest.dropWhile Char.isDigit)
  | s => some (0, s)

def readOffset (s : List Char) : Option (Int × List Char) :=
  match s with
  | 'Z' :: r | 'z' :: r => some (0, r)
  | _ =>
    if (s.take 3).map Char.toUpper = ['U', 'T', 'C'] then some (0, s.drop 3)
    else do
      let (sign, r) ← match s with
        | '+' :: r => some ((1 : Int), r)
        | '-' :: r | '\u2212' :: r => some (-1, r)
        | _ => none
      let hours := r.take 2
      let r := (r.drop 2).dropWhile fun c => c == ':' || Text.isBlank c
      let minutes := r.take 2
      if (hours ++ minutes).length = 4 ∧ (hours ++ minutes).all Char.isDigit ∧
          digitsValue minutes < 60 ∧ digitsValue hours < 24 then
        some (sign * (digitsValue hours * 3600 + digitsValue minutes * 60), r.drop 2)
      else none

def ofChars? (s : List Char) : Option Timestamp := do
  let (year, s) ← readYear s
  let (month, s) ← readNumber (← readSeparator '-' s)
  let (day, s) ← readNumber (← readSeparator '-' s)
  let s ← match s with
    | 'T' :: r | 't' :: r | ' ' :: r => some r
    | _ => none
  let (hour, s) ← readNumber s
  let (minute, s) ← readNumber (← readSeparator ':' s)
  let (second, s) ← readNumber (← readSeparator ':' s)
  let (nanos, s) ← readFraction s
  let (offset, s) ← readOffset (skipBlanks s)
  let date : Date := ⟨year, month, day⟩
  if skipBlanks s = [] ∧ date.IsValid ∧ hour < 24 ∧ minute < 60 ∧ second ≤ 60 then
    let leap := if second = 60 then 1 else 0
    let localSeconds := date.toDays * 86400 + (hour * 3600 + minute * 60 + (second - leap) : Nat)
    let nanos := nanos + leap * 1000000000
    let _ ← ofParts? localSeconds nanos
    ofParts? (localSeconds - offset) nanos
  else none

def ofText? (s : String) : Option Timestamp := ofChars? s.toList

end ObjectDocument.Timestamp
