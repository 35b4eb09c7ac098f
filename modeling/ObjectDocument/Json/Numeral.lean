import ObjectDocument.Number.Shortest

/-!
# JSON numbers

A `Numeral` is a number as it is spelled. An integer is one without fraction and exponent that
fits 64 bits, so `-0` is none. A floating-point number is read fast and not exactly: as many
digits as fit 64 bits are taken as one integer, which is then multiplied or divided by a power of
ten, rounding at each of these steps.
-/

namespace ObjectDocument.Json

-- Powers are those of the core library, whatever else is imported.
attribute [local instance (2000)] instPowNat

structure Numeral where
  negative : Bool
  whole : List Char
  fraction : Option (List Char)
  /-- Whether the exponent is negative, and its digits. -/
  exponent : Option (Bool × List Char)
  deriving DecidableEq, Repr

namespace Numeral

/-! ## Spelling -/

def text (n : Numeral) : String :=
  (if n.negative then "-" else "") ++ String.ofList n.whole ++
    (match n.fraction with
      | some digits => "." ++ String.ofList digits
      | none => "") ++
    (match n.exponent with
      | some (negative, digits) => (if negative then "e-" else "e+") ++ String.ofList digits
      | none => "")

def ofSpelling (negative : Bool) (s : Spelling) : Numeral :=
  ⟨negative, s.whole, if s.fraction.isEmpty then none else some s.fraction,
    s.exponent.map fun e => (decide (e < 0), Nat.toDigits 10 e.natAbs)⟩

def readDigits (s : List Char) : Option (List Char × List Char) :=
  let digits := s.takeWhile Char.isDigit
  if digits.isEmpty then none else some (digits, s.dropWhile Char.isDigit)

def readFraction : List Char → Option (Option (List Char) × List Char)
  | '.' :: s => (readDigits s).map fun (digits, rest) => (some digits, rest)
  | s => some (none, s)

def readExponent : List Char → Option (Option (Bool × List Char) × List Char)
  | 'e' :: s | 'E' :: s =>
    let (negative, s) := match s with
      | '+' :: s => (false, s)
      | '-' :: s => (true, s)
      | s => (false, s)
    (readDigits s).map fun (digits, rest) => (some (negative, digits), rest)
  | s => some (none, s)

def read? (s : List Char) : Option (Numeral × List Char) := do
  let (negative, s) := match s with
    | '-' :: s => (true, s)
    | s => (false, s)
  let (whole, s) ← readDigits s
  if whole.head? = some '0' ∧ whole ≠ ['0'] then none
  else
    let (fraction, s) ← readFraction s
    let (exponent, s) ← readExponent s
    some (⟨negative, whole, fraction, exponent⟩, s)

def ofText? (s : String) : Option Numeral :=
  match read? s.toList with
  | some (n, []) => some n
  | _ => none

/-! ## Integers -/

def digit (c : Char) : Nat := c.toNat - '0'.toNat

def digitsValue (digits : List Char) : Nat := digits.foldl (fun n c => 10 * n + digit c) 0

def ofInt (n : Int) : Numeral := ⟨n < 0, Nat.toDigits 10 n.natAbs, none, none⟩

def toInt? (n : Numeral) : Option Int :=
  if n.fraction.isSome ∨ n.exponent.isSome then none
  else
    let magnitude := digitsValue n.whole
    if n.negative then
      if 1 ≤ magnitude ∧ magnitude ≤ 2 ^ (63 : Nat) then some (-magnitude) else none
    else
      if magnitude < 2 ^ (64 : Nat) then some magnitude else none

/-! ## Floating-point numbers -/

/-- Digits gathered into an integer, and the power of ten to multiply it by. -/
structure Gathered where
  significand : Nat
  exponent : Int
  full : Bool

def Gathered.addWhole (g : Gathered) (c : Char) : Gathered :=
  if g.full ∨ 2 ^ (64 : Nat) ≤ g.significand * 10 + digit c then
    ⟨g.significand, g.exponent + 1, true⟩
  else ⟨g.significand * 10 + digit c, g.exponent, false⟩

def Gathered.addFraction (g : Gathered) (c : Char) : Gathered :=
  if g.full ∨ 2 ^ (64 : Nat) ≤ g.significand * 10 + digit c then
    ⟨g.significand, g.exponent, true⟩
  else ⟨g.significand * 10 + digit c, g.exponent - 1, false⟩

def gather (n : Numeral) : Gathered :=
  let whole := n.whole.foldl Gathered.addWhole ⟨0, 0, false⟩
  (n.fraction.getD []).foldl Gathered.addFraction ⟨whole.significand, whole.exponent, false⟩

def powerOfTen (n : Nat) : Binary64 := Binary64.ofNat (10 ^ n)

/-- `x * 10 ^ exponent` in steps of at most 308, if it is finite. -/
def scale? (x : Binary64) (exponent : Int) : Option Binary64 :=
  if 0 ≤ exponent then
    if x.isZero then some x
    else if exponent ≤ 308 then
      let y := x.mul (powerOfTen exponent.toNat)
      if y.isFinite then some y else none
    else none
  else if x.isZero then some x
  else if -308 ≤ exponent then some (x.div (powerOfTen (-exponent).toNat))
  else scale? (x.div (powerOfTen 308)) (exponent + 308)
termination_by (-exponent).toNat

def toBinary64? (n : Numeral) : Option Binary64 := do
  let g := n.gather
  let significand := Binary64.ofNat g.significand
  let x ← match n.exponent with
    | some (negative, digits) =>
      let exponent : Int := digitsValue digits
      if 2 ^ (31 : Nat) ≤ exponent then
        if g.significand ≠ 0 ∧ ¬ negative then none else some (Binary64.ofNat 0)
      else scale? significand (if negative then g.exponent - exponent else g.exponent + exponent)
    | none => scale? significand g.exponent
  some (if n.negative then x.neg else x)

/-- The number as a 32-bit floating-point number. An integer is rounded once; what is too large
for 32 but not for 64 bits becomes infinite. -/
def toBinary32? (n : Numeral) : Option Binary32 :=
  match n.toInt? with
  | some i => some (if i < 0 then (Binary32.ofNat i.natAbs).neg else Binary32.ofNat i.natAbs)
  | none => n.toBinary64?.map Binary64.narrow

end Numeral

end ObjectDocument.Json
