import ObjectDocument.Number.Binary

/-!
# The fewest decimal digits that read back

The reals that round to a given binary number form an interval. `shortest` tries decimal grids
from the coarsest on; the first grid with a point in the interval fixes the number of digits, and
of two such points the nearer one is taken. All comparisons are exact, on naturals.
-/

namespace ObjectDocument

-- Powers are those of the core library, whatever else is imported.
attribute [local instance (2000)] instPowNat

inductive TieRule
  | even | up
  deriving DecidableEq, Repr

/-- The decimal `d₀.d₁d₂… * 10 ^ exponent`. -/
structure Decimal where
  digits : List Char
  exponent : Int
  deriving DecidableEq, Repr

namespace Decimal

def compareScaled (a : Nat) (i : Int) (n : Nat) (j : Int) : Ordering :=
  compare (a * 10 ^ i.toNat * 2 ^ (-j).toNat) (n * 2 ^ j.toNat * 10 ^ (-i).toNat)

/-- Whether `a * 10 ^ i` lies among the reals that round to `m * 2 ^ q`. The ends of the interval
belong to it when `m` is even; below a power of two the gap is half as wide. -/
def readsBack (f : FloatFormat) (m : Nat) (q : Int) (a : Nat) (i : Int) : Bool :=
  let below := if m = f.hidden ∧ f.minExponent < q then 1 else 2
  let low := compareScaled a i (4 * m - below) (q - 2)
  let high := compareScaled a i (4 * m + 2) (q - 2)
  let ends := m % 2 == 0
  (low == .gt || (ends && low == .eq)) && (high == .lt || (ends && high == .eq))

/-- The least `k` with `m * 2 ^ q < 10 ^ k`, for `0 < m`. -/
def scale (m : Nat) (q : Int) : Int :=
  let estimate := ((m.log2 : Int) + q) * 30103 / 100000
  if compareScaled 1 estimate m q == .gt then estimate
  else if compareScaled 1 (estimate + 1) m q == .gt then estimate + 1
  else estimate + 2

/-- The multiple of `10 ^ i` that stands for `m * 2 ^ q`, if one reads back. -/
def onGrid (f : FloatFormat) (tie : TieRule) (m : Nat) (q : Int) (i : Int) : Option Nat :=
  let low := m * 2 ^ q.toNat * 10 ^ (-i).toNat / (10 ^ i.toNat * 2 ^ (-q).toNat)
  match readsBack f m q low i, readsBack f m q (low + 1) i with
  | true, true =>
    match compareScaled (2 * low + 1) i (2 * m) q with
    | .gt => some low
    | .lt => some (low + 1)
    | .eq => some (if tie = .even ∧ low % 2 = 0 then low else low + 1)
  | true, false => some low
  | false, true => some (low + 1)
  | false, false => none

def ofScaled (a : Nat) (i : Int) : Decimal :=
  let digits := Nat.toDigits 10 a
  ⟨(digits.reverse.dropWhile (· == '0')).reverse, i + digits.length - 1⟩

def shortest (f : FloatFormat) (tie : TieRule) (m : Nat) (q : Int) : Decimal :=
  let k := scale m q
  let grids := (List.range 17).map fun n : Nat => k - 1 - (n : Int)
  match grids.findSome? fun i => (onGrid f tie m q i).map fun a => ofScaled a i with
  | some d => d
  | none => if 0 ≤ q then ofScaled (m * 2 ^ q.toNat) 0 else ofScaled (m * 5 ^ (-q).toNat) q

end Decimal

structure Spelling where
  whole : List Char
  fraction : List Char
  exponent : Option Int
  deriving DecidableEq, Repr

def Spelling.text (s : Spelling) : String :=
  String.ofList s.whole ++
    (if s.fraction.isEmpty then "" else "." ++ String.ofList s.fraction) ++
    (match s.exponent with
      | some e => "e" ++ toString e
      | none => "")

structure FloatStyle where
  tie : TieRule
  /-- Exponents of the leading digit that are written without an exponent; `none` for all. -/
  positional : Option (Int × Int)
  /-- Whether a whole number without exponent is written with `.0`. -/
  pointZero : Bool

namespace FloatStyle

def noFraction (s : FloatStyle) : List Char := if s.pointZero then ['0'] else []

def spellPositional (s : FloatStyle) (d : Decimal) : Spelling :=
  if d.exponent < 0 then
    ⟨['0'], List.replicate (-d.exponent - 1).toNat '0' ++ d.digits, none⟩
  else
    let places := d.exponent.toNat + 1
    let fraction := d.digits.drop places
    ⟨d.digits.take places ++ List.replicate (places - d.digits.length) '0',
      if fraction.isEmpty then s.noFraction else fraction, none⟩

def spellScientific (d : Decimal) : Spelling :=
  ⟨d.digits.take 1, d.digits.drop 1, some d.exponent⟩

def spell (s : FloatStyle) (f : FloatFormat) (m : Nat) (q : Int) : Spelling :=
  if m = 0 then ⟨['0'], s.noFraction, none⟩
  else
    let d := Decimal.shortest f s.tie m q
    match s.positional with
    | none => s.spellPositional d
    | some (low, high) =>
      if low ≤ d.exponent ∧ d.exponent ≤ high then s.spellPositional d else spellScientific d

def text (s : FloatStyle) (f : FloatFormat) : FloatValue → String
  | .nan => "NaN"
  | .infinite negative => if negative then "-inf" else "inf"
  | .finite negative m q => (if negative then "-" else "") ++ (s.spell f m q).text

end FloatStyle

end ObjectDocument
