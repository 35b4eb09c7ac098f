/-!
# Binary floating-point numbers as bit patterns

A number of the 32-bit or 64-bit format is its bits, so that equality of numbers is equality of
bits. Arithmetic decodes the bits into a sign, a significand and a power of two, works exactly,
and rounds once to the nearest representable number, ties to the even one.
-/

namespace ObjectDocument

-- Powers are those of the core library, whatever else is imported.
attribute [local instance (2000)] instPowNat

structure FloatFormat where
  precision : Nat
  exponentWidth : Nat

/-- What a bit pattern stands for: `finite negative m q` is `± m * 2 ^ q`. -/
inductive FloatValue
  | nan
  | infinite (negative : Bool)
  | finite (negative : Bool) (significand : Nat) (exponent : Int)
  deriving DecidableEq, Repr

namespace FloatFormat

def binary32 : FloatFormat := ⟨24, 8⟩
def binary64 : FloatFormat := ⟨53, 11⟩

def hidden (f : FloatFormat) : Nat := 2 ^ (f.precision - 1)

def signBit (f : FloatFormat) : Nat := 2 ^ (f.precision - 1 + f.exponentWidth)

def infinity (f : FloatFormat) : Nat := (2 ^ f.exponentWidth - 1) * f.hidden

def quietNaN (f : FloatFormat) : Nat := f.infinity + f.hidden / 2

def minExponent (f : FloatFormat) : Int := 3 - (2 ^ (f.exponentWidth - 1) : Nat) - f.precision

def decode (f : FloatFormat) (bits : Nat) : FloatValue :=
  let negative := decide (f.signBit ≤ bits)
  let magnitude := bits % f.signBit
  let field := magnitude / f.hidden
  let fraction := magnitude % f.hidden
  if f.infinity < magnitude then .nan
  else if magnitude = f.infinity then .infinite negative
  else if field = 0 then .finite negative fraction f.minExponent
  else .finite negative (f.hidden + fraction) (f.minExponent + field - 1)

/-- The bits of the number nearest to `num / den`, of two equally near the even one. What is too
large becomes infinite. -/
def roundQuotient (f : FloatFormat) (num den : Nat) : Nat :=
  if num = 0 then 0
  else
    let estimate : Int := (num.log2 : Int) - den.log2
    let leading := if den * 2 ^ estimate.toNat ≤ num * 2 ^ (-estimate).toNat
      then estimate else estimate - 1
    let unit := max f.minExponent (leading - f.precision + 1)
    let n := num * 2 ^ (-unit).toNat
    let d := den * 2 ^ unit.toNat
    let rounded := if d < 2 * (n % d) ∨ (2 * (n % d) = d ∧ n / d % 2 = 1)
      then n / d + 1 else n / d
    min f.infinity ((unit - f.minExponent).toNat * f.hidden + rounded)

def roundScaled (f : FloatFormat) (m : Nat) (q : Int) : Nat :=
  f.roundQuotient (m * 2 ^ q.toNat) (2 ^ (-q).toNat)

def withSign (f : FloatFormat) (negative : Bool) (magnitude : Nat) : Nat :=
  if negative then f.signBit + magnitude else magnitude

def encode (f : FloatFormat) : FloatValue → Nat
  | .nan => f.quietNaN
  | .infinite negative => f.withSign negative f.infinity
  | .finite negative m q => f.withSign negative (f.roundScaled m q)

def mul (f : FloatFormat) : FloatValue → FloatValue → Nat
  | .nan, _ | _, .nan => f.quietNaN
  | .infinite s, .infinite t => f.withSign (s != t) f.infinity
  | .infinite s, .finite t m _ | .finite s m _, .infinite t =>
    if m = 0 then f.quietNaN else f.withSign (s != t) f.infinity
  | .finite s m q, .finite t n r => f.withSign (s != t) (f.roundScaled (m * n) (q + r))

def div (f : FloatFormat) : FloatValue → FloatValue → Nat
  | .nan, _ | _, .nan | .infinite _, .infinite _ => f.quietNaN
  | .infinite s, .finite t _ _ => f.withSign (s != t) f.infinity
  | .finite s _ _, .infinite t => f.withSign (s != t) 0
  | .finite s m q, .finite t n r =>
    if n = 0 then if m = 0 then f.quietNaN else f.withSign (s != t) f.infinity
    else f.withSign (s != t)
      (f.roundQuotient (m * 2 ^ (q - r).toNat) (n * 2 ^ (r - q).toNat))

end FloatFormat

structure Binary64 where
  bits : UInt64
  deriving DecidableEq

structure Binary32 where
  bits : UInt32
  deriving DecidableEq

namespace Binary64

def ofBits (n : Nat) : Binary64 := ⟨UInt64.ofNat n⟩

def value (x : Binary64) : FloatValue := FloatFormat.binary64.decode x.bits.toNat

def nan : Binary64 := ofBits FloatFormat.binary64.quietNaN

instance : Inhabited Binary64 := ⟨ofBits 0⟩

def ofNat (n : Nat) : Binary64 := ofBits (FloatFormat.binary64.roundQuotient n 1)

def neg (x : Binary64) : Binary64 := ⟨x.bits ^^^ 0x8000000000000000⟩

def mul (x y : Binary64) : Binary64 := ofBits (FloatFormat.binary64.mul x.value y.value)

def div (x y : Binary64) : Binary64 := ofBits (FloatFormat.binary64.div x.value y.value)

def isFinite (x : Binary64) : Bool := x.value matches .finite ..

def isZero (x : Binary64) : Bool := x.value matches .finite _ 0 _

def isNaN (x : Binary64) : Bool := x.value matches .nan

def numEq (x y : Binary64) : Bool := !x.isNaN && !y.isNaN && (x == y || (x.isZero && y.isZero))

end Binary64

namespace Binary32

def ofBits (n : Nat) : Binary32 := ⟨UInt32.ofNat n⟩

def value (x : Binary32) : FloatValue := FloatFormat.binary32.decode x.bits.toNat

def nan : Binary32 := ofBits FloatFormat.binary32.quietNaN

instance : Inhabited Binary32 := ⟨ofBits 0⟩

def ofNat (n : Nat) : Binary32 := ofBits (FloatFormat.binary32.roundQuotient n 1)

def neg (x : Binary32) : Binary32 := ⟨x.bits ^^^ 0x80000000⟩

def isFinite (x : Binary32) : Bool := x.value matches .finite ..

def isZero (x : Binary32) : Bool := x.value matches .finite _ 0 _

def isNaN (x : Binary32) : Bool := x.value matches .nan

def numEq (x y : Binary32) : Bool := !x.isNaN && !y.isNaN && (x == y || (x.isZero && y.isZero))

end Binary32

/-- Which NaN of 64 bits each one of 32 bits becomes: any, for all that programs can rely on. -/
abbrev WideNaN := Binary32 → {x : Binary64 // x.isNaN = true}

def WideNaN.quiet : WideNaN := fun _ => ⟨.nan, by decide⟩

def Binary32.widen (nan : WideNaN) (x : Binary32) : Binary64 :=
  if x.isNaN then nan x else .ofBits (FloatFormat.binary64.encode x.value)

namespace Binary64

def narrow (x : Binary64) : Binary32 := .ofBits (FloatFormat.binary32.encode x.value)

/-- The same number with 32 bits, if there is one. No NaN has one. -/
def narrow? (nan : WideNaN) (x : Binary64) : Option Binary32 :=
  if (x.narrow.widen nan).numEq x then some x.narrow else none

end Binary64

end ObjectDocument
