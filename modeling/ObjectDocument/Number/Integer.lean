/-!
# Fixed-width integers

An `Integer t` is a mathematical integer together with the proof that it fits the width and
signedness of `t`. Changing the type never changes the number: it succeeds exactly when the
number is in the range of the new type.
-/

namespace ObjectDocument

-- Powers are those of the core library, whatever else is imported.
attribute [local instance (2000)] instPowNat

/-- The integer types of the host. `isize` and `usize` are 64 bits wide. -/
inductive IntType
  | i8 | i16 | i32 | i64 | isize
  | u8 | u16 | u32 | u64 | usize
  deriving DecidableEq, Repr

namespace IntType

def signed : IntType → Bool
  | .i8 | .i16 | .i32 | .i64 | .isize => true
  | .u8 | .u16 | .u32 | .u64 | .usize => false

def width : IntType → Nat
  | .i8 | .u8 => 8
  | .i16 | .u16 => 16
  | .i32 | .u32 => 32
  | .i64 | .u64 | .isize | .usize => 64

def min (t : IntType) : Int :=
  if t.signed then -(2 ^ (t.width - 1) : Nat) else 0

def max (t : IntType) : Int :=
  if t.signed then (2 ^ (t.width - 1) : Nat) - 1 else (2 ^ t.width : Nat) - 1

def Holds (t : IntType) (n : Int) : Prop := t.min ≤ n ∧ n ≤ t.max

instance (t : IntType) (n : Int) : Decidable (t.Holds n) :=
  inferInstanceAs (Decidable (_ ∧ _))

def name : IntType → String
  | .i8 => "i8" | .i16 => "i16" | .i32 => "i32" | .i64 => "i64" | .isize => "isize"
  | .u8 => "u8" | .u16 => "u16" | .u32 => "u32" | .u64 => "u64" | .usize => "usize"

theorem holds_i64 {t : IntType} (signed : t.signed = true) {n : Int} (h : t.Holds n) :
    IntType.i64.Holds n := by
  cases t <;> simp [Holds, min, max, IntType.signed, width] at signed h ⊢ <;> omega

theorem holds_u64 {t : IntType} (unsigned : ¬ t.signed = true) {n : Int} (h : t.Holds n) :
    IntType.u64.Holds n := by
  cases t <;> simp [Holds, min, max, IntType.signed, width] at unsigned h ⊢ <;> omega

theorem holds_zero (t : IntType) : t.Holds 0 := by cases t <;> decide

end IntType

structure Integer (t : IntType) where
  val : Int
  holds : t.Holds val
  deriving DecidableEq

namespace Integer

variable {s t : IntType}

@[ext] theorem ext {a b : Integer t} (h : a.val = b.val) : a = b := by
  cases a; cases b; cases h; rfl

def ofInt? (t : IntType) (n : Int) : Option (Integer t) :=
  if h : t.Holds n then some ⟨n, h⟩ else none

theorem ofInt?_eq_some_iff {n : Int} {a : Integer t} : ofInt? t n = some a ↔ a.val = n := by
  unfold ofInt?
  split
  · exact ⟨fun h => by cases h; rfl, fun h => by cases a; cases h; rfl⟩
  · rename_i h
    exact ⟨nofun, fun e => absurd (e ▸ a.holds) h⟩

theorem ofInt?_val (a : Integer t) : ofInt? t a.val = some a := ofInt?_eq_some_iff.2 rfl

def zero (t : IntType) : Integer t := ⟨0, t.holds_zero⟩

def ofByte (b : UInt8) : Integer .u8 :=
  ⟨b.toNat, Int.natCast_nonneg _, Int.ofNat_le.2 (Nat.le_of_lt_succ b.toNat_lt)⟩

def toByte (n : Integer .u8) : UInt8 := UInt8.ofNat n.val.toNat

theorem toByte_ofByte (b : UInt8) : toByte (ofByte b) = b := by simp [toByte, ofByte]

instance : Inhabited (Integer t) := ⟨zero t⟩

instance : ToString (Integer t) := ⟨fun n => toString n.val⟩

end Integer

end ObjectDocument
