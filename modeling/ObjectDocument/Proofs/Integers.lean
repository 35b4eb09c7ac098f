import ObjectDocument.Reading

/-!
# Integers from one type to another

An integer is stored in 64 bits, with or without a sign, and read at any integer type that has it.
What is read depends on the number alone and not on the form it is stored in
(`fromValue_integer_eq_ok_iff`). So a number crosses from one type to another as it is or not at
all, and what a cast would make of it (`IntType.wrap`) is never seen.
-/

namespace ObjectDocument

-- Powers are those of the core library, whatever else is imported.
attribute [local instance (2000)] instPowNat

namespace IntType

/-- What a cast to a type makes of a number: the number of the type that it is congruent to. -/
def wrap (t : IntType) (n : Int) : Int :=
  if t.signed then n.bmod (2 ^ t.width) else n % (2 ^ t.width : Nat)

def wide (t : IntType) : IntType := if t.signed then .i64 else .u64

theorem holds_wrap (t : IntType) (n : Int) : t.Holds (t.wrap n) := by
  cases t <;> simp only [wrap, Holds, min, max, signed, width, Int.bmod_def] <;> simp <;> omega

theorem wrap_eq_self_iff {t : IntType} {n : Int} : t.wrap n = n ↔ t.Holds n := by
  constructor
  · intro h
    exact h ▸ t.holds_wrap n
  · cases t <;> simp only [wrap, Holds, min, max, signed, width, Int.bmod_def] <;> simp <;> omega

example : IntType.u8.wrap (-1) = 255 ∧ IntType.i16.wrap 40000 = -25536 := by decide

theorem Holds.wide {t : IntType} {n : Int} (h : t.Holds n) : t.wide.Holds n := by
  rw [IntType.wide]
  split
  next hs => exact holds_i64 hs h
  next hs => exact holds_u64 hs h

end IntType

namespace Integer
variable {t : IntType}

theorem exists_val_iff {n : Int} : (∃ b : Integer t, b.val = n) ↔ t.Holds n :=
  ⟨fun ⟨b, hb⟩ => hb ▸ b.holds, fun h => ⟨⟨n, h⟩, rfl⟩⟩

end Integer

namespace Value

def number? : Value → Option Int
  | .int64 n => some n.val
  | .uint64 n => some n.val
  | _ => none

theorem number?_ofInteger {t : IntType} (a : Integer t) : (ofInteger a).number? = some a.val := by
  rw [ofInteger]
  split <;> rfl

theorem exists_holds {v : Value} {n : Int} (h : v.number? = some n) : ∃ t : IntType, t.Holds n := by
  cases v with
  | int64 a | uint64 a =>
    cases h
    exact ⟨_, a.holds⟩
  | _ => cases h

theorem asInt64?_eq (v : Value) : v.asInt64? = v.number?.bind (Integer.ofInt? .i64) := by
  cases v with
  | int64 n => exact n.ofInt?_val.symm
  | _ => rfl

theorem asUInt64?_eq (v : Value) : v.asUInt64? = v.number?.bind (Integer.ofInt? .u64) := by
  cases v with
  | uint64 n => exact n.ofInt?_val.symm
  | _ => rfl

theorem bind_ofInt?_eq_some_iff {t : IntType} {v : Value} {n : Integer t} :
    v.number?.bind (Integer.ofInt? t) = some n ↔ v.number? = some n.val := by
  rw [Option.bind_eq_some_iff]
  constructor
  · rintro ⟨k, hk, hn⟩
    rw [hk, Integer.ofInt?_eq_some_iff.1 hn]
  · intro h
    exact ⟨n.val, h, n.ofInt?_val⟩

end Value

theorem AtomType.ofValue?_integer (nan : WideNaN) (t : IntType) (v : Value) :
    (AtomType.integer t).ofValue? nan v = (v.number?.bind (Integer.ofInt? t)).map .integer := by
  cases v <;> rfl

namespace Catalogue
variable {Γ : Catalogue} {t : IntType} {v w : Value}

theorem fromValue_integer (Γ : Catalogue) (t : IntType) (v : Value) :
    Γ.fromValue (.atom (.integer t)) v =
      match v.number?.bind (Integer.ofInt? t) with
      | some n => .ok (.atom (.integer n))
      | none => .fail (.typeMismatch t.name v.kindName) := by
  rw [fromValue, AtomType.ofValue?_integer]
  cases v.number?.bind (Integer.ofInt? t) <;> rfl

theorem fromValue_integer_eq_ok_iff {x : Datum} : Γ.fromValue (.atom (.integer t)) v = .ok x ↔
    ∃ n : Integer t, x = .atom (.integer n) ∧ v.number? = some n.val := by
  rw [fromValue_integer]
  cases h : v.number?.bind (Integer.ofInt? t) with
  | some n =>
    have hn := Value.bind_ofInt?_eq_some_iff.1 h
    constructor
    · rintro ⟨⟩
      exact ⟨n, rfl, hn⟩
    · rintro ⟨m, rfl, hm⟩
      rw [← Value.bind_ofInt?_eq_some_iff, h] at hm
      cases hm
      rfl
  | none =>
    constructor
    · rintro ⟨⟩
    · rintro ⟨m, rfl, hm⟩
      rw [← Value.bind_ofInt?_eq_some_iff, h] at hm
      cases hm

theorem fromValue_eq_integer_iff {n : Integer t} :
    Γ.fromValue (.atom (.integer t)) v = .ok (.atom (.integer n)) ↔ v.number? = some n.val := by
  rw [fromValue_integer_eq_ok_iff]
  constructor
  · rintro ⟨m, hm, hv⟩
    cases hm
    exact hv
  · intro hv
    exact ⟨n, rfl, hv⟩

theorem fromValue_integer_eq_fail_iff :
    Γ.fromValue (.atom (.integer t)) v = .fail (.typeMismatch t.name v.kindName) ↔
      ¬ ∃ n : Integer t, v.number? = some n.val := by
  simp only [← Value.bind_ofInt?_eq_some_iff]
  rw [fromValue_integer]
  cases v.number?.bind (Integer.ofInt? t) with
  | some n => exact ⟨nofun, fun h => absurd ⟨n, rfl⟩ h⟩
  | none => exact ⟨fun _ => nofun, fun _ => rfl⟩

theorem number?_eq_iff : v.number? = w.number? ↔ ∀ (t : IntType) (x : Datum),
    Γ.fromValue (.atom (.integer t)) v = .ok x ↔ Γ.fromValue (.atom (.integer t)) w = .ok x := by
  constructor
  · intro h t x
    rw [fromValue_integer_eq_ok_iff, fromValue_integer_eq_ok_iff, h]
  · intro h
    have hread (t : IntType) (n : Integer t) : v.number? = some n.val ↔ w.number? = some n.val :=
      fromValue_eq_integer_iff.symm.trans ((h t _).trans fromValue_eq_integer_iff)
    -- what one of them holds is a number of some type, and that type reads it from the other too
    refine Option.ext fun n => ⟨fun hv => ?_, fun hw => ?_⟩
    · obtain ⟨t, ht⟩ := Value.exists_holds hv
      exact (hread t ⟨n, ht⟩).1 hv
    · obtain ⟨t, ht⟩ := Value.exists_holds hw
      exact (hread t ⟨n, ht⟩).2 hw

/-- A number crosses from any integer type to any other that has it, and is the same there. -/
theorem integers_cross (Γ : Catalogue) :
    (∀ (s t : IntType) (a : Integer s), ∃ v,
      Γ.toValue (.atom (.integer a)) = some v ∧ v.number? = some (s.wide.wrap a.val) ∧
      ((∃ x, Γ.fromValue (.atom (.integer t)) v = .ok x) ↔ t.Holds a.val) ∧
      (∀ b : Integer t, Γ.fromValue (.atom (.integer t)) v = .ok (.atom (.integer b)) ↔
        b.val = a.val) ∧
      (Γ.fromValue (.atom (.integer t)) v = .fail (.typeMismatch t.name v.kindName) ↔
        ¬ t.Holds a.val)) ∧
    (∀ (t : IntType) (v : Value) (x : Datum), Γ.fromValue (.atom (.integer t)) v = .ok x ↔
      ∃ n : Integer t, x = .atom (.integer n) ∧ v.number? = some n.val) ∧
    (∀ v w : Value, v.number? = w.number? ↔ ∀ (t : IntType) (x : Datum),
      Γ.fromValue (.atom (.integer t)) v = .ok x ↔ Γ.fromValue (.atom (.integer t)) w = .ok x) ∧
    (∀ (v : Value) (n : Integer .i64), v.asInt64? = some n ↔
      Γ.fromValue (.atom (.integer .i64)) v = .ok (.atom (.integer n))) ∧
    ∀ (v : Value) (n : Integer .u64), v.asUInt64? = some n ↔
      Γ.fromValue (.atom (.integer .u64)) v = .ok (.atom (.integer n)) := by
  refine ⟨fun s t a => ?_, fun t v x => fromValue_integer_eq_ok_iff, fun v w => number?_eq_iff,
    fun v n => ?_, fun v n => ?_⟩
  · have hv := Value.number?_ofInteger a
    have hread (b : Integer t) : (Value.ofInteger a).number? = some b.val ↔ b.val = a.val := by
      rw [hv, Option.some.injEq, eq_comm]
    have hholds : (∃ b : Integer t, (Value.ofInteger a).number? = some b.val) ↔ t.Holds a.val := by
      simp only [hread, Integer.exists_val_iff]
    refine ⟨Value.ofInteger a, rfl, ?_, ?_, fun b => fromValue_eq_integer_iff.trans (hread b),
      fromValue_integer_eq_fail_iff.trans (not_congr hholds)⟩
    · rw [hv, IntType.wrap_eq_self_iff.2 a.holds.wide]
    · rw [← hholds]
      constructor
      · rintro ⟨x, hx⟩
        obtain ⟨b, -, hb⟩ := fromValue_integer_eq_ok_iff.1 hx
        exact ⟨b, hb⟩
      · rintro ⟨b, hb⟩
        exact ⟨_, fromValue_eq_integer_iff.2 hb⟩
  · rw [fromValue_eq_integer_iff, Value.asInt64?_eq, Value.bind_ofInt?_eq_some_iff]
  · rw [fromValue_eq_integer_iff, Value.asUInt64?_eq, Value.bind_ofInt?_eq_some_iff]

end Catalogue

end ObjectDocument
