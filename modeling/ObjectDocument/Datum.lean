import ObjectDocument.Ty

/-!
# Objects

A `Datum` is an object that the mapper can be handed: an atom, a document, a sequence, an option,
a box, or a value of a named type. Every datum has exactly one type. Options and boxes are
transparent: `present` is what is behind them.
-/

namespace ObjectDocument

inductive Datum where
  | unit
  | atom (a : Atom)
  | document (d : Document)
  | seq (item : Ty) (items : List Datum)
  | none (item : Ty)
  | some (inner : Datum)
  | boxed (inner : Datum)
  | variant (type name : String)
  /-- A value of any other named type, with its parts in the order of their declaration. -/
  | record (type : String) (parts : List Datum)

namespace Datum

instance : Inhabited Datum := ⟨.unit⟩

def ty : Datum → Ty
  | .unit => .unit
  | .atom a => .atom a.type
  | .document _ => .document
  | .seq item _ => .seq item
  | .none item => .option item
  | .some inner => .option inner.ty
  | .boxed inner => .box inner.ty
  | .variant type _ => .named type
  | .record type _ => .named type

/-- The innermost object behind options and boxes. -/
def present : Datum → Datum
  | .some inner => inner.present
  | .boxed inner => inner.present
  | x => x

def wrapped? : Datum → Option Datum
  | .some inner => Option.some inner
  | .boxed inner => Option.some inner
  | _ => Option.none

def parts : Datum → List Datum
  | .seq _ items => items
  | .record _ parts => parts
  | _ => []

def asDocument? : Datum → Option Document
  | .document d => Option.some d
  | _ => Option.none

@[simp] theorem present_present (x : Datum) : x.present.present = x.present := by
  induction x using present.induct <;> simp_all [present]

/-! ## Equality -/

mutual

def beq : Datum → Datum → Bool
  | .unit, .unit => true
  | .atom a, .atom b => a == b
  | .document d, .document e => d == e
  | .seq s xs, .seq t ys => s == t && beqParts xs ys
  | .none s, .none t => s == t
  | .some x, .some y => x.beq y
  | .boxed x, .boxed y => x.beq y
  | .variant s v, .variant t w => s == t && v == w
  | .record s xs, .record t ys => s == t && beqParts xs ys
  | _, _ => false

def beqParts : List Datum → List Datum → Bool
  | [], [] => true
  | x :: xs, y :: ys => x.beq y && beqParts xs ys
  | _, _ => false

end

mutual

theorem beq_iff : (x y : Datum) → (x.beq y = true ↔ x = y)
  | .seq s xs, y => by cases y <;> simp [beq, beqParts_iff xs]
  | .record s xs, y => by cases y <;> simp [beq, beqParts_iff xs]
  | .some x, y => by cases y <;> simp [beq, beq_iff x]
  | .boxed x, y => by cases y <;> simp [beq, beq_iff x]
  | .unit, y | .atom _, y | .document _, y | .none _, y | .variant _ _, y => by
    cases y <;> simp [beq]

theorem beqParts_iff : (xs ys : List Datum) → (beqParts xs ys = true ↔ xs = ys)
  | [], ys => by cases ys <;> simp [beqParts]
  | x :: xs, ys => by cases ys <;> simp [beqParts, beq_iff x, beqParts_iff xs]

end

instance : DecidableEq Datum := fun x y => decidable_of_iff _ (beq_iff x y)

end Datum

end ObjectDocument
