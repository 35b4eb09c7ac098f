import ObjectDocument.Descriptor
import ObjectDocument.Trace

/-!
# Dialogues with a mapper

A `Dialogue` is a computation that may ask the mapper it is handed for conversions and go on with
the answers, failures included. It is a tree whose branches all end, so it can be answered by any
mapper and always comes to a result; it sees nothing of the mapper but the answers. Running a
dialogue in two parts is running the parts one after the other (`run_bind`).
-/

namespace ObjectDocument

inductive Outcome
  | absent
  | unchanged (x : Datum)
  | encoded (d : Document)
  | decoded (x : Datum)
  deriving DecidableEq

namespace Outcome

def label : Outcome → String
  | .absent => "Absent"
  | .unchanged _ => "Unchanged"
  | .encoded _ => "Encoded"
  | .decoded _ => "Decoded"

def isAbsent : Outcome → Bool
  | .absent => true
  | _ => false

def document? : Outcome → Option Document
  | .encoded d => some d
  | .unchanged x => x.asDocument?
  | _ => none

end Outcome

abbrev Convert := Option Datum → Descriptor → Traced Outcome

inductive Dialogue (α : Type) where
  | done (result : Except Failure α)
  | ask (source : Option Datum) (target : Descriptor)
      (next : Except Failure Outcome → Dialogue α)

namespace Dialogue

variable {α β : Type}

def ok (a : α) : Dialogue α := .done (.ok a)

def error (e : Failure) : Dialogue α := .done (.error e)

def fail (cause : Cause) : Dialogue α := error (.here cause)

def bind : Dialogue α → (α → Dialogue β) → Dialogue β
  | .done (.ok a), f => f a
  | .done (.error e), _ => error e
  | .ask source target next, f => .ask source target fun answer => (next answer).bind f

instance : Monad Dialogue where
  pure := ok
  bind := bind

def under (segment : String) : Dialogue α → Dialogue α
  | .done result => .done (result.mapError (Failure.under segment))
  | .ask source target next => .ask source target fun answer => (next answer).under segment

def run (convert : Convert) : Dialogue α → Traced α
  | .done result => ⟨[], result⟩
  | .ask source target next =>
    let answer := convert source target
    let rest := (next answer.result).run convert
    ⟨answer.events ++ rest.events, rest.result⟩

/-! ## Laws -/

@[simp] theorem run_ok (convert : Convert) (a : α) : (ok a).run convert = .ok a := rfl

@[simp] theorem run_error (convert : Convert) (e : Failure) :
    (error e : Dialogue α).run convert = .error e := rfl

/-- What follows an answer is held with the same mapper. -/
theorem run_bind (convert : Convert) (x : Dialogue α) (f : α → Dialogue β) :
    (x >>= f).run convert = x.run convert >>= fun a => (f a).run convert := by
  show (x.bind f).run convert = (x.run convert).bind _
  induction x with
  | done result => cases result <;> simp [bind, run, Traced.bind, error]
  | ask source target next ih =>
    simp only [bind, run, ih]
    cases h : ((next (convert source target).result).run convert).result <;>
      simp [Traced.bind, h]

theorem run_under (convert : Convert) (segment : String) (x : Dialogue α) :
    (x.under segment).run convert = (x.run convert).under segment := by
  induction x with
  | done result => rfl
  | ask source target next ih => simp [under, run, ih, Traced.under]

end Dialogue

end ObjectDocument
