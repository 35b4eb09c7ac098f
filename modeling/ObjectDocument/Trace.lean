import ObjectDocument.Failure

/-!
# The events of a run

A `Traced` computation gives a result or a failure, and the events on the way to it in their
order. What was emitted before a failure stays.
-/

namespace ObjectDocument

inductive Route
  | absent
  | passThrough
  | identity
  | encode
  | decode
  /-- An object that has the target type, or may stand in for it, is returned as it is. -/
  | assignable
  | incompatible
  deriving DecidableEq, Repr

def Route.text : Route → String
  | .absent => "Absent"
  | .passThrough => "PassThrough"
  | .identity => "Identity"
  | .encode => "Encode"
  | .decode => "Decode"
  | .assignable => "Assignable"
  | .incompatible => "Incompatible"

inductive Severity
  | trace | debug | warn
  deriving DecidableEq, Repr

def Severity.text : Severity → String
  | .trace => "TRACE"
  | .debug => "DEBUG"
  | .warn => "WARN"

inductive Event
  | dispatched (target : String) (route : Route) (depth : Nat)
  | failed (target : String) (route : Route) (error : Failure)
  | fieldAbsent (entity field : String)
  | converterReplaced (entity : String)
  deriving DecidableEq, Repr

namespace Event

def severity : Event → Severity
  | .dispatched .. | .fieldAbsent .. => .trace
  | .failed .. => .debug
  | .converterReplaced .. => .warn

def parts : Event → List (String × String)
  | .dispatched target route depth =>
    [("depth", toString depth), ("message", "dispatching conversion"), ("route", route.text),
      ("to", target)]
  | .failed target route error =>
    [("error", error.text), ("message", "conversion failed"), ("route", route.text),
      ("to", target)]
  | .fieldAbsent entity field =>
    [("entity", entity), ("field", field), ("message", "field absent, keeping default")]
  | .converterReplaced entity =>
    [("entity", entity), ("message", "replacing registered entity converter")]

end Event

structure Traced (α : Type) where
  events : List Event
  result : Except Failure α

namespace Traced

variable {α β γ : Type}

def ok (a : α) : Traced α := ⟨[], .ok a⟩

def error (e : Failure) : Traced α := ⟨[], .error e⟩

def fail (cause : Cause) : Traced α := error (.here cause)

def emit (e : Event) : Traced Unit := ⟨[e], .ok ()⟩

def bind (x : Traced α) (f : α → Traced β) : Traced β :=
  match x.result with
  | .ok a => ⟨x.events ++ (f a).events, (f a).result⟩
  | .error e => ⟨x.events, .error e⟩

instance : Monad Traced where
  pure := ok
  bind := bind

def under (segment : String) (x : Traced α) : Traced α :=
  ⟨x.events, x.result.mapError (Failure.under segment)⟩

def onFailure (x : Traced α) (event : Failure → Event) : Traced α :=
  match x.result with
  | .ok _ => x
  | .error e => ⟨x.events ++ [event e], .error e⟩

/-! ## Laws -/

@[simp] theorem ok_bind (a : α) (f : α → Traced β) : ok a >>= f = f a := by
  simp [Bind.bind, bind, ok]

@[simp] theorem error_bind (e : Failure) (f : α → Traced β) : error e >>= f = error e := rfl

theorem bind_assoc (x : Traced α) (f : α → Traced β) (g : β → Traced γ) :
    x >>= f >>= g = x >>= fun a => f a >>= g := by
  obtain ⟨events, result⟩ := x
  cases result with
  | error e => rfl
  | ok a => cases h : (f a).result <;> simp [Bind.bind, bind, h]

theorem bind_eq_ok {x : Traced α} {f : α → Traced β} {b : β} :
    (x >>= f).result = .ok b ↔ ∃ a, x.result = .ok a ∧ (f a).result = .ok b := by
  obtain ⟨events, result⟩ := x
  cases result <;> simp [Bind.bind, bind]

@[simp] theorem under_result (segment : String) (x : Traced α) :
    (x.under segment).result = x.result.mapError (Failure.under segment) := rfl

@[simp] theorem under_events (segment : String) (x : Traced α) :
    (x.under segment).events = x.events := rfl

end Traced

end ObjectDocument
