import ObjectDocument.Proofs.Grammar
import ObjectDocument.Proofs.Outcomes

/-!
# The log of a run

Without converters the events of a run mirror it. Reading a value tells of a dispatch for each
entity in it and of each field that is absent, in the order of the declared fields and of the items
(`Tells`). Where a value is not read, this is told up to the failing place; then each dispatch that
is still open there reports the failure as it stands at its level, the innermost first (`Breaks`).
Encoding an object is one dispatch, whatever the object is made of.
-/

namespace ObjectDocument

def Failure.within (segments : List String) (e : Failure) : Failure := segments.foldr under e

@[simp] theorem Failure.within_structural (segments path : List String) (cause : Cause) :
    (Failure.structural path cause).within segments = .structural (segments ++ path) cause := by
  induction segments with
  | nil => rfl
  | cons segment segments ih =>
    rw [within, List.foldr_cons, ← within, ih]
    rfl

/-- Whether a failure is another one, seen from further up. -/
def Failure.Raises (e raised : Failure) : Prop := ∃ segments, raised = e.within segments

theorem Failure.Raises.refl (e : Failure) : e.Raises e := ⟨[], rfl⟩

theorem Failure.Raises.under {e raised : Failure} (h : e.Raises raised) (segment : String) :
    e.Raises (raised.under segment) := by
  obtain ⟨segments, rfl⟩ := h
  exact ⟨segment :: segments, rfl⟩

/-- A dispatch that a failure leaves, with its target and the failure as it stands there. -/
abbrev Open := String × Failure

def Open.report (o : Open) : Event := .failed o.1 .decode o.2

namespace Traced
variable {α β : Type}

/-- What is known of the events of a computation that succeeds, and of the events and the failure of
one that does not. -/
def Recounts (P : List Event → Prop) (Q : List Event → Failure → Prop) (x : Traced α) : Prop :=
  match x.result with
  | .ok _ => P x.events
  | .error e => Q x.events e

namespace Recounts
variable {P R : List Event → Prop} {Q S : List Event → Failure → Prop} {x : Traced α}

theorem imp (h : x.Recounts P Q) (hp : ∀ es, P es → R es) (hq : ∀ es e, Q es e → S es e) :
    x.Recounts R S := by
  obtain ⟨events, result⟩ := x
  cases result with
  | ok a => exact hp events h
  | error e => exact hq events e h

theorem bind {f : α → Traced β} (h : x.Recounts P Q) (hq : ∀ es e, Q es e → S es e)
    (hf : ∀ es a, P es → (f a).Recounts (fun fs => R (es ++ fs)) fun fs e => S (es ++ fs) e) :
    (x >>= f).Recounts R S := by
  obtain ⟨events, result⟩ := x
  cases result with
  | ok a => exact hf events a h
  | error e => exact hq events e h

theorem map {f : α → β} (h : x.Recounts P Q) : (x >>= fun a => ok (f a)).Recounts P Q := by
  refine h.bind (fun _ _ he => he) fun es a hes => ?_
  show P (es ++ [])
  rwa [List.append_nil]

theorem under {segment : String} (h : x.Recounts P Q)
    (hs : ∀ es e, Q es e → S es (e.under segment)) : (x.under segment).Recounts P S := by
  obtain ⟨events, result⟩ := x
  cases result with
  | ok a => exact h
  | error e => exact hs events e h

theorem onFailure {event : Failure → Event} (h : x.Recounts P Q)
    (hs : ∀ es e, Q es e → S (es ++ [event e]) e) : (x.onFailure event).Recounts P S := by
  obtain ⟨events, result⟩ := x
  cases result with
  | ok a => exact h
  | error e => exact hs events e h

end Recounts

end Traced

namespace Mapper
variable (m : Mapper)

/-! ## What a run tells -/

inductive Plain : Ty → Prop where
  | unit : Plain .unit
  | anyEnum : Plain .anyEnum
  | atom (a : AtomType) : Plain (.atom a)
  | document : Plain .document
  | named {name : String} : (∀ d, m.types.find? name ≠ some (.entity d)) →
      (∀ h, m.types.find? name = some (.host h) → h.reading.AsksNothing) → Plain (.named name)

inductive Unopened : Ty → Value → Prop where
  | plain {t : Ty} {v : Value} : m.Plain t → Unopened t v
  | seq {t : Ty} {v : Value} : (∀ vs, v ≠ .array vs) → Unopened (.seq t) v
  | entity {name : String} {decl : EntityDecl} {v : Value} :
      m.types.find? name = some (.entity decl) → (∀ d, v ≠ .document d) → Unopened (.named name) v

mutual

/-- What is told of a value that is read below so many entities. -/
inductive Tells : Nat → Ty → Value → List Event → Prop where
  | plain {k : Nat} {t : Ty} {v : Value} : m.Plain t → Tells k t v []
  | seq {k : Nat} {t : Ty} {vs : List Value} {es : List Event} :
      TellsItems k t vs es → Tells k (.seq t) (.array vs) es
  | null {k : Nat} {t : Ty} : Tells k (.option t) .null []
  | some {k : Nat} {t : Ty} {v : Value} {es : List Event} :
      v ≠ .null → Tells k t v es → Tells k (.option t) v es
  | boxed {k : Nat} {t : Ty} {v : Value} {es : List Event} :
      Tells k t v es → Tells k (.box t) v es
  | entity {k : Nat} {name : String} {decl : EntityDecl} {d : Document} {es : List Event} :
      m.types.find? name = some (.entity decl) → k ≤ m.settings.maxDepth →
      TellsFields k name d decl.fields es →
      Tells k (.named name) (.document d) (.dispatched name .decode k :: es)

inductive TellsItems : Nat → Ty → List Value → List Event → Prop where
  | nil {k : Nat} {t : Ty} : TellsItems k t [] []
  | cons {k : Nat} {t : Ty} {v : Value} {vs : List Value} {es fs : List Event} :
      Tells k t v es → TellsItems k t vs fs → TellsItems k t (v :: vs) (es ++ fs)

inductive TellsField : Nat → String → Document → FieldDecl → List Event → Prop where
  | skipped {k : Nat} {name : String} {d : Document} {f : FieldDecl} :
      f.mapping = none → TellsField k name d f []
  | absent {k : Nat} {name : String} {d : Document} {f : FieldDecl} {spec : FieldSpec} :
      f.mapping = some spec → spec.required = false → d.get? spec.name = none →
      TellsField k name d f [.fieldAbsent name spec.name]
  | present {k : Nat} {name : String} {d : Document} {f : FieldDecl} {spec : FieldSpec} {v : Value}
      {es : List Event} : f.mapping = some spec → d.get? spec.name = some v →
      Tells (k + 1) f.ty v es → TellsField k name d f es

inductive TellsFields : Nat → String → Document → List FieldDecl → List Event → Prop where
  | nil {k : Nat} {name : String} {d : Document} : TellsFields k name d [] []
  | cons {k : Nat} {name : String} {d : Document} {f : FieldDecl} {fields : List FieldDecl}
      {es fs : List Event} : TellsField k name d f es → TellsFields k name d fields fs →
      TellsFields k name d (f :: fields) (es ++ fs)

end

mutual

/-- What is told of a value up to a place that is not read, the dispatches that are open there, the
innermost first, and the failure. -/
inductive Breaks : Nat → Ty → Value → List Event → List Open → Failure → Prop where
  | unread {k : Nat} {t : Ty} {v : Value} (e : Failure) : m.Unopened t v → Breaks k t v [] [] e
  | seq {k : Nat} {t : Ty} {vs : List Value} {es : List Event} {os : List Open} {e : Failure} :
      BreaksItems k t 0 vs es os e → Breaks k (.seq t) (.array vs) es os e
  | some {k : Nat} {t : Ty} {v : Value} {es : List Event} {os : List Open} {e : Failure} :
      v ≠ .null → Breaks k t v es os e → Breaks k (.option t) v es os e
  | boxed {k : Nat} {t : Ty} {v : Value} {es : List Event} {os : List Open} {e : Failure} :
      Breaks k t v es os e → Breaks k (.box t) v es os e
  | tooDeep {k : Nat} {name : String} {decl : EntityDecl} {d : Document} :
      m.types.find? name = some (.entity decl) → m.settings.maxDepth < k →
      Breaks k (.named name) (.document d) [.dispatched name .decode k]
        [(name, .here (.depthExceeded m.settings.maxDepth))]
        (.here (.depthExceeded m.settings.maxDepth))
  | entity {k : Nat} {name : String} {decl : EntityDecl} {d : Document} {es : List Event}
      {os : List Open} {e : Failure} :
      m.types.find? name = some (.entity decl) → k ≤ m.settings.maxDepth →
      BreaksFields k name d decl.fields es os e →
      Breaks k (.named name) (.document d) (.dispatched name .decode k :: es) (os ++ [(name, e)]) e

inductive BreaksItems : Nat → Ty → Nat → List Value → List Event → List Open → Failure → Prop where
  | here {k : Nat} {t : Ty} {i : Nat} {v : Value} {vs : List Value} {es : List Event}
      {os : List Open} {e : Failure} : Breaks k t v es os e →
      BreaksItems k t i (v :: vs) es os (e.under (Step.index i).text)
  | later {k : Nat} {t : Ty} {i : Nat} {v : Value} {vs : List Value} {es fs : List Event}
      {os : List Open} {e : Failure} : m.Tells k t v es → BreaksItems k t (i + 1) vs fs os e →
      BreaksItems k t i (v :: vs) (es ++ fs) os e

inductive BreaksFields :
    Nat → String → Document → List FieldDecl → List Event → List Open → Failure → Prop where
  | missing {k : Nat} {name : String} {d : Document} {f : FieldDecl} {fields : List FieldDecl}
      {spec : FieldSpec} : f.mapping = some spec → spec.required = true →
      d.get? spec.name = none →
      BreaksFields k name d (f :: fields) [] [] (.here (.missingField name spec.name))
  | here {k : Nat} {name : String} {d : Document} {f : FieldDecl} {fields : List FieldDecl}
      {spec : FieldSpec} {v : Value} {es : List Event} {os : List Open} {e : Failure} :
      f.mapping = some spec → d.get? spec.name = some v → Breaks (k + 1) f.ty v es os e →
      BreaksFields k name d (f :: fields) es os (e.under spec.name)
  | later {k : Nat} {name : String} {d : Document} {f : FieldDecl} {fields : List FieldDecl}
      {es fs : List Event} {os : List Open} {e : Failure} : m.TellsField k name d f es →
      BreaksFields k name d fields fs os e → BreaksFields k name d (f :: fields) (es ++ fs) os e

end

variable {m}

/-! ## Severities -/

mutual

theorem Tells.severity_eq {k : Nat} {t : Ty} {v : Value} {es : List Event} :
    m.Tells k t v es → ∀ event ∈ es, event.severity = .trace
  | .plain _ | .null => nofun
  | .seq h => h.severity_eq
  | .some _ h | .boxed h => h.severity_eq
  | .entity _ _ h => List.forall_mem_cons.2 ⟨rfl, h.severity_eq⟩

theorem TellsItems.severity_eq {k : Nat} {t : Ty} {vs : List Value} {es : List Event} :
    m.TellsItems k t vs es → ∀ event ∈ es, event.severity = .trace
  | .nil => nofun
  | .cons h hrest => List.forall_mem_append.2 ⟨h.severity_eq, hrest.severity_eq⟩

theorem TellsField.severity_eq {k : Nat} {name : String} {d : Document} {f : FieldDecl}
    {es : List Event} : m.TellsField k name d f es → ∀ event ∈ es, event.severity = .trace
  | .skipped _ => nofun
  | .absent _ _ _ => List.forall_mem_singleton.2 rfl
  | .present _ _ h => h.severity_eq

theorem TellsFields.severity_eq {k : Nat} {name : String} {d : Document} {fields : List FieldDecl}
    {es : List Event} : m.TellsFields k name d fields es → ∀ event ∈ es, event.severity = .trace
  | .nil => nofun
  | .cons h hrest => List.forall_mem_append.2 ⟨h.severity_eq, hrest.severity_eq⟩

end

mutual

theorem Breaks.severity_eq {k : Nat} {t : Ty} {v : Value} {es : List Event} {os : List Open}
    {e : Failure} : m.Breaks k t v es os e → ∀ event ∈ es, event.severity = .trace
  | .unread _ _ => nofun
  | .seq h => h.severity_eq
  | .some _ h | .boxed h => h.severity_eq
  | .tooDeep _ _ => List.forall_mem_singleton.2 rfl
  | .entity _ _ h => List.forall_mem_cons.2 ⟨rfl, h.severity_eq⟩

theorem BreaksItems.severity_eq {k : Nat} {t : Ty} {i : Nat} {vs : List Value} {es : List Event}
    {os : List Open} {e : Failure} :
    m.BreaksItems k t i vs es os e → ∀ event ∈ es, event.severity = .trace
  | .here h => h.severity_eq
  | .later h hrest => List.forall_mem_append.2 ⟨h.severity_eq, hrest.severity_eq⟩

theorem BreaksFields.severity_eq {k : Nat} {name : String} {d : Document}
    {fields : List FieldDecl} {es : List Event} {os : List Open} {e : Failure} :
    m.BreaksFields k name d fields es os e → ∀ event ∈ es, event.severity = .trace
  | .missing _ _ _ => nofun
  | .here _ _ h => h.severity_eq
  | .later h hrest => List.forall_mem_append.2 ⟨h.severity_eq, hrest.severity_eq⟩

end

/-! ## Failures on the way up -/

mutual

theorem Breaks.raises {k : Nat} {t : Ty} {v : Value} {es : List Event} {os : List Open}
    {e : Failure} : m.Breaks k t v es os e →
      (os.Pairwise fun o o' => o.2.Raises o'.2) ∧ ∀ o ∈ os, o.2.Raises e
  | .unread _ _ => ⟨.nil, nofun⟩
  | .seq h => h.raises
  | .some _ h | .boxed h => h.raises
  | .tooDeep _ _ => ⟨List.pairwise_singleton _ _, List.forall_mem_singleton.2 (.refl _)⟩
  | .entity _ _ h => by
    obtain ⟨hpairs, hlast⟩ := h.raises
    refine ⟨List.pairwise_append.2 ⟨hpairs, List.pairwise_singleton _ _, fun o ho o' ho' => ?_⟩,
      List.forall_mem_append.2 ⟨hlast, List.forall_mem_singleton.2 (.refl _)⟩⟩
    cases List.mem_singleton.1 ho'
    exact hlast o ho

theorem BreaksItems.raises {k : Nat} {t : Ty} {i : Nat} {vs : List Value} {es : List Event}
    {os : List Open} {e : Failure} : m.BreaksItems k t i vs es os e →
      (os.Pairwise fun o o' => o.2.Raises o'.2) ∧ ∀ o ∈ os, o.2.Raises e
  | .here h => ⟨h.raises.1, fun o ho => (h.raises.2 o ho).under _⟩
  | .later _ hrest => hrest.raises

theorem BreaksFields.raises {k : Nat} {name : String} {d : Document} {fields : List FieldDecl}
    {es : List Event} {os : List Open} {e : Failure} : m.BreaksFields k name d fields es os e →
      (os.Pairwise fun o o' => o.2.Raises o'.2) ∧ ∀ o ∈ os, o.2.Raises e
  | .missing _ _ _ => ⟨.nil, nofun⟩
  | .here _ _ h => ⟨h.raises.1, fun o ho => (h.raises.2 o ho).under _⟩
  | .later _ hrest => hrest.raises

end

def Stops (R : List Event → List Open → Failure → Prop) (es : List Event) (e : Failure) : Prop :=
  ∃ told os, es = told ++ os.map Open.report ∧ R told os e

theorem Stops.after {R S : List Event → List Open → Failure → Prop} {fs : List Event}
    {e raised : Failure} (h : Stops R fs e) (es : List Event)
    (hrs : ∀ told os, R told os e → S (es ++ told) os raised) : Stops S (es ++ fs) raised := by
  obtain ⟨told, os, rfl, hr⟩ := h
  exact ⟨es ++ told, os, (List.append_assoc _ _ _).symm, hrs told os hr⟩

theorem Stops.imp {R S : List Event → List Open → Failure → Prop} {es : List Event}
    {e raised : Failure} (h : Stops R es e) (hrs : ∀ told os, R told os e → S told os raised) :
    Stops S es raised := h.after [] hrs

theorem Stops.nil {R : List Event → List Open → Failure → Prop} {e : Failure} (h : R [] [] e) :
    Stops R [] e := ⟨[], [], rfl, h⟩

def ReadsDirectly (m : Mapper) (t : Ty) : Prop :=
  ∀ name h, m.Occurs t (.named name) → m.types.find? name = some (.host h) →
    h.reading.AsksNothing

theorem ReadsDirectly.of_occurs {t u : Ty} (h : m.ReadsDirectly t) (hu : m.Occurs t u) :
    m.ReadsDirectly u := fun name host hn => h name host (hu.trans hn)

section
variable {stage : Stage}

end

end Mapper

end ObjectDocument
