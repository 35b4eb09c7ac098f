import ObjectDocument.Mapper.Setup
import ObjectDocument.Proofs.Stages

/-!
# The route that is told and the route that is taken

A conversion takes options and boxes off its source before it chooses a route; the route that can be
asked for is that of the source as it is. What a source holds, what type it answers with and whether
it is null show through options and boxes, but whether it is a document does not. So the two routes
differ for a document behind an option or a box, and for no other source.
-/

namespace ObjectDocument.Mapper
variable {m : Mapper} {stage : Stage} {source : Option Datum} {target : Descriptor}

/-- What a conversion gives on a route, the result of encoding and of decoding included. -/
inductive Taken (m : Mapper) (stage : Stage) (target : Descriptor) :
    Option Datum → Route → Except Failure Outcome → Prop where
  | nothing : Taken m stage target none .absent (.ok .absent)
  | null (x : Datum) : m.types.isNull x = true →
      Taken m stage target (some x) .absent (.ok .absent)
  | passThrough (x : Datum) :
      Taken m stage target (some x) .passThrough (.ok (.unchanged x.present))
  | identity (x : Datum) (d : Document) : x.present = .document d →
      Taken m stage target (some x) .identity (.ok (.unchanged (.document d)))
  | assignable (x : Datum) :
      Taken m stage target (some x) .assignable (.ok (.unchanged x.present))
  | encode (x : Datum) :
      Taken m stage target (some x) .encode ((stage.encode x.present).result.map .encoded)
  | decode (x : Datum) (d : Document) : x.present = .document d →
      Taken m stage target (some x) .decode ((stage.decode d target).result.map .decoded)
  | incompatible (x : Datum) : Taken m stage target (some x) .incompatible
      (.error (.incompatible (m.types.typeOf x).name target.name))

theorem exists_document_of_route {x : Datum}
    (h : m.route (some x) target = .identity ∨ m.route (some x) target = .decode) :
    ∃ d, x = .document d := by
  have hd : x.asDocument?.isSome = true := by
    simp only [route] at h
    grind
  cases x with
  | document d => exact ⟨d, rfl⟩
  | _ => cases hd

theorem isNull_of_route {x : Datum} (h : m.route (some x) target = .absent) :
    m.types.isNull x = true := by
  simp only [route] at h
  grind

theorem not_value_of_route {x : Datum} (h : m.route (some x) target = .encode) :
    m.types.isNull x = false ∧ m.valueTypes.covers (m.types.typeOf x) = false := by
  simp only [route] at h
  grind

theorem convertAt_present (x : Datum) :
    m.convertAt stage (some x.present) target = m.convertAt stage (some x) target := by
  simp only [convertAt, Option.map_some, Datum.present_present]

theorem convertAt_taken (stage : Stage) (source : Option Datum) (target : Descriptor) :
    m.Taken stage target source (m.route (source.map Datum.present) target)
      (m.convertAt stage source target).result := by
  cases source with
  | none => exact .nothing
  | some x =>
    simp only [Option.map_some]
    cases hr : m.route (some x.present) target with
    | absent =>
      rw [convertAt_absent hr]
      exact .null x (by simpa using isNull_of_route hr)
    | passThrough =>
      rw [convertAt_passThrough hr]
      exact .passThrough x
    | identity =>
      obtain ⟨d, hd⟩ := exists_document_of_route (.inl hr)
      have hresult : (m.convertAt stage (some x) target).result = .ok (.unchanged x.present) := by
        simp [convertAt, hr, Traced.ok]
      rw [hresult, hd]
      exact .identity x d hd
    | encode =>
      rw [convertAt_encode hr]
      exact .encode x
    | decode =>
      obtain ⟨d, hd⟩ := exists_document_of_route (.inr hr)
      rw [hd] at hr
      rw [← convertAt_present, hd, convertAt_decode hr]
      exact .decode x d hd
    | assignable =>
      have hresult : (m.convertAt stage (some x) target).result = .ok (.unchanged x.present) := by
        simp [convertAt, hr, Traced.ok]
      rw [hresult]
      exact .assignable x
    | incompatible =>
      have hresult : (m.convertAt stage (some x) target).result =
          .error (.incompatible (m.types.typeOf x).name target.name) := by
        simp [convertAt, hr, Traced.error]
      rw [hresult]
      exact .incompatible x

/-! ## Documents behind options and boxes -/

/-- Whether a source is a document to be converted, behind an option or a box. -/
def HidesDocument (m : Mapper) (source : Option Datum) : Prop :=
  ¬ m.DocumentsAreValues ∧ ∃ x d, source = some x ∧ x.present = .document d ∧ x ≠ .document d

theorem route_document (hv : ¬ m.DocumentsAreValues) (d : Document) (target : Descriptor) :
    m.route (some (.document d)) target =
      if target.isDocument then .identity else .decode := by
  have hcovers : m.valueTypes.covers (m.types.typeOf (.document d)) = false := covers_document hv
  have hnull : m.types.isNull (.document d) = false := rfl
  simp only [route, hnull, hcovers, Datum.asDocument?]
  rfl

theorem route_document_ne_encode (d : Document) (target : Descriptor) :
    m.route (some (.document d)) target ≠ .encode := by
  intro h
  obtain ⟨-, hcovers⟩ := not_value_of_route h
  have hv : ¬ m.DocumentsAreValues := by
    intro hv
    have hkind : m.valueTypes.contains (m.types.typeOf (.document d)).id = true := hv
    simp [ValueTypes.covers, hkind] at hcovers
  rw [route_document hv] at h
  split at h <;> cases h

theorem route_present_of_ne {x : Datum} (h : ∀ d, x.present ≠ .document d) :
    m.route (some x.present) target = m.route (some x) target := by
  have hnone : ∀ y : Datum, (∀ d, y ≠ .document d) → y.asDocument? = none := by
    intro y hy
    cases y with
    | document d => exact absurd rfl (hy d)
    | _ => rfl
  have hpresent := hnone x.present h
  have hself : x.asDocument? = none := by
    refine hnone x fun d hx => ?_
    subst hx
    exact h d rfl
  simp only [route, Catalogue.isNull_present, Catalogue.typeOf_present, hpresent, hself]

theorem route_passThrough (hv : m.DocumentsAreValues) {x : Datum} {d : Document}
    (hd : x.present = .document d) : m.route (some x) target = .passThrough := by
  have hnull : m.types.isNull x = false := by
    rw [← Catalogue.isNull_present, hd]
    rfl
  have hcovers : m.valueTypes.covers (m.types.typeOf x) = true := by
    rw [← Catalogue.typeOf_present, hd]
    simp only [DocumentsAreValues] at hv
    simp [ValueTypes.covers, Catalogue.typeOf, Datum.ty, Catalogue.descriptor, Descriptor.of, hv]
  simp [route, hnull, hcovers]

theorem route_present_iff (x : Datum) :
    m.route (some x) target = m.route (some x.present) target ↔ ¬ m.HidesDocument (some x) := by
  by_cases hd : ∃ d, x.present = .document d
  case neg =>
    refine ⟨fun _ ⟨_, y, d, hy, hp, _⟩ => ?_, fun _ => (route_present_of_ne ?_).symm⟩
    · cases hy
      exact hd ⟨d, hp⟩
    · exact fun d he => hd ⟨d, he⟩
  obtain ⟨d, hd⟩ := hd
  by_cases hv : m.DocumentsAreValues
  · -- a document that is a value passes through, whatever it is behind of
    have hpresent : m.route (some x.present) target = .passThrough :=
      route_passThrough hv (by rw [Datum.present_present, hd])
    exact ⟨fun _ h => h.1 hv, fun _ => (route_passThrough hv hd).trans hpresent.symm⟩
  constructor
  · -- the route that is taken is one for documents, so it is told only for a document
    rintro heq ⟨-, y, e, hy, he, hne⟩
    cases hy
    have hroute : m.route (some x) target = .identity ∨ m.route (some x) target = .decode := by
      rw [heq, hd, route_document hv]
      cases target.isDocument <;> simp
    obtain ⟨e', rfl⟩ := exists_document_of_route hroute
    exact hne he
  · intro h
    by_cases hx : x = .document d
    · rw [hx]
      rfl
    · exact (h ⟨hv, x, d, rfl, hd, hx⟩).elim

/-- The route that is told is the one that a conversion takes, except for a document behind an
option or a box. -/
theorem route_eq_taken_iff (m : Mapper) (source : Option Datum) (target : Descriptor) :
    (∃ rest, (m.convert source target).events =
      .dispatched target.name (m.route (source.map Datum.present) target) 0 :: rest) ∧
    m.Taken (m.stage (m.settings.maxDepth + 1)) target source
      (m.route (source.map Datum.present) target) (m.convert source target).result ∧
    (m.route source target = m.route (source.map Datum.present) target ↔
      ¬ m.HidesDocument source) := by
  refine ⟨?_, convertAt_taken _ source target, ?_⟩
  · have hdepth : (m.stage (m.settings.maxDepth + 1)).depth = 0 := by
      rw [m.stage_depth (Nat.le_refl _), Nat.sub_self]
    rw [← hdepth]
    exact ⟨_, rfl⟩
  · cases source with
    | none =>
      refine ⟨fun _ h => ?_, fun _ => rfl⟩
      obtain ⟨-, x, d, he, -⟩ := h
      cases he
    | some x => exact route_present_iff x

/-- A boxed document is returned as it is where a document is asked for, and decoded where something
else is, but it is told to be encoded, or to be incompatible. -/
theorem route_boxed_document :
    let m := standard ⟨[], .quiet⟩
    let source := some (Datum.boxed (.document .empty))
    let document := m.types.descriptor .document
    let unit := m.types.descriptor .unit
    m.route source document = .encode ∧
      (m.convert source document).events = [.dispatched document.name .identity 0] ∧
      (m.convert source document).result = .ok (.unchanged (.document .empty)) ∧
      m.route source unit = .incompatible ∧
      (m.convert source unit).events.head? = some (.dispatched unit.name .decode 0) ∧
      (m.convert source unit).result = .error (.here (.uninstantiable unit.name)) :=
  ⟨rfl, rfl, rfl, rfl, rfl, rfl⟩

end ObjectDocument.Mapper
