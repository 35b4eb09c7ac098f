import ObjectDocument.Proofs.RoundTrip
import ObjectDocument.Proofs.Routing

/-!
# What a conversion gives

Without converters a conversion is told by what its source holds, the target and the settings:
nothing for nothing, a value or a document as it is, a document of an object, an object of a
document, or a refusal (`convert_classified`). The refusal is always of the conversion as a whole.
All conversions that are taken up within one decode documents, and what fails in them fails at some
place (`Located`, kept from stage to stage by `stage_decode_located`); an object that is asked for
by its type is of the type when it comes.
-/

namespace ObjectDocument

def Failure.IsStructural (e : Failure) : Prop := ∃ path cause, e = .structural path cause

theorem Failure.IsStructural.under {e : Failure} (h : e.IsStructural) (segment : String) :
    (e.under segment).IsStructural := by
  obtain ⟨path, cause, rfl⟩ := h
  exact ⟨segment :: path, cause, rfl⟩

def Event.Decodes : Event → Prop
  | .dispatched _ route _ => route = .decode
  | .failed _ _ e => e.IsStructural
  | .fieldAbsent _ _ | .converterReplaced _ => True

namespace Traced
variable {α β : Type}

/-- Whether a computation takes up conversions only of documents, and gives something of a kind or
fails at some place. -/
structure Located (P : α → Prop) (x : Traced α) : Prop where
  events : ∀ event ∈ x.events, event.Decodes
  gives : x.Gives P Failure.IsStructural

namespace Located
variable {P : α → Prop} {Q : β → Prop} {x : Traced α}

theorem ok {a : α} (h : P a) : (ok a).Located P := ⟨nofun, h⟩

theorem fail (cause : Cause) : (Traced.fail cause).Located P := ⟨nofun, [], cause, rfl⟩

theorem bind {f : α → Traced β} (h : x.Located P) (hf : ∀ a, P a → (f a).Located Q) :
    (x >>= f).Located Q := by
  obtain ⟨events, result⟩ := x
  refine ⟨fun event he => ?_, h.gives.bind fun a ha => (hf a ha).gives⟩
  cases result with
  | error e => exact h.events event he
  | ok a =>
    rcases List.mem_append.1 he with he | he
    · exact h.events event he
    · exact (hf a h.gives).events event he

theorem map {f : α → β} (h : x.Located P) (hf : ∀ a, P a → Q (f a)) :
    (x >>= fun a => Traced.ok (f a)).Located Q := h.bind fun a ha => .ok (hf a ha)

theorem under {segment : String} (h : x.Located P) : (x.under segment).Located P :=
  ⟨h.events, h.gives.under fun _ he => he.under segment⟩

theorem onFailure (h : x.Located P) (name : String) (route : Route) :
    (x.onFailure (.failed name route)).Located P := by
  obtain ⟨events, result⟩ := x
  cases result with
  | ok a => exact h
  | error e =>
    refine ⟨fun event he => ?_, h.gives⟩
    rcases List.mem_append.1 he with he | he
    · exact h.events event he
    · cases List.mem_singleton.1 he
      exact h.gives

end Located

end Traced

namespace Mapper
variable {m : Mapper} {stage : Stage}

/-! ## Types of built-in and derived types -/

/-- Whether every named type among those that a type is made of is an entity or a value enum. -/
def Declared (m : Mapper) (t : Ty) : Prop :=
  ∀ name, m.Occurs t (.named name) →
    (∃ d, m.types.find? name = some (.entity d)) ∨ ∃ d, m.types.find? name = some (.enum d)

theorem Declared.of_occurs {t u : Ty} (h : m.Declared t) (hu : m.Occurs t u) : m.Declared u :=
  fun name hn => h name (hu.trans hn)

/-! ## Reading -/

def LocatesEntities (m : Mapper) (stage : Stage) : Prop :=
  ∀ name decl d, m.types.find? name = some (.entity decl) → m.Declared (.named name) →
    (stage.decode d (m.types.descriptor (.named name))).Located fun x => x.ty = .named name

theorem convertAt_document (hv : ¬ m.DocumentsAreValues) {d : Document} {target : Descriptor}
    (ht : target.isDocument = false) :
    m.convertAt stage (some (.document d)) target =
      Traced.emit (.dispatched target.name .decode stage.depth) >>= fun _ =>
        (stage.decode d target >>= fun x => .ok (.decoded x)).onFailure
          (.failed target.name .decode) := by
  have hroute : m.route (some (.document d)) target = .decode := by
    rw [route_document hv, ht]
    rfl
  simp only [convertAt, Option.map_some, Datum.present, hroute, Datum.asDocument?]
  rfl

theorem convertAt_located (hv : ¬ m.DocumentsAreValues) {P : Datum → Prop} {d : Document}
    {target : Descriptor} (ht : target.isDocument = false)
    (h : (stage.decode d target).Located P) :
    (m.convertAt stage (some (.document d)) target).Located
      fun outcome => ∃ x, outcome = .decoded x ∧ P x := by
  have hresult := (h.map (f := Outcome.decoded)
    (Q := fun outcome => ∃ x, outcome = .decoded x ∧ P x) fun x hx => ⟨x, rfl, hx⟩).onFailure
      target.name .decode
  have hemit : (Traced.emit (.dispatched target.name .decode stage.depth)).Located
      fun _ => True := by
    refine ⟨fun event he => ?_, trivial⟩
    cases List.mem_singleton.1 he
    rfl
  rw [convertAt_document hv ht]
  exact hemit.bind fun _ _ => hresult

theorem fromDocument_located (hv : ¬ m.DocumentsAreValues) {t : Ty} {d : Document}
    (ht : (m.types.descriptor t).isDocument = false)
    (h : (stage.decode d (m.types.descriptor t)).Located fun x =>
      ∃ y, m.types.receive t x = .ok y ∧ y.ty = t) :
    ((m.types.fromDocument t d).run (m.convertAt stage)).Located fun y => y.ty = t := by
  obtain ⟨hevents, hgives⟩ := convertAt_located hv ht h
  generalize hanswer : m.convertAt stage (some (.document d)) (m.types.descriptor t) = answer
    at hevents hgives
  obtain ⟨events, result⟩ := answer
  simp only [Catalogue.fromDocument, Dialogue.run, hanswer]
  cases result with
  | error e =>
    refine ⟨fun event he => hevents event ?_, hgives⟩
    simpa [Dialogue.error, Dialogue.run] using he
  | ok outcome =>
    -- only a decoded object comes as an answer, and it is taken over
    obtain ⟨x, rfl, y, hy, hty⟩ := hgives
    refine ⟨fun event he => hevents event ?_, ?_⟩
    · simpa [Dialogue.run] using he
    · simpa [Dialogue.run, hy, Traced.Gives] using hty

theorem readItems_located {t : Ty} (h : ∀ v, (m.readValue stage t v).Located fun _ => True)
    (i : Nat) (vs : List Value) : (m.readItems stage t i vs).Located fun _ => True := by
  induction vs generalizing i with
  | nil => exact .ok trivial
  | cons v rest ih => exact (h v).under.bind fun _ _ => (ih (i + 1)).map fun _ _ => trivial

theorem readValue_located (hv : ¬ m.DocumentsAreValues) (hs : m.LocatesEntities stage) {t : Ty}
    (ht : m.Declared t) (v : Value) : (m.readValue stage t v).Located fun _ => True := by
  induction t generalizing v with
  | unit | anyEnum => exact .fail _
  | atom a =>
    rw [readValue_atom]
    cases a.ofValue? m.types.wideNaN v with
    | some b => exact .ok trivial
    | none => exact .fail _
  | document =>
    rw [readValue_document]
    cases v.asDocument? with
    | some d => exact .ok trivial
    | none => exact .fail _
  | seq t ih =>
    rw [readValue_seq]
    cases v.asArray? with
    | some vs =>
      exact (readItems_located (ih (ht.of_occurs (.seq (.refl _)))) 0 vs).map fun _ _ => trivial
    | none => exact .fail _
  | option t ih =>
    rw [readValue_option]
    split
    · exact .ok trivial
    · exact (ih (ht.of_occurs (.option (.refl _))) v).map fun _ _ => trivial
  | box t ih =>
    rw [readValue_box]
    exact (ih (ht.of_occurs (.box (.refl _))) v).map fun _ _ => trivial
  | named name =>
    rcases ht name (.refl _) with ⟨decl, hd⟩ | ⟨decl, hd⟩
    · have hk : m.types.KeptNested name := .inl ⟨decl, hd⟩
      simp only [readValue, Catalogue.fromValue, hk.readNamed_eq]
      cases v with
      | document d =>
        have hdecode := hs name decl d hd ht
        have hread := fromDocument_located hv hk.isDocument_eq_false (t := .named name)
          ⟨hdecode.events, hdecode.gives.imp
            (fun x hx => ⟨x, Catalogue.receive_eq_ok.2 ⟨hx, rfl⟩, hx⟩) fun _ he => he⟩
        exact ⟨hread.events, hread.gives.imp (fun _ _ => trivial) fun _ he => he⟩
      | _ => exact .fail _
    · rw [readValue_enum hd]
      cases v.asName? with
      | none => exact .fail _
      | some s =>
        dsimp only
        cases decl.variant? s with
        | some variant => exact .ok trivial
        | none => exact .fail _

theorem readParts_located (hv : ¬ m.DocumentsAreValues) (hs : m.LocatesEntities stage)
    (name : String) (d : Document) {fields : List FieldDecl}
    (ht : ∀ f ∈ fields, f.mapping.isSome → m.Declared f.ty) :
    (m.readParts stage name d fields).Located fun _ => True := by
  induction fields with
  | nil => exact .ok trivial
  | cons f fields ih =>
    have hpart : (m.readPart stage name d f).Located fun _ => True := by
      rw [readPart]
      cases hf : f.mapping with
      | none => exact .ok trivial
      | some spec =>
        dsimp only
        cases d.get? spec.name with
        | some v => exact (readValue_located hv hs (ht f (by simp) (by simp [hf])) v).under
        | none =>
          cases spec.required with
          | true => exact .fail _
          | false =>
            have hemit : (Traced.emit (.fieldAbsent name spec.name)).Located fun _ => True := by
              refine ⟨fun event he => ?_, trivial⟩
              cases List.mem_singleton.1 he
              trivial
            exact hemit.bind fun _ _ => .ok trivial
    have hrest := ih fun g hg => ht g (List.mem_cons_of_mem f hg)
    exact hpart.bind fun _ _ => hrest.map fun _ _ => trivial

/-! ## All stages -/

theorem decode_entity_located (hc : m.converters = .empty) (hv : ¬ m.DocumentsAreValues)
    (hs : m.LocatesEntities stage) {name : String} {decl : EntityDecl}
    (hd : m.types.find? name = some (.entity decl)) (ht : m.Declared (.named name)) (d : Document) :
    (m.decode (some stage) d (m.types.descriptor (.named name))).Located
      fun x => x.ty = .named name := by
  rw [decode_entity hd (find?_of_empty hc _)]
  have hparts := readParts_located hv hs name d fun f hf hm => ht.of_occurs (.part hc hd hf hm)
  exact hparts.map fun _ _ => rfl

theorem stage_locatesEntities (hc : m.converters = .empty) (hv : ¬ m.DocumentsAreValues)
    (room : Nat) : m.LocatesEntities (m.stage room) := by
  induction room with
  | zero => exact fun _ _ _ _ _ => .fail _
  | succ room ih => exact fun _ _ d hd ht => decode_entity_located hc hv ih hd ht d

theorem stage_decode_located (hc : m.converters = .empty) (hv : ¬ m.DocumentsAreValues)
    (room : Nat) {t : Ty} (ht : m.Declared t) (d : Document) :
    ((m.stage room).decode d (m.types.descriptor t)).Located fun x =>
      ∃ y, m.types.receive t x = .ok y ∧ y.ty = t := by
  have hnone {target : Descriptor} (hs : target.schema? = none) {P : Datum → Prop} :
      ((m.stage room).decode d target).Located P := by
    cases room with
    | zero => exact .fail _
    | succ room =>
      have hf : m.converters.find? target = none := by
        rw [hc]
        rfl
      simp only [stage, decode, hf, hs]
      exact .fail _
  induction t with
  | unit | document | seq _ | option _ | anyEnum => exact hnone rfl
  | atom a => exact hnone (by cases a <;> rfl)
  | box t ih =>
    have hinner := ih (ht.of_occurs (.box (.refl _)))
    refine ⟨hinner.events, hinner.gives.imp ?_ fun _ he => he⟩
    rintro x ⟨y, hy, hty⟩
    exact ⟨.boxed y, by simp [Catalogue.receive, hy, Except.map], by rw [Datum.ty, hty]⟩
  | named name =>
    rcases ht name (.refl _) with ⟨decl, hd⟩ | ⟨decl, hd⟩
    · have hdecode := stage_locatesEntities hc hv room name decl d hd ht
      refine ⟨hdecode.events, hdecode.gives.imp (fun x hx => ?_) fun _ he => he⟩
      exact ⟨x, Catalogue.receive_eq_ok.2 ⟨hx, rfl⟩, hx⟩
    · exact hnone (by simp [Catalogue.descriptor, hd, Descriptor.schema?, Descriptor.standingInFor,
        Descriptor.of])

theorem stage_encode_located (hc : m.converters = .empty) (room : Nat) (x : Datum) :
    ((m.stage room).encode x).Located fun _ => True := by
  have hP : Traced.Stepwise (Traced.Located fun _ => True) :=
    ⟨fun _ => .ok trivial, .fail, fun h hf => h.bind fun a _ => hf a, .under⟩
  exact stage_encode_stepwise hP hc room x

/-! ## Whole conversions -/

/-- What a source holds behind its options and boxes, if that is not null. -/
def Presents (m : Mapper) (source : Option Datum) (y : Datum) : Prop :=
  ∃ x, source = some x ∧ x.present = y ∧ m.types.isNull y = false

def IsValue (m : Mapper) (x : Datum) : Prop := m.valueTypes.covers (m.types.typeOf x) = true

def LetsThrough (m : Mapper) (x : Datum) (target : Descriptor) : Prop :=
  m.settings.passThroughAssignable = true ∧ (m.types.typeOf x).relatedTo target = true

/-- What a conversion gives, by its source and target, and what it tells on the way. -/
structure Classified (m : Mapper) (source : Option Datum) (target : Descriptor)
    (x : Traced Outcome) : Prop where
  absent : x.result = .ok .absent ↔
    source = none ∨ ∃ y, source = some y ∧ m.types.isNull y.present = true
  unchanged : ∀ y, x.result = .ok (.unchanged y) ↔ m.Presents source y ∧
    (m.IsValue y ∨ (∃ d, y = .document d) ∧ target.isDocument = true ∨
      (¬ ∃ d, y = .document d) ∧ target.isDocument = false ∧ m.LetsThrough y target)
  encoded : ∀ d, x.result = .ok (.encoded d) → target.isDocument = true ∧
    ∃ y, m.Presents source y ∧ ¬ m.IsValue y ∧ ¬ ∃ e, y = .document e
  decoded : ∀ y, x.result = .ok (.decoded y) → target.isDocument = false ∧
    ∃ d, m.Presents source (.document d)
  /-- It is refused for the two types as a whole, -/
  refused : ∀ name name', x.result = .error (.incompatible name name') ↔ ∃ y,
    m.Presents source y ∧ ¬ m.IsValue y ∧ (¬ ∃ d, y = .document d) ∧ target.isDocument = false ∧
      ¬ m.LetsThrough y target ∧ name = (m.types.typeOf y).name ∧ name' = target.name
  /-- and whatever else fails does so at some place, with all that is taken up on the way. -/
  failed : ∃ route rest, x.events = .dispatched target.name route 0 :: rest ∧
    ∀ event ∈ rest, event.Decodes ∨ ∃ e, x.result = .error e ∧ event = .failed target.name route e

/-- What the route of an object says of it and of the target. -/
def Routed (m : Mapper) (y : Datum) (target : Descriptor) : Route → Prop
  | .absent => m.types.isNull y = true
  | .passThrough => m.types.isNull y = false ∧ m.IsValue y
  | .identity => m.types.isNull y = false ∧ ¬ m.IsValue y ∧ (∃ d, y = .document d) ∧
      target.isDocument = true
  | .encode => m.types.isNull y = false ∧ ¬ m.IsValue y ∧ (¬ ∃ d, y = .document d) ∧
      target.isDocument = true
  | .decode => m.types.isNull y = false ∧ ¬ m.IsValue y ∧ (∃ d, y = .document d) ∧
      target.isDocument = false
  | .assignable => m.types.isNull y = false ∧ ¬ m.IsValue y ∧ (¬ ∃ d, y = .document d) ∧
      target.isDocument = false ∧ m.LetsThrough y target
  | .incompatible => m.types.isNull y = false ∧ ¬ m.IsValue y ∧ (¬ ∃ d, y = .document d) ∧
      target.isDocument = false ∧ ¬ m.LetsThrough y target

theorem routed_route (y : Datum) (target : Descriptor) :
    m.Routed y target (m.route (some y) target) := by
  have hdoc : (∃ d, y = .document d) ↔ y.asDocument?.isSome = true := by
    cases y <;> simp [Datum.asDocument?]
  have hpass : m.LetsThrough y target ↔
      (m.settings.passThroughAssignable && (m.types.typeOf y).relatedTo target) = true :=
    Bool.and_eq_true_iff.symm
  rw [route]
  split
  next hnull => exact hnull
  next hnull =>
    have hnull := Bool.eq_false_iff.2 hnull
    split
    next hvalue => exact ⟨hnull, hvalue⟩
    next hvalue =>
      split
      next ht =>
        split
        next hd => exact ⟨hnull, hvalue, hdoc.2 hd, ht⟩
        next hd => exact ⟨hnull, hvalue, mt hdoc.1 hd, ht⟩
      next ht =>
        have ht := Bool.eq_false_iff.2 ht
        split
        next hd => exact ⟨hnull, hvalue, hdoc.2 hd, ht⟩
        next hd =>
          split
          next hl => exact ⟨hnull, hvalue, mt hdoc.1 hd, ht, hpass.2 hl⟩
          next hl => exact ⟨hnull, hvalue, mt hdoc.1 hd, ht, mt hpass.1 hl⟩

theorem convertAt_failed (source : Option Datum) {target : Descriptor}
    (hencode : ∀ x, (stage.encode x).Located fun _ => True)
    (hdecode : ∀ d, (stage.decode d target).Located fun _ => True) :
    ∃ route rest, (m.convertAt stage source target).events =
        .dispatched target.name route stage.depth :: rest ∧
      ∀ event ∈ rest, event.Decodes ∨ ∃ e,
        (m.convertAt stage source target).result = .error e ∧
          event = .failed target.name route e := by
  have honFailure (x : Traced Outcome) (route : Route) (hx : ∀ event ∈ x.events, event.Decodes) :
      ∀ event ∈ (x.onFailure (.failed target.name route)).events, event.Decodes ∨ ∃ e,
        (x.onFailure (.failed target.name route)).result = .error e ∧
          event = .failed target.name route e := by
    obtain ⟨events, result⟩ := x
    intro event he
    cases result with
    | ok a => exact .inl (hx event he)
    | error e =>
      rcases List.mem_append.1 he with he | he
      · exact .inl (hx event he)
      · exact .inr ⟨e, rfl, List.mem_singleton.1 he⟩
  refine ⟨_, _, rfl, honFailure _ _ ?_⟩
  split
  case h_6 => exact ((hencode _).map (Q := fun _ => True) fun _ _ => trivial).events
  case h_7 =>
    split
    · exact ((hdecode _).map (Q := fun _ => True) fun _ _ => trivial).events
    · exact fun _ he => absurd he List.not_mem_nil
  -- only encoding and decoding take up conversions
  all_goals exact fun _ he => absurd he List.not_mem_nil

theorem convertAt_classified {source : Option Datum} {target : Descriptor}
    (hdepth : stage.depth = 0) (hencode : ∀ x, (stage.encode x).Located fun _ => True)
    (hdecode : ∀ d, (stage.decode d target).Located fun _ => True) :
    m.Classified source target (m.convertAt stage source target) := by
  have hfailed := convertAt_failed (m := m) source hencode hdecode
  rw [hdepth] at hfailed
  cases source with
  | none =>
    have hresult : (m.convertAt stage none target).result = .ok .absent := rfl
    refine ⟨?_, ?_, ?_, ?_, ?_, hfailed⟩ <;> simp [hresult, Presents]
  | some x =>
    have hpresents (y : Datum) :
        m.Presents (some x) y ↔ y = x.present ∧ m.types.isNull x.present = false := by
      constructor
      · rintro ⟨_, he, rfl, hnull⟩
        cases he
        exact ⟨rfl, hnull⟩
      · rintro ⟨rfl, hnull⟩
        exact ⟨x, rfl, rfl, hnull⟩
    have habsent : (some x = none ∨
        ∃ y, some x = some y ∧ m.types.isNull y.present = true) ↔
          m.types.isNull x.present = true := by simp
    have hrouted := routed_route (m := m) x.present target
    have htaken := convertAt_taken (m := m) stage (some x) target
    rw [Option.map_some] at htaken
    generalize m.route (some x.present) target = route at hrouted htaken
    generalize hresult : (m.convertAt stage (some x) target).result = result at htaken
    simp only [Routed] at hrouted
    cases htaken with
    | encode =>
      have hgives := (hencode x.present).gives
      rw [Traced.Gives] at hgives
      refine ⟨?_, ?_, ?_, ?_, ?_, hfailed⟩ <;> rw [hresult] <;>
        grind [Except.map, Failure.IsStructural]
    | decode _ d hd =>
      have hgives := (hdecode d).gives
      rw [Traced.Gives] at hgives
      refine ⟨?_, ?_, ?_, ?_, ?_, hfailed⟩ <;> rw [hresult] <;>
        grind [Except.map, Failure.IsStructural]
    | incompatible =>
      refine ⟨?_, ?_, ?_, ?_, ?_, hfailed⟩ <;> rw [hresult] <;> grind [Catalogue.typeOf_present]
    | _ => refine ⟨?_, ?_, ?_, ?_, ?_, hfailed⟩ <;> rw [hresult] <;> grind

/-- Without converters, and documents being no values, a conversion for a built-in or derived type
is refused only as a whole, and an object that is asked for by its type is of the type, or fails to
come as the conversion fails. -/
theorem convert_classified (hc : m.converters = .empty) (hv : ¬ m.DocumentsAreValues) {t : Ty}
    (ht : m.Declared t) (source : Option Datum) :
    m.Classified source (m.types.descriptor t) (m.convert source (m.types.descriptor t)) ∧
    ((m.types.descriptor t).isDocument = false → ∀ d,
      let decoded := (m.convert (some (.document d)) (m.types.descriptor t)).result
      (m.fromDocument t d).Gives
        (fun y => y.ty = t ∧ ∃ x, decoded = .ok (.decoded x) ∧ m.types.receive t x = .ok y)
        fun e => e.IsStructural ∧ decoded = .error e) := by
  have hdecode (d : Document) := stage_decode_located hc hv (m.settings.maxDepth + 1) ht d
  have hdepth : (m.stage (m.settings.maxDepth + 1)).depth = 0 := by
    rw [m.stage_depth (Nat.le_refl _), Nat.sub_self]
  refine ⟨convertAt_classified hdepth (stage_encode_located hc _) fun d => ?_, fun htarget d => ?_⟩
  · exact ⟨(hdecode d).events, (hdecode d).gives.imp (fun _ _ => trivial) fun _ he => he⟩
  · have hgives := (convertAt_located hv htarget (hdecode d)).gives
    simp only [fromDocument, Catalogue.fromDocument, Dialogue.run, convert, scope, Nat.sub_zero]
    generalize (m.convertAt (m.stage (m.settings.maxDepth + 1)) (some (.document d))
      (m.types.descriptor t)) = answer at hgives
    obtain ⟨events, result⟩ := answer
    cases result with
    | error e => exact ⟨hgives, rfl⟩
    | ok outcome =>
      obtain ⟨x, rfl, y, hy, hty⟩ := hgives
      simp only [Dialogue.run, Traced.Gives, hy]
      exact ⟨hty, x, rfl, hy⟩

theorem Maps.declared (hc : m.converters = .empty) {t : Ty} (h : m.Maps t) : m.Declared t := by
  intro name hn
  rcases h _ hn with hd | hd | ⟨e, he, -⟩
  · exact .inl hd
  · exact .inr hd
  · simp [hc, Converters.empty] at he

/-- A boxed folder is let through as a folder, a unit is not, and of a document that is no folder it
is told where it is none. -/
theorem convert_classified_folder :
    let target := folderTypes.descriptor (.named "Folder")
    let d : Document := ⟨[("id", .int64 (.zero .i64)), ("folders", .array [.bool true])]⟩
    let e : Failure := .structural ["folders", "[0]"] (.typeMismatch "Folder" "Bool")
    (folderMapper.convert (some (.some (.boxed nestedFolder))) target).result =
        .ok (.unchanged nestedFolder) ∧
      (folderMapper.convert (some .unit) target).result = .error (.incompatible "()" "Folder") ∧
      (folderMapper.fromDocument (.named "Folder") d).result = .error e ∧ e.IsStructural ∧
      (folderMapper.convert (some (.document d)) target).result = .error e := by
  intro target d e
  have hc : folderMapper.converters = .empty := rfl
  have hv : ¬ folderMapper.DocumentsAreValues := (regular_of_empty hc rfl).documents
  have ht : folderMapper.Declared (.named "Folder") := maps_folder.declared hc
  have he : (folderMapper.fromDocument (.named "Folder") d).result = .error e := rfl
  have hfolder (source : Option Datum) := convert_classified hc hv ht source
  have hread := (hfolder none).2 rfl d
  rw [Traced.Gives, he] at hread
  have hrecord : ¬ ∃ d, nestedFolder = .document d := by
    rintro ⟨d, hd⟩
    cases hd
  have hunit : ¬ ∃ d, Datum.unit = .document d := by simp
  refine ⟨?_, ?_, he, hread⟩
  · exact ((hfolder _).1.unchanged _).2 ⟨⟨_, rfl, rfl, rfl⟩, .inr (.inr ⟨hrecord, rfl, rfl, rfl⟩)⟩
  · exact ((hfolder _).1.refused _ _).2 ⟨.unit, ⟨_, rfl, rfl, rfl⟩, Bool.false_ne_true, hunit, rfl,
      fun h => Bool.false_ne_true h.2, rfl, rfl⟩

end Mapper

end ObjectDocument
