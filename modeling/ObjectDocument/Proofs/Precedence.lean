import ObjectDocument.Proofs.Locality

/-!
# The precedence of converters

Which types have a converter is asked of the registry for each object that is stored, and for each
document that the mapper is asked to decode. So where a field of an entity holds objects of a type
with a converter, itself or through options, boxes and sequences, the converter makes each document
that is stored there and is handed each document that is read there. What stands for such a field is
told by `StoredThrough`, and what is read of it by `ReadThrough`. A converter for documents or for
sequences makes what is stored of them, but reading does not ask for it
(`fromDocument_of_unconverted`).
-/

namespace ObjectDocument

def Ty.isWrapper : Ty → Bool
  | .option _ | .box _ => true
  | _ => false

namespace Mapper
variable {m : Mapper} {c : Converter} {convert : Convert} {stage : Stage}

/-- Whether a converter is kept for its type, and the type is neither a value type nor a wrapper. -/
structure Registered (m : Mapper) (c : Converter) : Prop where
  found : m.converters.find? (m.types.descriptor c.entity) = some c
  notValue : m.valueTypes.covers (m.types.descriptor c.entity) = false
  notWrapper : c.entity.isWrapper = false

/-- Whether objects of the first type stand in those of the second, through options, boxes, and
sequences that have no converter and are no values. -/
inductive Carries (m : Mapper) (E : Ty) : Ty → Prop where
  | self : Carries m E E
  | option {t : Ty} : Carries m E t → Carries m E (.option t)
  | box {t : Ty} : Carries m E t → Carries m E (.box t)
  | seq {t : Ty} : Carries m E t → m.valueTypes.covers (m.types.descriptor (.seq t)) = false →
      m.hasConverter (.seq t) = false → Carries m E (.seq t)

/-- What stands for an object of the type of a converter: null, if the object is null, and the
document that the converter makes of it otherwise. -/
def MadeBy (m : Mapper) (c : Converter) (convert : Convert) (x : Datum) (v : Value) : Prop :=
  (m.types.isNull x = true ∧ v = .null) ∨
    (m.types.isNull x = false ∧
      ∃ d, ((c.toDocument x).run convert).result = .ok d ∧ v = .document d)

mutual

/-- The value that stands for an object where a converter stores all that it takes. -/
inductive StoredThrough (m : Mapper) (c : Converter) (convert : Convert) :
    Datum → Value → Prop where
  | made {x : Datum} {v : Value} : x.ty = c.entity → m.MadeBy c convert x v →
      StoredThrough m c convert x v
  | none (t : Ty) : StoredThrough m c convert (.none t) .null
  | some {x : Datum} {v : Value} : StoredThrough m c convert x v →
      StoredThrough m c convert (.some x) v
  | boxed {x : Datum} {v : Value} : StoredThrough m c convert x v →
      StoredThrough m c convert (.boxed x) v
  | seq {t : Ty} {items : List Datum} {vs : List Value} : .seq t ≠ c.entity →
      StoredItems m c convert items vs → StoredThrough m c convert (.seq t items) (.array vs)

inductive StoredItems (m : Mapper) (c : Converter) (convert : Convert) :
    List Datum → List Value → Prop where
  | nil : StoredItems m c convert [] []
  | cons {x : Datum} {v : Value} {items : List Datum} {vs : List Value} :
      StoredThrough m c convert x v → StoredItems m c convert items vs →
      StoredItems m c convert (x :: items) (v :: vs)

end

mutual

/-- The object of a type that a value stands for where a converter makes all that it can. -/
inductive ReadThrough (c : Converter) (convert : Convert) : Ty → Value → Datum → Prop where
  | made {t : Ty} {d : Document} {y : Datum} : t = c.entity →
      ((c.fromDocument d).run convert).result = .ok y → y.ty = t →
      ReadThrough c convert t (.document d) y
  | none (t : Ty) : ReadThrough c convert (.option t) .null (.none t)
  | some {t : Ty} {v : Value} {y : Datum} : v ≠ .null → ReadThrough c convert t v y →
      ReadThrough c convert (.option t) v (.some y)
  | boxed {t : Ty} {v : Value} {y : Datum} : ReadThrough c convert t v y →
      ReadThrough c convert (.box t) v (.boxed y)
  | seq {t : Ty} {vs : List Value} {ys : List Datum} : ReadItems c convert t vs ys →
      ReadThrough c convert (.seq t) (.array vs) (.seq t ys)

inductive ReadItems (c : Converter) (convert : Convert) :
    Ty → List Value → List Datum → Prop where
  | nil (t : Ty) : ReadItems c convert t [] []
  | cons {t : Ty} {v : Value} {y : Datum} {vs : List Value} {ys : List Datum} :
      ReadThrough c convert t v y → ReadItems c convert t vs ys →
      ReadItems c convert t (v :: vs) (y :: ys)

end

/-! ## Storing -/

theorem typeOf_eq {Γ : Catalogue} {x : Datum} (hx : x.ty.isWrapper = false) :
    Γ.typeOf x = Γ.descriptor x.ty := by
  cases x with
  | some | boxed => cases hx
  | _ => rfl

theorem exists_encodeForm (stage : Stage) {x : Datum} (hx : x.ty.isWrapper = false) :
    ∃ items, m.encodeValue stage x = m.encodeForm stage x items := by
  cases x with
  | none | some | boxed => cases hx
  | seq t items => exact ⟨_, by rw [encodeValue]⟩
  | record name parts => exact ⟨_, by rw [encodeValue]⟩
  | _ => exact ⟨fun _ => .ok [], by simp only [encodeValue]⟩

variable {room : Nat} {t : Ty}

theorem Registered.encodeValue_eq_ok (h : m.Registered c) {x : Datum} (hx : x.ty = c.entity)
    {v : Value} :
    (m.encodeValue (m.stage (room + 1)) x).result = .ok v ↔
      m.MadeBy c (m.convertAt (m.stage room)) x v := by
  have hwrapper : x.ty.isWrapper = false := by rw [hx, h.notWrapper]
  have htype : m.types.typeOf x = m.types.descriptor c.entity := by rw [typeOf_eq hwrapper, hx]
  obtain ⟨items, hitems⟩ := exists_encodeForm (m := m) (m.stage (room + 1)) hwrapper
  rw [hitems, MadeBy]
  cases hnull : m.types.isNull x with
  | true =>
    have hform : m.form x = .null := by simp [form, hnull]
    simp [encodeForm, hform, Traced.ok, eq_comm]
  | false =>
    have hform : m.form x = .nested := by simp [form, hnull, htype, h.notValue, h.found]
    have hencode : (m.stage (room + 1)).encode x =
        (c.toDocument x).run (m.convertAt (m.stage room)) := by
      simp [stage, encode, htype, h.found, Converter.encode, hx]
    rw [encodeForm_nested hform]
    simp only [hencode, Bool.false_eq_true, false_and, false_or, true_and]
    refine Traced.bind_ok_eq_ok.trans (exists_congr fun d => ?_)
    rw [eq_comm (a := v)]

theorem encodeItems_eq_ok {items : List Datum} {start : Nat} {vs : List Value}
    (h : ∀ x ∈ items, ∀ v, (m.encodeValue stage x).result = .ok v ↔ m.StoredThrough c convert x v) :
    (m.encodeItems stage start items).result = .ok vs ↔ m.StoredItems c convert items vs := by
  induction items generalizing start vs with
  | nil =>
    constructor
    · intro hvs
      cases hvs
      exact .nil
    · rintro ⟨⟩
      rfl
  | cons x rest ih =>
    have hrest {start : Nat} {vs : List Value} :
        (m.encodeItems stage start rest).result = .ok vs ↔ m.StoredItems c convert rest vs :=
      ih fun y hy => h y (List.mem_cons_of_mem x hy)
    simp only [encodeItems, Traced.bind_eq_ok, Traced.under_eq_ok, hrest, h x List.mem_cons_self]
    constructor
    · rintro ⟨v, hv, vs, hvs, he⟩
      cases he
      exact .cons hv hvs
    · rintro (_ | ⟨hv, hvs⟩)
      exact ⟨_, hv, _, hvs, rfl⟩

theorem Registered.isWrapper_ne (h : m.Registered c) {t : Ty} (ht : t.isWrapper = true) :
    t ≠ c.entity := by
  rintro rfl
  rw [h.notWrapper] at ht
  cases ht

theorem Registered.ne_of_unconverted (h : m.Registered c) {t : Ty}
    (ht : m.hasConverter t = false) : t ≠ c.entity := by
  rintro rfl
  simp [hasConverter, h.found] at ht

theorem Registered.storedThrough_self (h : m.Registered c) {x : Datum} (hx : x.ty = c.entity)
    {v : Value} : m.StoredThrough c convert x v ↔ m.MadeBy c convert x v := by
  refine ⟨fun hs => ?_, .made hx⟩
  cases hs with
  | made _ hv => exact hv
  | none | some | boxed => exact (h.isWrapper_ne rfl hx).elim
  | seq hne => exact (hne hx).elim

theorem Registered.storedThrough_none (h : m.Registered c) (t : Ty) {v : Value} :
    m.StoredThrough c convert (.none t) v ↔ v = .null := by
  constructor
  · intro hs
    cases hs with
    | made hx => exact (h.isWrapper_ne rfl hx).elim
    | none => rfl
  · rintro rfl
    exact .none t

theorem Registered.storedThrough_some (h : m.Registered c) {x : Datum} {v : Value} :
    m.StoredThrough c convert (.some x) v ↔ m.StoredThrough c convert x v := by
  refine ⟨fun hs => ?_, .some⟩
  cases hs with
  | made hx => exact (h.isWrapper_ne rfl hx).elim
  | some hs => exact hs

theorem Registered.storedThrough_boxed (h : m.Registered c) {x : Datum} {v : Value} :
    m.StoredThrough c convert (.boxed x) v ↔ m.StoredThrough c convert x v := by
  refine ⟨fun hs => ?_, .boxed⟩
  cases hs with
  | made hx => exact (h.isWrapper_ne rfl hx).elim
  | boxed hs => exact hs

theorem storedThrough_seq {items : List Datum} (hne : .seq t ≠ c.entity) {v : Value} :
    m.StoredThrough c convert (.seq t items) v ↔
      ∃ vs, m.StoredItems c convert items vs ∧ .array vs = v := by
  constructor
  · intro hs
    cases hs with
    | made hx => exact (hne hx).elim
    | seq _ hvs => exact ⟨_, hvs, rfl⟩
  · rintro ⟨vs, hvs, rfl⟩
    exact .seq hne hvs

theorem Registered.encodeValue_iff (h : m.Registered c) {t : Ty} (ht : m.Carries c.entity t)
    {x : Datum} (hx : m.types.HasType x t) {v : Value} :
    (m.encodeValue (m.stage (room + 1)) x).result = .ok v ↔
      m.StoredThrough c (m.convertAt (m.stage room)) x v := by
  induction ht generalizing x v with
  | self => rw [h.encodeValue_eq_ok hx.ty_eq, h.storedThrough_self hx.ty_eq]
  | option _ ih =>
    cases hx with
    | none =>
      rw [encodeValue_isNull rfl, h.storedThrough_none]
      exact ⟨fun he => by cases he; rfl, fun he => by rw [he]; rfl⟩
    | some hx => rw [encodeValue_some, h.storedThrough_some, ih hx]
  | box _ ih =>
    cases hx with
    | boxed hx => rw [encodeValue_boxed, h.storedThrough_boxed, ih hx]
  | seq _ hv hc ih =>
    cases hx with
    | seq hitems =>
      rw [encodeValue_seq hv hc, Traced.bind_ok_eq_ok,
        storedThrough_seq (h.ne_of_unconverted hc)]
      refine exists_congr fun vs => and_congr_left fun _ => encodeItems_eq_ok fun x hx v => ?_
      exact ih (hitems.of_mem hx)

/-! ## Reading -/

theorem Registered.readValue_eq_ok (h : m.Registered c) (hv : ¬ m.DocumentsAreValues) {n : String}
    (hn : c.entity = .named n) (hk : m.types.KeptNested n) {v : Value} {y : Datum} :
    (m.readValue (m.stage (room + 1)) (.named n) v).result = .ok y ↔
      ReadThrough c (m.convertAt (m.stage room)) (.named n) v y := by
  have hfound := h.found
  rw [hn] at hfound
  have hdecode (d : Document) : (m.stage (room + 1)).decode d (m.types.descriptor (.named n)) =
      (c.fromDocument d).run (m.convertAt (m.stage room)) := by
    simp only [stage, decode, hfound]
  rw [readValue_nested hv hk]
  constructor
  · intro hr
    split at hr
    next d hd =>
      rw [hdecode, Catalogue.bind_receive_eq_ok] at hr
      rw [Value.asDocument?_eq_some.1 hd]
      exact .made hn.symm hr.2 hr.1
    next => cases hr
  · rintro (⟨-, hd, hy⟩)
    simp only [Value.asDocument?, hdecode, Catalogue.bind_receive_eq_ok]
    exact ⟨hy, hd⟩

theorem readItems_eq_ok {t : Ty} {start : Nat} {vs : List Value} {ys : List Datum}
    (h : ∀ v y, (m.readValue stage t v).result = .ok y ↔ ReadThrough c convert t v y) :
    (m.readItems stage t start vs).result = .ok ys ↔ ReadItems c convert t vs ys := by
  induction vs generalizing start ys with
  | nil =>
    constructor
    · intro hys
      cases hys
      exact .nil t
    · rintro ⟨⟩
      rfl
  | cons v rest ih =>
    simp only [readItems, Traced.bind_eq_ok, Traced.under_eq_ok, ih, h]
    constructor
    · rintro ⟨y, hy, ys, hys, he⟩
      cases he
      exact .cons hy hys
    · rintro (_ | ⟨hy, hys⟩)
      exact ⟨_, hy, _, hys, rfl⟩

theorem readThrough_option (hne : .option t ≠ c.entity) {v : Value} {y : Datum} :
    ReadThrough c convert (.option t) v y ↔
      (v = .null ∧ y = .none t) ∨ (v ≠ .null ∧ ∃ z, ReadThrough c convert t v z ∧ .some z = y) := by
  constructor
  · intro hr
    cases hr with
    | made ht => exact (hne ht).elim
    | none => exact .inl ⟨rfl, rfl⟩
    | some hv hz => exact .inr ⟨hv, _, hz, rfl⟩
  · rintro (⟨rfl, rfl⟩ | ⟨hv, z, hz, rfl⟩)
    · exact .none t
    · exact .some hv hz

theorem readThrough_box (hne : .box t ≠ c.entity) {v : Value} {y : Datum} :
    ReadThrough c convert (.box t) v y ↔ ∃ z, ReadThrough c convert t v z ∧ .boxed z = y := by
  constructor
  · intro hr
    cases hr with
    | made ht => exact (hne ht).elim
    | boxed hz => exact ⟨_, hz, rfl⟩
  · rintro ⟨z, hz, rfl⟩
    exact .boxed hz

theorem readThrough_seq (hne : .seq t ≠ c.entity) {v : Value} {y : Datum} :
    ReadThrough c convert (.seq t) v y ↔
      ∃ vs, v = .array vs ∧ ∃ ys, ReadItems c convert t vs ys ∧ .seq t ys = y := by
  constructor
  · intro hr
    cases hr with
    | made ht => exact (hne ht).elim
    | seq hys => exact ⟨_, rfl, _, hys, rfl⟩
  · rintro ⟨vs, rfl, ys, hys, rfl⟩
    exact .seq hys

theorem Registered.readValue_iff (h : m.Registered c) (hv : ¬ m.DocumentsAreValues) {n : String}
    (hn : c.entity = .named n) (hk : m.types.KeptNested n) {t : Ty} (ht : m.Carries c.entity t)
    {v : Value} {y : Datum} :
    (m.readValue (m.stage (room + 1)) t v).result = .ok y ↔
      ReadThrough c (m.convertAt (m.stage room)) t v y := by
  induction ht generalizing v y with
  | self =>
    rw [hn]
    exact h.readValue_eq_ok hv hn hk
  | @option t _ ih =>
    rw [readValue_option, readThrough_option (h.isWrapper_ne rfl)]
    split
    next hnull => simp [hnull, Traced.ok, eq_comm]
    next hnull => simp only [Traced.bind_ok_eq_ok, ih, hnull, false_and, false_or, true_and,
      ne_eq, not_false_eq_true]
  | box _ ih =>
    rw [readValue_box, readThrough_box (h.isWrapper_ne rfl), Traced.bind_ok_eq_ok]
    simp only [ih]
  | seq _ _ hc ih =>
    rw [readValue_seq, readThrough_seq (h.ne_of_unconverted hc)]
    split
    next vs hvs =>
      cases Value.asArray?_eq_some.1 hvs
      simp only [Traced.bind_ok_eq_ok, readItems_eq_ok fun v y => ih]
      constructor
      · exact fun hys => ⟨vs, rfl, hys⟩
      · rintro ⟨vs', he, hys⟩
        cases he
        exact hys
    next hvs =>
      constructor
      · intro hr
        cases hr
      · rintro ⟨vs, rfl, -⟩
        cases hvs

/-! ## Whole entities -/

theorem exists_storeParts {fields : List FieldDecl} {parts : List Datum}
    (h : ∀ f x, (f, x) ∈ fields.zip parts → f.mapping.isSome →
      ∃ v, (m.encodeValue stage x).result = .ok v) :
    ∃ entries, (m.storeParts stage fields parts).result = .ok entries := by
  induction fields generalizing parts with
  | nil => exact ⟨[], rfl⟩
  | cons f fields ih =>
    cases parts with
    | nil => exact ⟨[], rfl⟩
    | cons x parts =>
      obtain ⟨entries, hentries⟩ := ih fun g y hy => h g y (List.mem_cons_of_mem _ hy)
      rw [storeParts]
      cases hf : f.mapping with
      | none => exact ⟨entries, hentries⟩
      | some spec =>
        obtain ⟨v, hv⟩ := h f x List.mem_cons_self (by simp [hf])
        refine ⟨(spec.name, v) :: entries, ?_⟩
        exact Traced.bind_eq_ok.2 ⟨v, Traced.under_eq_ok.2 hv,
          Traced.bind_eq_ok.2 ⟨entries, hentries, rfl⟩⟩

theorem exists_readParts {name : String} {d : Document} {fields : List FieldDecl}
    (h : ∀ f ∈ fields, ∃ y, (m.readPart stage name d f).result = .ok y) :
    ∃ ys, (m.readParts stage name d fields).result = .ok ys := by
  induction fields with
  | nil => exact ⟨[], rfl⟩
  | cons f fields ih =>
    obtain ⟨ys, hys⟩ := ih fun g hg => h g (List.mem_cons_of_mem f hg)
    obtain ⟨y, hy⟩ := h f List.mem_cons_self
    exact ⟨y :: ys, Traced.bind_eq_ok.2 ⟨y, hy, Traced.bind_eq_ok.2 ⟨ys, hys, rfl⟩⟩⟩

theorem readParts_of_mem {name : String} {d : Document} {fields : List FieldDecl}
    {ys : List Datum} (h : (m.readParts stage name d fields).result = .ok ys) {f : FieldDecl}
    (hf : f ∈ fields) :
    ∃ y, (f, y) ∈ fields.zip ys ∧ (m.readPart stage name d f).result = .ok y := by
  induction fields generalizing ys with
  | nil => cases hf
  | cons g fields ih =>
    simp only [readParts, Traced.bind_eq_ok] at h
    obtain ⟨y, hy, more, hmore, he⟩ := h
    cases he
    rcases List.mem_cons.1 hf with rfl | hf
    · exact ⟨y, List.mem_cons_self, hy⟩
    · obtain ⟨z, hz, hr⟩ := ih hmore hf
      exact ⟨z, List.mem_cons_of_mem _ hz, hr⟩

structure Derived (m : Mapper) (name : String) (decl : EntityDecl) : Prop where
  found : m.types.find? name = some (.entity decl)
  unconverted : m.hasConverter (.named name) = false
  notValue : m.valueTypes.covers (m.types.descriptor (.named name)) = false

namespace Derived
variable {name : String} {decl : EntityDecl}

theorem find?_eq_none (h : m.Derived name decl) :
    m.converters.find? (m.types.descriptor (.named name)) = none := by
  simpa [hasConverter] using h.unconverted

theorem toDocument_eq_ok (h : m.Derived name decl) {parts : List Datum}
    (hlen : parts.length = decl.fields.length) {d : Document} :
    ((m.types.toDocument (.record name parts)).run (m.convertAt (m.stage (room + 1)))).result =
        .ok d ↔
      ∃ entries, (m.storeParts (m.stage room) decl.fields parts).result = .ok entries ∧
        ⟨entries⟩ = d := by
  have hencode : (m.stage (room + 1)).encode (.record name parts) =
      m.storeParts (m.stage room) decl.fields parts >>= fun entries => .ok ⟨entries⟩ :=
    encode_entity h.found h.find?_eq_none hlen
  rw [run_toDocument_entity h.found h.notValue, hencode, Traced.bind_ok_eq_ok]

theorem fromDocument_eq_ok (h : m.Derived name decl) (hv : ¬ m.DocumentsAreValues)
    {d : Document} {z : Datum} :
    ((m.types.fromDocument (.named name) d).run (m.convertAt (m.stage (room + 1)))).result =
        .ok z ↔
      ∃ ys, (m.readParts (m.stage room) name d decl.fields).result = .ok ys ∧
        .record name ys = z := by
  have hk : m.types.KeptNested name := .inl ⟨decl, h.found⟩
  have hdecode : (m.stage (room + 1)).decode d (m.types.descriptor (.named name)) =
      m.readParts (m.stage room) name d decl.fields >>= fun ys => .ok (.record name ys) :=
    decode_entity h.found h.find?_eq_none d
  rw [run_fromDocument hv hk.isDocument_eq_false, Catalogue.bind_receive_eq_ok, hdecode,
    Traced.bind_ok_eq_ok]
  refine and_iff_right_of_imp ?_
  rintro ⟨ys, -, rfl⟩
  rfl

end Derived

def StoresPart (m : Mapper) (depth : Nat) (x : Datum) (v : Value) : Prop :=
  (m.encodeValue (m.stage (m.settings.maxDepth - depth)) x).result = .ok v

def ReadsPart (m : Mapper) (depth : Nat) (name : String) (d : Document) (f : FieldDecl)
    (y : Datum) : Prop :=
  (m.readPart (m.stage (m.settings.maxDepth - depth)) name d f).result = .ok y

/-- A part of an entity at a depth is stored through a converter. The entity is stored exactly if
each of its parts is, and then the entry of the field is what stands for the part. As a part of
another entity it is stored as the same document. -/
structure StoresField (m : Mapper) (c : Converter) (depth : Nat) (name : String)
    (decl : EntityDecl) (key : String) (parts : List Datum) (x : Datum) : Prop where
  part : ∀ v, m.StoresPart depth x v ↔ m.StoredThrough c (m.scope (depth + 2)) x v
  stored : (∃ d, ((m.types.toDocument (.record name parts)).run (m.scope depth)).result = .ok d) ↔
    ∀ g y, (g, y) ∈ decl.fields.zip parts → g.mapping.isSome → ∃ v, m.StoresPart depth y v
  entry : ∀ d, ((m.types.toDocument (.record name parts)).run (m.scope depth)).result = .ok d →
    ∃ v, d.get? key = some v ∧ m.StoredThrough c (m.scope (depth + 2)) x v
  nested : ∀ outer d, depth = outer + 1 →
    (m.StoresPart outer (.record name parts) (.document d) ↔
      ((m.types.toDocument (.record name parts)).run (m.scope depth)).result = .ok d)

/-- A field of an entity at a depth is read through a converter. The entity is read exactly if each
of its parts is, and then holds what is read of the entry of the field. As a part of another entity
it is read as the same object. -/
structure ReadsField (m : Mapper) (c : Converter) (depth : Nat) (name : String)
    (decl : EntityDecl) (f : FieldDecl) (key : String) (d : Document) : Prop where
  part : ∀ v y, d.get? key = some v →
    (m.ReadsPart depth name d f y ↔ ReadThrough c (m.scope (depth + 2)) f.ty v y)
  read : (∃ z, ((m.types.fromDocument (.named name) d).run (m.scope depth)).result = .ok z) ↔
    ∀ g ∈ decl.fields, ∃ y, m.ReadsPart depth name d g y
  held : ∀ z v, ((m.types.fromDocument (.named name) d).run (m.scope depth)).result = .ok z →
    d.get? key = some v → ∃ parts y, z = .record name parts ∧ (f, y) ∈ decl.fields.zip parts ∧
      ReadThrough c (m.scope (depth + 2)) f.ty v y
  nested : ∀ outer, depth = outer + 1 →
    m.readValue (m.stage (m.settings.maxDepth - outer)) (.named name) (.document d) =
      (m.types.fromDocument (.named name) d).run (m.scope depth)

section
variable {name : String} {decl : EntityDecl} {f : FieldDecl} {spec : FieldSpec} {depth : Nat}

theorem exists_room (hdepth : depth < m.settings.maxDepth) :
    ∃ room, m.settings.maxDepth - depth = room + 1 ∧
      m.scope depth = m.convertAt (m.stage (room + 1 + 1)) ∧
      m.scope (depth + 2) = m.convertAt (m.stage room) :=
  ⟨m.settings.maxDepth - depth - 1, by omega, scope_eq (by omega), scope_eq (by omega)⟩

theorem Registered.storesField (hc : m.Registered c) (hd : m.Derived name decl)
    (hm : f.mapping = some spec) (ht : m.Carries c.entity f.ty)
    (hdepth : depth < m.settings.maxDepth) {parts : List Datum} {x : Datum}
    (hrec : m.types.HasType (.record name parts) (.named name))
    (hfx : (f, x) ∈ decl.fields.zip parts) :
    m.StoresField c depth name decl spec.name parts x := by
  -- the parts are stored with `room + 1` levels left, and the converter has `room`
  obtain ⟨room, hroom, hentity, hconverter⟩ := exists_room hdepth
  have hparts := hrec.parts hd.found
  have hpart (v : Value) : m.StoresPart depth x v ↔
      m.StoredThrough c (m.scope (depth + 2)) x v := by
    rw [StoresPart, hroom, hconverter]
    exact hc.encodeValue_iff ht (hparts.of_mem_zip hfx)
  refine ⟨hpart, ⟨?_, fun h => ?_⟩, fun d hdoc => ?_, fun outer d hout => ?_⟩
  · rintro ⟨d, hdoc⟩ g y hgy hg
    rw [hentity, hd.toDocument_eq_ok hparts.length_eq] at hdoc
    obtain ⟨entries, hentries, -⟩ := hdoc
    obtain ⟨gspec, hgspec⟩ := Option.isSome_iff_exists.1 hg
    obtain ⟨v, -, hv⟩ := storeParts_mem hentries hgy hgspec
    exact ⟨v, by rwa [StoresPart, hroom]⟩
  · simp only [StoresPart, hroom] at h
    obtain ⟨entries, hentries⟩ := exists_storeParts h
    refine ⟨⟨entries⟩, ?_⟩
    rw [hentity, hd.toDocument_eq_ok hparts.length_eq]
    exact ⟨entries, hentries, rfl⟩
  · rw [hentity, hd.toDocument_eq_ok hparts.length_eq] at hdoc
    obtain ⟨entries, hentries, rfl⟩ := hdoc
    obtain ⟨v, hmem, hv⟩ := storeParts_mem hentries hfx hm
    refine ⟨v, storeParts_get? hparts.length_eq hentries hmem, (hpart v).1 ?_⟩
    rwa [StoresPart, hroom]
  · have houter : m.settings.maxDepth - outer = room + 1 + 1 := by omega
    rw [StoresPart, houter, hentity, run_toDocument_entity hd.found hd.notValue,
      encodeValue_entity hd.found hd.notValue, Traced.bind_ok_eq_ok]
    simp only [Value.document.injEq, exists_eq_right]

theorem Registered.readsField (hc : m.Registered c) (hv : ¬ m.DocumentsAreValues) {n : String}
    (hn : c.entity = .named n) (hk : m.types.KeptNested n) (hd : m.Derived name decl)
    (hf : f ∈ decl.fields) (hm : f.mapping = some spec) (ht : m.Carries c.entity f.ty)
    (hdepth : depth < m.settings.maxDepth) (d : Document) :
    m.ReadsField c depth name decl f spec.name d := by
  obtain ⟨room, hroom, hentity, hconverter⟩ := exists_room hdepth
  have hpart (v : Value) (y : Datum) (hget : d.get? spec.name = some v) :
      m.ReadsPart depth name d f y ↔ ReadThrough c (m.scope (depth + 2)) f.ty v y := by
    simp only [ReadsPart, readPart, hm, hget, Traced.under_eq_ok, hroom, hconverter]
    exact hc.readValue_iff hv hn hk ht
  refine ⟨hpart, ⟨?_, fun h => ?_⟩, fun z v hz hget => ?_, fun outer hout => ?_⟩
  · rintro ⟨z, hz⟩ g hg
    rw [hentity, hd.fromDocument_eq_ok hv] at hz
    obtain ⟨ys, hys, -⟩ := hz
    obtain ⟨y, -, hy⟩ := readParts_of_mem hys hg
    exact ⟨y, by rwa [ReadsPart, hroom]⟩
  · simp only [ReadsPart, hroom] at h
    obtain ⟨ys, hys⟩ := exists_readParts h
    refine ⟨.record name ys, ?_⟩
    rw [hentity, hd.fromDocument_eq_ok hv]
    exact ⟨ys, hys, rfl⟩
  · rw [hentity, hd.fromDocument_eq_ok hv] at hz
    obtain ⟨ys, hys, rfl⟩ := hz
    obtain ⟨y, hfy, hy⟩ := readParts_of_mem hys hf
    refine ⟨ys, y, rfl, hfy, (hpart v y hget).1 ?_⟩
    rwa [ReadsPart, hroom]
  · have houter : m.settings.maxDepth - outer = room + 1 + 1 := by omega
    rw [houter, hentity, readValue, Catalogue.fromValue,
      Catalogue.KeptNested.readNamed_eq (.inl ⟨decl, hd.found⟩)]
    rfl

/-- A converter takes precedence wherever objects of its type stand in a field of an entity: it
makes the documents that are stored there, and each of these is handed to it when the field is
read. -/
theorem converter_precedence (hc : m.Registered c) (hd : m.Derived name decl)
    (hf : f ∈ decl.fields) (hm : f.mapping = some spec) (ht : m.Carries c.entity f.ty)
    (hdepth : depth < m.settings.maxDepth) :
    (∀ parts x, m.types.HasType (.record name parts) (.named name) →
      (f, x) ∈ decl.fields.zip parts → m.StoresField c depth name decl spec.name parts x) ∧
    ∀ n, c.entity = .named n → m.types.KeptNested n → ¬ m.DocumentsAreValues →
      ∀ d, m.ReadsField c depth name decl f spec.name d :=
  ⟨fun _ _ hrec hfx => hc.storesField hd hm ht hdepth hrec hfx,
    fun _ hn hk hv d => hc.readsField hv hn hk hd hf hm ht hdepth d⟩

end

theorem converter_precedence_palette :
    let more := [Datum.some (shade ⟨4, by decide⟩), .none (.named "Shade")]
    let stored := [Value.document ⟨[("level", .uint64 ⟨4, by decide⟩)]⟩, .null]
    nestedPaletteStored.get? "more" = some (.array stored) ∧
      (paletteMapper false).StoredItems shadeConverter ((paletteMapper false).scope 2) more stored ∧
      ReadItems shadeConverter ((paletteMapper false).scope 2) (.option (.named "Shade")) stored
        more := by
  intro more stored
  have hc : (paletteMapper false).Registered shadeConverter := ⟨rfl, rfl, rfl⟩
  have hd : (paletteMapper false).Derived "Palette" paletteDecl := ⟨rfl, rfl, rfl⟩
  have hv : ¬ (paletteMapper false).DocumentsAreValues := by
    simp only [DocumentsAreValues]
    decide
  have hf : paletteDecl.fields[1] ∈ paletteDecl.fields := List.getElem_mem _
  have ht : (paletteMapper false).Carries shadeConverter.entity paletteDecl.fields[1].ty :=
    .seq (.option .self) rfl rfl
  have hdepth : 0 < (paletteMapper false).settings.maxDepth := by decide
  obtain ⟨hstores, hreads⟩ := converter_precedence hc hd hf rfl ht hdepth
  have hget : nestedPaletteStored.get? "more" = some (.array stored) := rfl
  have hto : ((paletteMapper false).toDocument nestedPalette).result = .ok nestedPaletteStored :=
    rfl
  have hread : (paletteMapper false).ReadsPart 0 "Palette" nestedPaletteStored
      paletteDecl.fields[1] (.seq (.option (.named "Shade")) more) := rfl
  refine ⟨hget, ?_, ?_⟩
  · have hfx : (paletteDecl.fields[1], Datum.seq (.option (.named "Shade")) more) ∈
        paletteDecl.fields.zip nestedPalette.parts := List.mem_cons_of_mem _ List.mem_cons_self
    obtain ⟨v, he, hs⟩ := (hstores _ _ hasType_nestedPalette hfx).entry _ hto
    cases hget.symm.trans he
    cases hs with
    | made ht => cases ht
    | seq _ hitems => exact hitems
  · have hshade : (paletteMapper false).types.KeptNested "Shade" := .inr ⟨shadeDecl, rfl, rfl, rfl⟩
    have hr := ((hreads "Shade" rfl hshade hv nestedPaletteStored).part _ _ hget).1 hread
    cases hr with
    | seq hitems => exact hitems

/-! ## Converters that reading does not ask for -/

/-- Whether the named types in a type are derived and have no converter. -/
def Unconverted (m : Mapper) (t : Ty) : Prop :=
  ∀ name, m.Occurs t (.named name) →
    m.hasConverter (.named name) = false ∧ ∀ h, m.types.find? name ≠ some (.host h)

section
variable {m' : Mapper} {stage' : Stage} {t : Ty}

theorem ReadingAsks.of_unconverted {s : Option Datum} {e : Descriptor} (h : m.ReadingAsks t s e)
    (ht : m.Unconverted t) :
    ∃ d name, s = some (.document d) ∧ e = m.types.descriptor (.named name) ∧
      m.Occurs t (.named name) := by
  cases h with
  | nested d ho => exact ⟨d, _, rfl, rfl, ho⟩
  | host ho hh _ _ => exact absurd hh ((ht _ ho).2 _)

theorem convertAt_document_congr (hk : m.Kin m') (hv : m'.valueTypes = m.valueTypes)
    (hdepth : stage'.depth = stage.depth) {d : Document} {target : Descriptor}
    (h : stage'.decode d target = stage.decode d target) :
    m'.convertAt stage' (some (.document d)) target =
      m.convertAt stage (some (.document d)) target := by
  have hroute : m'.route (some (.document d)) target = m.route (some (.document d)) target := by
    simp only [route, hk.types, hk.settings, hv]
  simp only [convertAt, Option.map_some, Datum.present, hroute, hdepth, hk.types]
  cases hr : m.route (some (.document d)) target with
  | encode => exact absurd hr (route_document_ne_encode d target)
  | decode => simp only [Datum.asDocument?, h]
  | _ => rfl

theorem stage_decode_of_unconverted (hk : m.Kin m') (hv : m'.valueTypes = m.valueTypes)
    (ht : m.Unconverted t)
    (ht' : ∀ name, m.Occurs t (.named name) → m'.hasConverter (.named name) = false) (room : Nat)
    {name : String} (ho : m.Occurs t (.named name)) (d : Document) :
    (m'.stage room).decode d (m.types.descriptor (.named name)) =
      (m.stage room).decode d (m.types.descriptor (.named name)) := by
  induction room generalizing name d with
  | zero => simp only [stage, decode, tooDeep, hk.settings]
  | succ room ih =>
    obtain ⟨hc, hhost⟩ := ht name ho
    have hnone' := find?_of_hasConverter (ht' name ho)
    rw [hk.types] at hnone'
    refine decode_congr hk (find?_of_hasConverter hc) hnone' fun schema hschema spec _ y v hy =>
      Dialogue.run_congr fun s e ha => ?_
    -- only an entity has fields, and setting them asks for what occurs in it
    obtain ⟨decl, hd, rfl⟩ := Catalogue.exists_entity_of_schema? hhost hschema
    obtain ⟨d, other, rfl, rfl, hother⟩ :=
      ((asks_setField hd hc hy ha).of_occurs ho).of_unconverted ht
    exact convertAt_document_congr hk hv (stage_depth_local hk room) (ih hother d)

/-- Decoding a type asks for converters of the named types in it, and of no others: whatever
converters there are for documents and sequences, documents are decoded alike. -/
theorem fromDocument_of_unconverted (hk : m.Kin m') (hv : m'.valueTypes = m.valueTypes)
    {name : String} (ht : m.Unconverted (.named name))
    (ht' : ∀ other, m.Occurs (.named name) (.named other) →
      m'.hasConverter (.named other) = false) (d : Document) :
    m'.fromDocument (.named name) d = m.fromDocument (.named name) d := by
  rw [fromDocument, fromDocument, hk.types]
  refine Dialogue.run_congr fun s e hs => ?_
  obtain ⟨rfl, rfl⟩ := Catalogue.eq_of_asks_fromDocument hs
  have hroom : m'.settings.maxDepth + 1 - 0 = m.settings.maxDepth + 1 - 0 := by rw [hk.settings]
  rw [convert, convert, scope, scope, hroom]
  exact convertAt_document_congr hk hv (stage_depth_local hk _)
    (stage_decode_of_unconverted hk hv ht ht' _ (.refl _) d)

theorem fromDocument_converter_unasked {u : Setup} {c : Converter}
    (hc : c.entity = .document ∨ ∃ item, c.entity = .seq item) {name : String}
    (ht : u.mapper.Unconverted (.named name)) (d : Document) :
    (u.step (.converter c)).2.mapper.fromDocument (.named name) d =
      u.mapper.fromDocument (.named name) d := by
  have hk : u.mapper.Kin (u.step (.converter c)).2.mapper := ⟨rfl, rfl⟩
  refine fromDocument_of_unconverted hk rfl ht (fun other ho => ?_) d
  obtain ⟨hnone, hhost⟩ := ht other ho
  have hid : (u.types.descriptor (.named other)).id = .named other :=
    Catalogue.id_descriptor_named hhost
  have hne : (u.types.descriptor c.entity).id ≠ (u.types.descriptor (.named other)).id := by
    rw [hid]
    rcases hc with hc | ⟨item, hc⟩ <;> rw [hc] <;> nofun
  change ((u.converters.insert u.types c).2.find?
    (u.types.descriptor (.named other))).isSome = false
  rw [Converters.find?_insert, if_neg hne]
  exact hnone

end

def forgetful (t : Ty) (x : Datum) : Converter where
  entity := t
  toDocument _ := .ok ⟨[("forgotten", .bool true)]⟩
  fromDocument _ := .ok x

def memoDecl : EntityDecl where
  fields := [⟨"note", .document, some ⟨"note", "Document", true⟩, .document .empty⟩]
  keys_nodup := by decide

def memo (note : Document) : Datum := .record "Memo" [.document note]

def crowdedMapper (more : List SetupStep) : Mapper :=
  ((Setup.empty ⟨("Memo", .entity memoDecl) :: paletteTypes.declarations, .quiet⟩).steps
    (.converter shadeConverter :: more)).2.mapper

/-- A converter for shades is not asked where the palette has a converter of its own or the
sequence that holds the shades is a value type, nor for reading where documents are values. One for
sequences or for documents is asked for storing them in a field, but not for reading them there. -/
theorem converter_set_aside :
    let shades := Ty.seq (.option (.named "Shade"))
    let forgotten : Document := ⟨[("forgotten", .bool true)]⟩
    (let m := crowdedMapper [.converter (forgetful (.named "Palette") nestedPalette)]
     m.Registered shadeConverter ∧ (m.toDocument nestedPalette).result = .ok forgotten) ∧
    (let m := crowdedMapper [.valueType shades]
     m.Registered shadeConverter ∧ (m.toDocument nestedPalette).result =
      .error (.structural ["more"] (.noAtomicForm shades.name))) ∧
    (let m := crowdedMapper [.valueType .document]
     m.Registered shadeConverter ∧
      (m.toDocument nestedPalette).result = .ok nestedPaletteStored ∧
      (m.fromDocument (.named "Palette") nestedPaletteStored).result =
        .error (.incompatible "docmap_api::document::Document" "Palette")) ∧
    (let c := forgetful shades (.seq (.option (.named "Shade")) [])
     let m := crowdedMapper [.converter c]
     let d : Document := ⟨[("base", .document ⟨[("level", .uint64 ⟨7, by decide⟩)]⟩),
      ("more", .document forgotten), ("parts", .array [])]⟩
     m.Registered c ∧
      (m.toDocument (palette (shade ⟨7, by decide⟩) [] [])).result = .ok d ∧
      (m.fromDocument (.named "Palette") d).result =
        .error (.structural ["more"] (.typeMismatch shades.name "Document"))) ∧
    (let c := forgetful .document (.document .empty)
     let m := crowdedMapper [.converter c]
     m.Registered c ∧
      (m.toDocument (memo .empty)).result = .ok ⟨[("note", .document forgotten)]⟩ ∧
      (m.fromDocument (.named "Memo") ⟨[("note", .document forgotten)]⟩).result =
        .ok (memo forgotten)) :=
  ⟨⟨⟨rfl, rfl, rfl⟩, rfl⟩, ⟨⟨rfl, rfl, rfl⟩, rfl⟩, ⟨⟨rfl, rfl, rfl⟩, rfl, rfl⟩,
    ⟨⟨rfl, rfl, rfl⟩, rfl, rfl⟩, ⟨rfl, rfl, rfl⟩, rfl, rfl⟩

end Mapper

end ObjectDocument
