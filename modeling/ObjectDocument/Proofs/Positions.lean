import ObjectDocument.Proofs.Handover
import ObjectDocument.Proofs.Transparency

/-!
# Places in what is stored

Storing an object comes to the parts of the entities and to the items of the sequences that it takes
apart, one level further down for each field on the way (`Reaches`). What it comes to is stored at
the end of the path as it would be stored by itself at that level (`Reaches.stored`). An object that
is stored as a document of its own is given as the same document as a whole
(`encodeValue_nested`, `run_toDocument_nested`).
-/

namespace ObjectDocument

namespace Mapper
variable {m : Mapper} {stage : Stage}

/-! ## Entries of an entity -/

theorem encodeField_eq_ok {x : Datum} {d e : Document} {field : FieldSpec}
    (h : (m.encodeField stage x d field).result = .ok e) :
    ∃ part v, m.types.getField field.name x = some part ∧
      (m.encodeValue stage part).result = .ok v ∧ d.insert field.name v = e := by
  rw [encodeField] at h
  split at h
  next part hpart =>
    obtain ⟨v, hv, he⟩ := Traced.bind_ok_eq_ok.1 h
    exact ⟨part, v, hpart, Traced.under_eq_ok.1 hv, he⟩
  next => cases h

theorem foldlM_encodeField_eq_ok {x : Datum} {fields : List FieldSpec} {start d : Document}
    (h : (fields.foldlM (m.encodeField stage x) start).result = .ok d) {key : String} {part : Datum}
    (hpart : m.types.getField key x = some part)
    (hkey : key ∈ fields.map FieldSpec.name ∨
      ∃ v, start.get? key = some v ∧ (m.encodeValue stage part).result = .ok v) :
    ∃ v, d.get? key = some v ∧ (m.encodeValue stage part).result = .ok v := by
  induction fields generalizing start with
  | nil =>
    cases h
    exact hkey.resolve_left (by simp)
  | cons field fields ih =>
    rw [List.foldlM_cons, Traced.bind_eq_ok] at h
    obtain ⟨e, he, hrest⟩ := h
    obtain ⟨other, v, hother, hv, rfl⟩ := encodeField_eq_ok he
    refine ih hrest ?_
    by_cases hname : key = field.name
    · right
      subst hname
      cases hpart.symm.trans hother
      exact ⟨v, by simp [Document.get?_insert], hv⟩
    · refine hkey.imp (fun hmem => ?_) fun ⟨w, hw, hstored⟩ => ⟨w, ?_, hstored⟩
      · simpa [hname] using hmem
      · rw [Document.get?_insert, if_neg hname, hw]

/-! ## Along a path -/

/-- Whether storing an object comes to what it is made of: it is not null, no value, and has no
converter. -/
structure TakenApart (m : Mapper) (x : Datum) : Prop where
  notNull : m.types.isNull x = false
  notValue : m.valueTypes.covers (m.types.typeOf x) = false
  unconverted : m.converters.find? (m.types.typeOf x) = none

/-- Storing the first object comes along a path to the second. -/
inductive Reaches (m : Mapper) : Datum → List Step → Datum → Prop where
  | here (x : Datum) : Reaches m x [] x
  | some {x y : Datum} {p : List Step} : Reaches m x p y → Reaches m (.some x) p y
  | boxed {x y : Datum} {p : List Step} : Reaches m x p y → Reaches m (.boxed x) p y
  | item {x y z : Datum} {i : Nat} {p : List Step} : m.TakenApart x → m.types.view x = .sequence →
      x.parts[i]? = Option.some y → Reaches m y p z → Reaches m x (.index i :: p) z
  | field {x y z : Datum} {spec : FieldSpec} {p : List Step} : m.TakenApart x →
      m.types.view x = .entity → spec ∈ m.types.fields x →
      m.types.getField spec.name x = Option.some y → Reaches m y p z →
      Reaches m x (.key spec.name :: p) z

theorem present_eq_self_of_parts {x y : Datum} {i : Nat} (h : x.parts[i]? = some y) :
    x.present = x := by
  cases x <;> first | rfl | simp [Datum.parts] at h

theorem present_eq_self_of_fields {Γ : Catalogue} {x : Datum} {spec : FieldSpec}
    (h : spec ∈ Γ.fields x) : x.present = x := by
  cases x <;> first | rfl | simp [Catalogue.fields] at h

theorem TakenApart.encodeValue_sequence {x : Datum} (h : m.TakenApart x)
    (hview : m.types.view x = .sequence) (hx : x.present = x) :
    m.encodeValue stage x = m.encodeItems stage 0 x.parts >>= fun vs => .ok (.array vs) := by
  have hform : m.form x = .sequence := by
    simp only [form, h.notNull, h.notValue, h.unconverted, hview]
    rfl
  rw [encodeValue_eq_encodeForm, hx, encodeForm, hform]
  rfl

/-- What storing comes to is stored by itself at the end of the path, one level further down for
each field. -/
theorem Reaches.stored {x y : Datum} {p : List Step} (h : m.Reaches x p y) {room : Nat} {v : Value}
    (he : (m.encodeValue (m.stage room) x).result = .ok v) :
    ∃ r w, r + levels p = room ∧ v.at? p = Option.some w ∧
      (m.encodeValue (m.stage r) y).result = .ok w := by
  induction h generalizing room v with
  | here x => exact ⟨room, v, rfl, v.at?_nil, he⟩
  | some _ ih =>
    rw [encodeValue_some] at he
    exact ih he
  | boxed _ ih =>
    rw [encodeValue_boxed] at he
    exact ih he
  | item hx hview hi _ ih =>
    rw [hx.encodeValue_sequence hview (present_eq_self_of_parts hi)] at he
    obtain ⟨vs, hvs, rfl⟩ := Traced.bind_ok_eq_ok.1 he
    obtain ⟨u, hu, hstored⟩ := encodeItems_getElem? hvs hi
    obtain ⟨r, w, hr, hw, hy⟩ := ih hstored
    exact ⟨r, w, hr, by simpa [Value.at?, hu] using hw, hy⟩
  | field hx hview hspec hget _ ih =>
    rw [encodeValue_nested hx.notNull hx.notValue (.inr hview),
      present_eq_self_of_fields hspec] at he
    obtain ⟨d, hd, rfl⟩ := Traced.bind_ok_eq_ok.1 he
    obtain ⟨below, rfl, hbelow⟩ := stage_encode_eq_ok hd
    simp only [encode, hx.unconverted, hview] at hbelow
    obtain ⟨u, hu, hstored⟩ :=
      foldlM_encodeField_eq_ok hbelow hget (.inl (List.mem_map_of_mem hspec))
    obtain ⟨r, w, hr, hw, hy⟩ := ih hstored
    refine ⟨r, w, ?_, by simpa [Value.at?, hu] using hw, hy⟩
    simp only [levels]
    omega

theorem Reaches.append {x y z : Datum} {p q : List Step} (h : m.Reaches x p y)
    (hz : m.Reaches y q z) : m.Reaches x (p ++ q) z := by
  induction h with
  | here x => exact hz
  | some _ ih => exact .some (ih hz)
  | boxed _ ih => exact .boxed (ih hz)
  | item hx hview hi _ ih => exact .item hx hview hi (ih hz)
  | field hx hview hspec hget _ ih => exact .field hx hview hspec hget (ih hz)

theorem Reaches.of_closed {S : Datum → Prop} (some : ∀ x, S (.some x) → S x)
    (boxed : ∀ x, S (.boxed x) → S x)
    (item : ∀ x y, S x → m.types.view x = .sequence → y ∈ x.parts → S y)
    (field : ∀ x y spec, S x → m.types.view x = .entity → spec ∈ m.types.fields x →
      m.types.getField spec.name x = Option.some y → S y)
    {x y : Datum} {p : List Step} (hx : S x) (h : m.Reaches x p y) : S y := by
  induction h with
  | here x => exact hx
  | some _ ih => exact ih (some _ hx)
  | boxed _ ih => exact ih (boxed _ hx)
  | item _ hview hi _ ih => exact ih (item _ _ hx hview (List.mem_of_getElem? hi))
  | field _ hview hspec hget _ ih => exact ih (field _ _ _ hx hview hspec hget)

theorem Reaches.present (m : Mapper) (x : Datum) : m.Reaches x [] x.present := by
  induction x using Datum.present.induct with
  | case1 inner ih => exact .some ih
  | case2 inner ih => exact .boxed ih
  | case3 x h1 h2 =>
    rw [Datum.present_eq_self h1 h2]
    exact .here x

theorem Reaches.of_document {x y : Datum} {p : List Step} (h : m.Reaches x p y) {d : Document}
    (hx : x.present = .document d) : y.present = .document d := by
  induction h with
  | here x => exact hx
  | some _ ih => exact ih hx
  | boxed _ ih => exact ih hx
  | item _ hview hi _ _ =>
    rw [← Catalogue.view_present, hx] at hview
    cases hview
  | field _ hview hspec _ _ _ =>
    rw [← Catalogue.view_present, hx] at hview
    cases hview

end Mapper

end ObjectDocument
