import ObjectDocument.Proofs.RoundTrip

/-!
# Mappers without converters

A mapper with neither converters nor further value types stores each object as the value that its
type and its parts alone tell, `stored`. For such a mapper storing is told by equations, one for
each form of object.
-/

namespace ObjectDocument

theorem EnumDecl.exists_nameOf? {d : EnumDecl} {variant : String}
    (h : variant ∈ d.variants.map Prod.fst) : ∃ s, d.nameOf? variant = some s := by
  obtain ⟨v, hv, rfl⟩ := List.mem_map.1 h
  rw [← Option.isSome_iff_exists, nameOf?, Option.isSome_iff_ne_none]
  intro hn
  simpa using List.lookup_eq_none_iff.1 hn v hv

namespace Catalogue
variable (Γ : Catalogue)

mutual

/-- The value that an object is stored as, at whatever depth. -/
def stored : Datum → Value
  | .atom a => a.toValue
  | .document d => .document d
  | .seq _ items => .array (storedItems items)
  | .unit | .none _ => .null
  | .some inner => stored inner
  | .boxed inner => stored inner
  | .variant name variant => (Γ.toValue (.variant name variant)).getD .null
  | .record name parts =>
    match Γ.find? name with
    | some (.entity d) => .document ⟨storedParts d.fields parts⟩
    | _ => .null

def storedItems : List Datum → List Value
  | [] => []
  | x :: items => stored x :: storedItems items

def storedParts : List FieldDecl → List Datum → List (String × Value)
  | f :: fields, x :: parts =>
    match f.mapping with
    | some spec => (spec.name, stored x) :: storedParts fields parts
    | none => storedParts fields parts
  | _, _ => []

end

variable {Γ}

theorem storedParts_keys {fields : List FieldDecl} {parts : List Datum}
    (hlen : parts.length = fields.length) :
    (Γ.storedParts fields parts).map Prod.fst = fields.filterMap FieldDecl.key? := by
  induction fields generalizing parts with
  | nil =>
    cases List.length_eq_zero_iff.1 hlen
    rfl
  | cons f fields ih =>
    obtain ⟨x, parts, rfl⟩ := List.exists_cons_of_length_eq_add_one hlen
    have hrest : parts.length = fields.length := by simpa using hlen
    have hr := ih hrest
    cases hf : f.mapping <;> simp [storedParts, FieldDecl.key?, hf, hr]

theorem stored_of_isNull {x : Datum} (h : Γ.isNull x = true) : Γ.stored x = .null := by
  match x, h with
  | .some inner, h | .boxed inner, h =>
    rw [isNull] at h
    rw [stored, stored_of_isNull h]
  | .none t, h => rfl
  | .record name parts, h =>
    simp only [isNull] at h
    split at h
    next hd => simp [stored, hd]
    next => cases h
  | .unit, h | .atom _, h | .document _, h | .seq _ _, h | .variant _ _, h => cases h

theorem stored_variant {name variant s : String} {d : EnumDecl}
    (hd : Γ.find? name = some (.enum d)) (hs : d.nameOf? variant = some s) :
    Γ.stored (.variant name variant) = .enum s := by
  simp [stored, toValue, hd, hs]

end Catalogue

namespace Mapper
variable {m : Mapper}

/-- A mapper without converters and further value types. -/
structure Bare (m : Mapper) : Prop where
  converters : m.converters = .empty
  valueTypes : m.valueTypes = .extended []

namespace Bare

theorem regular (h : m.Bare) : m.Regular := regular_of_empty h.converters h.valueTypes

theorem find?_eq_none (h : m.Bare) (d : Descriptor) : m.converters.find? d = none := by
  rw [h.converters]
  rfl

theorem hasConverter (h : m.Bare) (t : Ty) : m.hasConverter t = false := by
  rw [Mapper.hasConverter, h.find?_eq_none]
  rfl

theorem handles_record (h : m.Bare) {name : String} {parts : List Datum} {t : Ty}
    (ht : m.types.HasType (.record name parts) t) (hm : m.Maps t) :
    ∃ d, m.types.find? name = some (.entity d) := by
  refine (Mapper.handles_record ht hm).resolve_right fun ⟨e, he, _⟩ => ?_
  simp [h.converters, Converters.empty] at he

/-! ## Storing without converters -/

variable {stage : Stage}

theorem encodeValue_document (h : m.Bare) (d : Document) :
    m.encodeValue stage (.document d) = .ok (.document d) := by
  have hform : m.form (.document d) = .document d := by
    simp only [form, Catalogue.isNull, Catalogue.typeOf, Datum.ty,
      covers_document h.regular.documents, h.find?_eq_none]
    rfl
  simp only [encodeValue, encodeForm, hform]

theorem encodeValue_seq (h : m.Bare) (t : Ty) (items : List Datum) :
    m.encodeValue stage (.seq t items) =
      m.encodeItems stage 0 items >>= fun vs => .ok (.array vs) := by
  have hcovers : m.valueTypes.covers (m.types.descriptor (.seq t)) = false := by
    simp [h.valueTypes, ValueTypes.covers, ValueTypes.contains, ValueTypes.extended,
      ValueTypes.builtin, Catalogue.descriptor, Descriptor.of]
  exact Mapper.encodeValue_seq hcovers (h.hasConverter _) items

theorem encodeValue_variant (h : m.Bare) {name variant : String} {d : EnumDecl}
    (hd : m.types.find? name = some (.enum d)) (hv : variant ∈ d.variants.map Prod.fst) :
    m.encodeValue stage (.variant name variant) = .ok (m.types.stored (.variant name variant)) := by
  obtain ⟨s, hs⟩ := d.exists_nameOf? hv
  have hto : m.types.toValue (.variant name variant) = some (.enum s) := by
    simp [Catalogue.toValue, hd, hs]
  have hform : m.form (.variant name variant) = .atom (.enum s) := by
    simp only [form, Catalogue.isNull, Catalogue.typeOf, Datum.ty, h.regular.covers_enum hd, hto]
    rfl
  simp only [encodeValue, encodeForm, hform, Catalogue.stored_variant hd hs]

theorem covers_entity (h : m.Bare) {name : String} {d : EntityDecl}
    (hd : m.types.find? name = some (.entity d)) :
    m.valueTypes.covers (m.types.descriptor (.named name)) = false := by
  simp [h.valueTypes, ValueTypes.covers, ValueTypes.contains, ValueTypes.extended,
    ValueTypes.builtin, Catalogue.descriptor_entity hd, Descriptor.of]

theorem encodeValue_entity [m.Coherent stage] (h : m.Bare) {name : String} {d : EntityDecl}
    (hd : m.types.find? name = some (.entity d)) (parts : List Datum) :
    m.encodeValue stage (.record name parts) =
      stage.encode (.record name parts) >>= fun e => .ok (.document e) :=
  Mapper.encodeValue_entity hd (h.covers_entity hd) parts

theorem encode_none (h : m.Bare) {name : String} {d : EntityDecl}
    (hd : m.types.find? name = some (.entity d)) (parts : List Datum) :
    m.encode none (.record name parts) = m.tooDeep := by
  simp only [encode, encodeEntity, h.find?_eq_none, Catalogue.view, hd]

theorem run_toDocument (h : m.Bare) {name : String} {decl : EntityDecl}
    (hd : m.types.find? name = some (.entity decl)) (parts : List Datum) :
    ((m.types.toDocument (.record name parts)).run (m.convertAt stage)).result =
      (stage.encode (.record name parts)).result :=
  run_toDocument_entity hd (h.covers_entity hd) parts

/-! ## There and back without converters -/

theorem restores (h : m.Bare) {name : String} {decl : EntityDecl}
    (hd : m.types.find? name = some (.entity decl)) (hm : m.Maps (.named name)) {x : Datum}
    (ht : m.types.HasType x (.named name)) {d : Document} (he : (m.toDocument x).result = .ok d) :
    (m.fromDocument (.named name) d).result = .ok (m.restored x) := by
  obtain ⟨parts, rfl⟩ := eq_record (.inl ⟨decl, hd⟩) ht
  have hi (depth : Nat) : m.Inverts (m.scope depth) :=
    fun e he => by simp [h.converters, Converters.empty] at he
  exact restores_conversion h.regular hi (.inl ⟨decl, hd⟩) ht hm
    (present_of_empty h.converters ht hm) he

end Bare

end Mapper

end ObjectDocument
