import ObjectDocument.Proofs.Standalone

/-!
# The shape of a document

A mapper without converters stores every entity with exactly the keys of its mapped fields in the
order of their declaration, every sequence as an array of as many values, documents as they are, and
as null what is null and nothing else. So it is at every place of the document of an entity
(`toDocument_shows`).
-/

namespace ObjectDocument

namespace Catalogue
variable {Γ : Catalogue}

@[simp] theorem stored_present (x : Datum) : Γ.stored x.present = Γ.stored x := by
  induction x using Datum.present.induct <;> simp_all [Datum.present, stored]

theorem length_storedItems (items : List Datum) :
    (Γ.storedItems items).length = items.length := by
  induction items with
  | nil => rfl
  | cons x items ih => simp [storedItems, ih]

end Catalogue

theorem EntityDecl.map_name_specs (decl : EntityDecl) :
    decl.specs.map FieldSpec.name = decl.fields.filterMap FieldDecl.key? := by
  rw [specs, List.map_filterMap]
  rfl

namespace Mapper
variable {m : Mapper}

theorem exists_hasType_present {x : Datum} {t : Ty} (ht : m.types.HasType x t) (hm : m.Maps t) :
    ∃ u, m.types.HasType x.present u ∧ m.Maps u := by
  induction x using Datum.present.induct generalizing t with
  | case1 inner ih => cases ht with | some hi => exact ih hi hm.option
  | case2 inner ih => cases ht with | boxed hi => exact ih hi hm.box
  | case3 x h1 h2 =>
    rw [Datum.present_eq_self h1 h2]
    exact ⟨t, ht, hm⟩

/-- A value is what an object is stored as, and shows it: it is null if the object is, and the keys
of an entity, the items of a sequence and the entries of a document are kept in their order. -/
structure Shows (m : Mapper) (x : Datum) (v : Value) : Prop where
  stored : ∃ room, (m.encodeValue (m.stage room) x).result = .ok v
  null : v = .null ↔ m.types.isNull x = true
  entity : ∀ name decl parts, x.present = .record name parts →
    m.types.find? name = some (.entity decl) →
    ∃ e, v = .document e ∧ e.keys = decl.specs.map FieldSpec.name ∧ e.keys.Nodup
  sequence : ∀ t items, x.present = .seq t items →
    ∃ vs, v = .array vs ∧ vs.length = items.length
  document : ∀ e, x.present = .document e → v = .document e

theorem Bare.shows (h : m.Bare) {room : Nat} {x : Datum} {t : Ty} {v : Value}
    (ht : m.types.HasType x t) (hm : m.Maps t)
    (he : (m.encodeValue (m.stage room) x).result = .ok v) : m.Shows x v := by
  have hfits := encodeValue_fits h room ht hm
  rw [Traced.Fits, Traced.Gives, he] at hfits
  obtain ⟨-, rfl⟩ := hfits
  have hpresent := m.types.stored_present x
  refine ⟨⟨room, he⟩, ⟨isNull_of_stored_null h ht hm, Catalogue.stored_of_isNull⟩, ?_, ?_, ?_⟩
  · intro name decl parts hx hd
    obtain ⟨u, hu, -⟩ := exists_hasType_present ht hm
    rw [hx] at hu hpresent
    have hkeys : (⟨m.types.storedParts decl.fields parts⟩ : Document).keys =
        decl.specs.map FieldSpec.name := by
      rw [decl.map_name_specs]
      exact Catalogue.storedParts_keys (hu.parts hd).length_eq
    refine ⟨⟨m.types.storedParts decl.fields parts⟩, ?_, hkeys, ?_⟩
    · rw [← hpresent, Catalogue.stored]
      simp only [hd]
    · rw [hkeys, decl.map_name_specs]
      exact decl.keys_nodup
  · intro t items hx
    rw [hx] at hpresent
    exact ⟨m.types.storedItems items, hpresent.symm, Catalogue.length_storedItems items⟩
  · intro e hx
    rw [hx] at hpresent
    exact hpresent.symm

/-- Wherever storing an entity comes to, its document has at that place a value that shows what is
there. -/
theorem toDocument_shows (h : m.Bare) {name : String} {decl : EntityDecl}
    (hd : m.types.find? name = some (.entity decl)) (hm : m.Maps (.named name)) {x : Datum}
    (ht : m.types.HasType x (.named name)) {d : Document} (he : (m.toDocument x).result = .ok d)
    {p : List Step} {y : Datum} (hy : m.Holds x p y) :
    ∃ v, (Value.document d).at? p = some v ∧ m.Shows y v := by
  obtain ⟨parts, rfl⟩ := eq_record (.inl ⟨decl, hd⟩) ht
  have hstored := encodeValue_of_toDocument (x := .record name parts) rfl he
  obtain ⟨room, v, -, hv, hencode⟩ := (hy.reaches h.converters hstored).stored hstored
  obtain ⟨u, hu, hmu⟩ := hy.typed ht hm
  exact ⟨v, hv, h.shows hu hmu hencode⟩

theorem toDocument_shows_folder :
    (folderMapper.toDocument nestedFolder).result = .ok nestedFolderStored ∧
      (Value.document nestedFolderStored).at? [.key "remark"] = some .null ∧
      ∃ e, (Value.document nestedFolderStored).at? [.key "folders", .index 0] =
          some (.document e) ∧ e.keys = ["id", "remark", "folders"] ∧ e.keys.Nodup := by
  have hbare : folderMapper.Bare := ⟨rfl, rfl⟩
  have he : (folderMapper.toDocument nestedFolder).result = .ok nestedFolderStored := rfl
  have hremark : folderMapper.Holds nestedFolder
      [.key (FieldSpec.mk "remark" "Option<Box<Option<String>>>" false).name]
      (.some (.boxed (.none (.atom .text)))) :=
    .field rfl rfl (List.mem_of_getElem? (i := 1) rfl) rfl (.here _)
  have hinner : folderMapper.Holds nestedFolder
      [.key (FieldSpec.mk "folders" "Vec<Folder>" false).name, .index 0]
      (folder ⟨2, by decide⟩ (.none (.box (.option (.atom .text)))) [] ⟨5, by decide⟩) :=
    .field rfl rfl (List.mem_of_getElem? (i := 2) rfl) rfl (.item (i := 0) rfl (.here _))
  obtain ⟨v, hv, hshows⟩ :=
    toDocument_shows hbare rfl maps_folder hasType_nestedFolder he hremark
  obtain ⟨w, hw, hkeys⟩ := toDocument_shows hbare rfl maps_folder hasType_nestedFolder he hinner
  obtain ⟨e, rfl, hnames, hnodup⟩ := hkeys.entity _ folderDecl _ rfl rfl
  rw [hshows.null.2 rfl] at hv
  exact ⟨he, hv, e, hw, hnames.trans rfl, hnodup⟩

end Mapper

end ObjectDocument
