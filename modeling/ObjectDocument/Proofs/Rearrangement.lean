import Mathlib.Data.List.Forall2
import ObjectDocument.Proofs.Evolution
import ObjectDocument.Proofs.ReadBack
import ObjectDocument.Proofs.Standalone

/-!
# The order of entries and foreign entries

Reading an entity goes by its fields and not by the document. So the entries of a document may
stand in another order, and entries that the entity does not declare may be there or not, at every
document that is read as an entity (`Rearranged`): the same is read, or the same failure is told
(`readValue_rearranged`). It is asked that no document has a name twice, for of a name that is
repeated the first entry counts.
-/

namespace ObjectDocument

def Value.NamesDistinct : Value → Prop
  | .document d => d.keys.Nodup
  | _ => True

theorem Document.get?_eq_some_iff {d : Document} (hn : d.keys.Nodup) {key : String} {v : Value} :
    d.get? key = some v ↔ (key, v) ∈ d.entries := by
  refine ⟨fun h => ?_, get?_of_mem hn⟩
  obtain ⟨before, after, he, -⟩ := List.lookup_eq_some_iff.1 h
  simp [he]

theorem Document.get?_eq_lookup {d : Document} (hn : d.keys.Nodup) {entries : List (String × Value)}
    (hp : d.entries.Perm entries) (key : String) : d.get? key = entries.lookup key := by
  have hn' : (⟨entries⟩ : Document).keys.Nodup := (hp.map Prod.fst).nodup_iff.1 hn
  change d.get? key = (⟨entries⟩ : Document).get? key
  ext v
  rw [Document.get?_eq_some_iff hn, Document.get?_eq_some_iff hn', hp.mem_iff]

theorem lookup_append_left {key : String} {kept foreign : List (String × Value)}
    (h : ∀ e ∈ foreign, e.1 ≠ key) : (kept ++ foreign).lookup key = kept.lookup key := by
  have hnone : foreign.lookup key = none :=
    List.lookup_eq_none_iff.2 fun e he => by simpa using (h e he).symm
  rw [List.lookup_append, hnone, Option.or_none]

theorem rel_lookup {R : String → Value → Value → Prop} {kept kept' : List (String × Value)}
    (h : List.Forall₂ (fun e e' => e.1 = e'.1 ∧ R e.1 e.2 e'.2) kept kept') (key : String) :
    Option.Rel (R key) (kept.lookup key) (kept'.lookup key) := by
  induction h with
  | nil => exact .none
  | @cons e e' kept kept' he _ ih =>
    obtain ⟨name, v⟩ := e
    obtain ⟨name', w⟩ := e'
    obtain ⟨rfl, hvw⟩ := he
    simp only [List.lookup_cons]
    by_cases hkey : key = name
    · subst hkey
      simpa using Option.Rel.some hvw
    · simpa [beq_eq_false_iff_ne.2 hkey] using ih

namespace Catalogue
variable (Γ : Catalogue)

inductive FieldReads (name : String) : String → Ty → Prop where
  | derived {decl : EntityDecl} {f : FieldDecl} {spec : FieldSpec} :
      Γ.find? name = some (.entity decl) → f ∈ decl.fields → f.mapping = some spec →
      FieldReads name spec.name f.ty
  | byHand {h : HostDecl} {key : String} {t : Ty} {put : Datum → List Datum → List Datum} :
      Γ.find? name = some (.host h) →
      (∀ v parts, h.setField key v parts = Γ.fromValue t v >>= fun y => .ok (put y parts)) →
      FieldReads name key t

mutual

/-- Two values that differ, where they are read as a type, only in documents that are read as
entities: their entries are in another order, and there are other entries whose names the entity
does not declare. A skipped field declares no name. -/
inductive Rearranged : Ty → Value → Value → Prop where
  | same (t : Ty) (v : Value) : Rearranged t v v
  | seq {t : Ty} {vs ws : List Value} :
      RearrangedItems t vs ws → Rearranged (.seq t) (.array vs) (.array ws)
  | option {t : Ty} {v w : Value} : Rearranged t v w → Rearranged (.option t) v w
  | box {t : Ty} {v w : Value} : Rearranged t v w → Rearranged (.box t) v w
  | entity {name own : String} {fields : List FieldSpec} {start : List Datum} {d d' : Document}
      {kept kept' foreign foreign' : List (String × Value)} :
      Γ.AsksMapper (.named name) →
      (Γ.descriptor (.named name)).schema? = some ⟨fields, .record own start⟩ →
      d.entries.Perm (kept ++ foreign) → d'.entries.Perm (kept' ++ foreign') →
      (∀ e ∈ foreign ++ foreign', e.1 ∉ fields.map FieldSpec.name) →
      RearrangedEntries own kept kept' → Rearranged (.named name) (.document d) (.document d')

inductive RearrangedItems : Ty → List Value → List Value → Prop where
  | nil {t : Ty} : RearrangedItems t [] []
  | cons {t : Ty} {v w : Value} {vs ws : List Value} :
      Rearranged t v w → RearrangedItems t vs ws → RearrangedItems t (v :: vs) (w :: ws)

inductive RearrangedEntries : String → List (String × Value) → List (String × Value) → Prop where
  | nil {own : String} : RearrangedEntries own [] []
  | same {own : String} (e : String × Value) {kept kept' : List (String × Value)} :
      RearrangedEntries own kept kept' → RearrangedEntries own (e :: kept) (e :: kept')
  | field {own key : String} {t : Ty} {v w : Value} {kept kept' : List (String × Value)} :
      Γ.FieldReads own key t → Rearranged t v w → RearrangedEntries own kept kept' →
      RearrangedEntries own ((key, v) :: kept) ((key, w) :: kept')

end

variable {Γ}

theorem Rearranged.derived {name : String} {decl : EntityDecl} {d d' : Document}
    {kept kept' foreign foreign' : List (String × Value)}
    (hd : Γ.find? name = some (.entity decl)) (hp : d.entries.Perm (kept ++ foreign))
    (hp' : d'.entries.Perm (kept' ++ foreign'))
    (hf : ∀ e ∈ foreign ++ foreign', e.1 ∉ decl.specs.map FieldSpec.name)
    (hk : Γ.RearrangedEntries name kept kept') :
    Γ.Rearranged (.named name) (.document d) (.document d') := by
  have hs : (Γ.descriptor (.named name)).schema? =
      some ⟨decl.specs, .record name (decl.fields.map FieldDecl.default)⟩ := by
    rw [descriptor_entity hd]
    rfl
  exact .entity (.entity hd) hs hp hp' hf hk

theorem Rearranged.null_iff {t : Ty} {v w : Value} :
    Γ.Rearranged t v w → (v = .null ↔ w = .null)
  | .same _ _ => Iff.rfl
  | .seq _ | .entity _ _ _ _ _ _ => by simp
  | .option h | .box h => h.null_iff

end Catalogue

namespace Mapper
variable {m : Mapper} {stage : Stage}

open Catalogue (FieldReads Rearranged RearrangedItems RearrangedEntries)

/-! ## One entity -/

def SetAlike (m : Mapper) (stage : Stage) (own key : String) (v w : Value) : Prop :=
  ∀ parts, (m.types.setField (.record own parts) key v).run (m.convertAt stage) =
    (m.types.setField (.record own parts) key w).run (m.convertAt stage)

theorem setAlike_of_readValue {own key : String} {t : Ty} {v w : Value}
    (h : m.types.FieldReads own key t) (hr : m.readValue stage t v = m.readValue stage t w) :
    m.SetAlike stage own key v w := by
  intro parts
  rw [readValue, readValue] at hr
  cases h with
  | derived hd hf hm =>
    obtain ⟨before, after, hsplit⟩ := List.append_of_mem hf
    simp only [Catalogue.setField, hd, EntityDecl.field?_eq hsplit hm, Dialogue.run_bind, hr]
  | byHand hd hset => simp only [Catalogue.setField, hd, hset, Dialogue.run_bind, hr]

theorem decodeField_congr {d d' : Document} {target : Descriptor} {own : String} {spec : FieldSpec}
    (h : Option.Rel (m.SetAlike stage own spec.name) (d.get? spec.name) (d'.get? spec.name))
    (parts : List Datum) :
    m.decodeField stage d target (.record own parts) spec =
      m.decodeField stage d' target (.record own parts) spec := by
  rw [decodeField, decodeField]
  generalize d.get? spec.name = v at h
  generalize d'.get? spec.name = w at h
  cases h with
  | none => rfl
  | some h => simp only [h parts]

theorem foldlM_decodeField_congr {d d' : Document} {target : Descriptor} {own : String}
    {fields : List FieldSpec}
    (h : ∀ spec ∈ fields,
      Option.Rel (m.SetAlike stage own spec.name) (d.get? spec.name) (d'.get? spec.name))
    (parts : List Datum) :
    fields.foldlM (m.decodeField stage d target) (.record own parts) =
      fields.foldlM (m.decodeField stage d' target) (.record own parts) := by
  refine Traced.foldlM_congr (P := fun y => ∃ ps, y = .record own ps) ⟨parts, rfl⟩ ?_ ?_
  · rintro _ ⟨ps, rfl⟩ spec hspec
    exact decodeField_congr (h spec hspec) ps
  · rintro _ ⟨ps, rfl⟩ spec - y hy
    rcases decodeField_eq_ok hy with rfl | ⟨name, parts, parts', he, rfl⟩
    · exact ⟨ps, rfl⟩
    · cases he
      exact ⟨parts', rfl⟩

theorem run_fromDocument_congr {t : Ty} {d d' : Document}
    (h : stage.decode d (m.types.descriptor t) = stage.decode d' (m.types.descriptor t)) :
    (m.types.fromDocument t d).run (m.convertAt stage) =
      (m.types.fromDocument t d').run (m.convertAt stage) := by
  have hroute : m.route (some (.document d)) (m.types.descriptor t) =
      m.route (some (.document d')) (m.types.descriptor t) := rfl
  have hne : m.route (some (.document d')) (m.types.descriptor t) ≠ .encode := by
    simp only [route, Datum.asDocument?]
    grind
  simp only [Catalogue.fromDocument, Dialogue.run, convertAt, Option.map_some, Datum.present,
    hroute]
  generalize m.route (some (.document d')) (m.types.descriptor t) = route at hne
  cases route with
  | encode => exact absurd rfl hne
  | decode => simp only [Datum.asDocument?, h]
  | _ => rfl

/-! ## Whole values -/

mutual

theorem readValue_rearranged (hc : m.converters = .empty) {t : Ty} {v w : Value} :
    m.types.Rearranged t v w → v.Everywhere Value.NamesDistinct →
      w.Everywhere Value.NamesDistinct → ∀ room,
      m.readValue (m.stage room) t v = m.readValue (m.stage room) t w
  | .same t v, _, _, _ => rfl
  | .seq h, hv, hw, room => by
    have hitems := readItems_rearranged hc h (fun _ => hv.item) (fun _ => hw.item) room 0
    rw [readValue_seq, readValue_seq]
    simp only [Value.asArray?, hitems]
  | .option h, hv, hw, room => by
    rw [readValue_option, readValue_option, readValue_rearranged hc h hv hw room]
    simp only [h.null_iff]
  | .box h, hv, hw, room => by
    rw [readValue_box, readValue_box, readValue_rearranged hc h hv hw room]
  | @Rearranged.entity _ name own fields start d d' kept kept' foreign foreign' hask hs hp hp' hf
      hk, hv, hw, room => by
    rw [readValue, readValue, hask.fromValue, hask.fromValue]
    apply run_fromDocument_congr
    cases room with
    | zero => rfl
    | succ room =>
      have hkept := setAlike_rearranged hc hk
        (fun e he => hv.entry (hp.mem_iff.2 (List.mem_append_left _ he)))
        (fun e he => hw.entry (hp'.mem_iff.2 (List.mem_append_left _ he))) room
      have hnone := find?_of_empty hc (m.types.descriptor (.named name))
      simp only [stage, decode, hnone, hs]
      refine foldlM_decodeField_congr (fun spec hspec => ?_) start
      have hname : spec.name ∈ fields.map FieldSpec.name := List.mem_map_of_mem hspec
      have hne : ∀ e ∈ foreign ++ foreign', e.1 ≠ spec.name := fun e he h => hf e he (h ▸ hname)
      rw [Document.get?_eq_lookup hv.self hp, Document.get?_eq_lookup hw.self hp',
        lookup_append_left fun e he => hne e (List.mem_append_left _ he),
        lookup_append_left fun e he => hne e (List.mem_append_right _ he)]
      exact rel_lookup hkept spec.name

theorem readItems_rearranged (hc : m.converters = .empty) {t : Ty} {vs ws : List Value} :
    m.types.RearrangedItems t vs ws → (∀ v ∈ vs, v.Everywhere Value.NamesDistinct) →
      (∀ w ∈ ws, w.Everywhere Value.NamesDistinct) → ∀ room i,
      m.readItems (m.stage room) t i vs = m.readItems (m.stage room) t i ws
  | .nil, _, _, _, _ => rfl
  | .cons h hrest, hv, hw, room, i => by
    rw [List.forall_mem_cons] at hv hw
    rw [readItems, readItems, readValue_rearranged hc h hv.1 hw.1 room,
      readItems_rearranged hc hrest hv.2 hw.2 room (i + 1)]

theorem setAlike_rearranged (hc : m.converters = .empty) {own : String}
    {kept kept' : List (String × Value)} :
    m.types.RearrangedEntries own kept kept' →
      (∀ e ∈ kept, e.2.Everywhere Value.NamesDistinct) →
      (∀ e ∈ kept', e.2.Everywhere Value.NamesDistinct) → ∀ room,
      List.Forall₂ (fun e e' => e.1 = e'.1 ∧ m.SetAlike (m.stage room) own e.1 e.2 e'.2) kept kept'
  | .nil, _, _, _ => .nil
  | .same e hrest, hv, hw, room => by
    rw [List.forall_mem_cons] at hv hw
    exact .cons ⟨rfl, fun _ => rfl⟩ (setAlike_rearranged hc hrest hv.2 hw.2 room)
  | .field hreads h hrest, hv, hw, room => by
    rw [List.forall_mem_cons] at hv hw
    have hread := readValue_rearranged hc h hv.1 hw.1 room
    exact .cons ⟨rfl, setAlike_of_readValue hreads hread⟩
      (setAlike_rearranged hc hrest hv.2 hw.2 room)

end

/-- Without converters an entity is read alike from documents that differ only in the order of
entries and in entries that are not declared: the same object, or the same failure, and the same
events. -/
theorem fromDocument_rearranged (hc : m.converters = .empty) {name : String} {decl : EntityDecl}
    (hd : m.types.find? name = some (.entity decl)) {d d' : Document}
    (hn : (Value.document d).Everywhere Value.NamesDistinct)
    (hn' : (Value.document d').Everywhere Value.NamesDistinct)
    (h : m.types.Rearranged (.named name) (.document d) (.document d')) :
    m.fromDocument (.named name) d = m.fromDocument (.named name) d' := by
  have hnested : m.types.KeptNested name := .inl ⟨decl, hd⟩
  rw [fromDocument_eq_readValue hnested, fromDocument_eq_readValue hnested]
  exact readValue_rearranged hc h hn hn' _

/-! The length of a track has another name in documents, and whether it was heard has none. -/

def plainTrack (seconds : Value) : Document :=
  ⟨[("title", .string "A"),
    ("covers", .array [.document ⟨[("title", .string "B"), ("seconds", seconds)]⟩])]⟩

def shuffledTrack (seconds : Value) : Document :=
  ⟨[("length", .null),
    ("covers", .array [.document
      ⟨[("heard", .bool true), ("seconds", seconds), ("title", .string "B")]⟩]),
    ("title", .string "A")]⟩

theorem namesDistinct_track {seconds : Value} (h : seconds.Everywhere Value.NamesDistinct) :
    (Value.document (plainTrack seconds)).Everywhere Value.NamesDistinct ∧
      (Value.document (shuffledTrack seconds)).Everywhere Value.NamesDistinct := by
  have htext (s : String) : (Value.string s).Everywhere Value.NamesDistinct :=
    (Value.everywhere_plain rfl rfl).2 trivial
  have hnull : Value.null.Everywhere Value.NamesDistinct :=
    (Value.everywhere_plain rfl rfl).2 trivial
  have hbool : (Value.bool true).Everywhere Value.NamesDistinct :=
    (Value.everywhere_plain rfl rfl).2 trivial
  simp [plainTrack, shuffledTrack, Value.everywhere_document, Value.everywhere_array,
    Value.NamesDistinct, Document.keys, htext, hnull, hbool, h]

theorem rearranged_track (seconds : Value) :
    trackTypes.Rearranged (.named "Track") (.document (plainTrack seconds))
      (.document (shuffledTrack seconds)) := by
  have hcover : trackTypes.Rearranged (.named "Track")
      (.document ⟨[("title", .string "B"), ("seconds", seconds)]⟩)
      (.document ⟨[("heard", .bool true), ("seconds", seconds), ("title", .string "B")]⟩) :=
    @Rearranged.derived _ _ trackDecl _ _ [("title", .string "B"), ("seconds", seconds)]
      [("title", .string "B"), ("seconds", seconds)] [] [("heard", .bool true)] rfl (.refl _)
      (List.reverse_perm [("title", Value.string "B"), ("seconds", seconds), ("heard", .bool true)])
      (by simp [trackDecl, EntityDecl.specs]) (.same _ (.same _ .nil))
  have hcovers : trackTypes.FieldReads "Track" "covers" (.seq (.named "Track")) :=
    @FieldReads.derived _ _ trackDecl _ _ rfl (List.mem_of_getElem? (i := 2) rfl) rfl
  exact @Rearranged.derived _ _ trackDecl _ _ _ [("title", .string "A"), ("covers", .array [_])] []
    [("length", .null)] rfl (.refl _)
    (List.reverse_perm [("title", Value.string "A"), ("covers", .array [_]), ("length", .null)])
    (by simp [trackDecl, EntityDecl.specs])
    (.same _ (.field hcovers (.seq (.cons hcover .nil)) .nil))

theorem fromDocument_rearranged_track :
    (trackMapper.fromDocument (.named "Track") (shuffledTrack (.uint64 ⟨60, by decide⟩))).result =
        .ok (.record "Track" (trackParts "A" (.zero .u32) [cover false] false)) ∧
      (trackMapper.fromDocument (.named "Track") (shuffledTrack (.bool true))).result =
        .error (.structural ["covers", "[0]", "seconds"] (.typeMismatch "u32" "Bool")) := by
  have hread (seconds : Value) (hs : seconds.Everywhere Value.NamesDistinct) :
      trackMapper.fromDocument (.named "Track") (plainTrack seconds) =
        trackMapper.fromDocument (.named "Track") (shuffledTrack seconds) :=
    fromDocument_rearranged rfl rfl (namesDistinct_track hs).1
      (namesDistinct_track hs).2 (rearranged_track seconds)
  have hlong : (Value.uint64 ⟨60, by decide⟩).Everywhere Value.NamesDistinct :=
    (Value.everywhere_plain rfl rfl).2 trivial
  have hbool : (Value.bool true).Everywhere Value.NamesDistinct :=
    (Value.everywhere_plain rfl rfl).2 trivial
  rw [← hread _ hlong, ← hread _ hbool]
  exact ⟨rfl, rfl⟩

end Mapper

end ObjectDocument
