import Mathlib.Data.List.Forall2
import ObjectDocument.Proofs.Bare
import ObjectDocument.Proofs.Precedence

/-!
# Reading with another schema

What is stored of an object of one entity type may be read as another type, as when fields were
added, dropped, moved, renamed in the code or made optional since. Only keys tie the two types
together: a field that shares its key takes over what was stored, and every other field is as in
the default instance (`Inherits`, kept by each field: `readPart_inherits`). Nothing can go wrong
but a key that is required and was not stored.
-/

namespace ObjectDocument

/-- Whether a field that follows another under the same key is of its type, or of an option of it if
the type shows nothing inside it. -/
def FieldDecl.Precedes (f g : FieldDecl) : Prop :=
  ∀ key, f.key? = some key → g.key? = some key →
    g.ty = f.ty ∨ g.ty = .option f.ty ∧ f.ty.isWrapper = false

namespace EntityDecl

def keys (d : EntityDecl) : List String := d.fields.filterMap FieldDecl.key?

def Precedes (old new : EntityDecl) : Prop := ∀ f ∈ old.fields, ∀ g ∈ new.fields, f.Precedes g

def Lacks (d : EntityDecl) (spec : FieldSpec) : Prop := spec.required = true ∧ spec.name ∉ d.keys

instance (d : EntityDecl) : DecidablePred d.Lacks :=
  fun spec => inferInstanceAs (Decidable (spec.required = true ∧ spec.name ∉ d.keys))

def lacking? (d : EntityDecl) (fields : List FieldDecl) : Option FieldSpec :=
  (fields.filterMap FieldDecl.mapping).find? fun spec => d.Lacks spec

theorem lacking?_cons_of_lacks {d : EntityDecl} {g : FieldDecl} {spec : FieldSpec}
    (hspec : g.mapping = some spec) (h : d.Lacks spec) (fields : List FieldDecl) :
    d.lacking? (g :: fields) = some spec := by
  rw [lacking?, List.filterMap_cons, hspec, List.find?_cons, decide_eq_true h]

theorem lacking?_cons_of_not_lacks {d : EntityDecl} {g : FieldDecl}
    (h : ∀ spec, g.mapping = some spec → ¬ d.Lacks spec) (fields : List FieldDecl) :
    d.lacking? (g :: fields) = d.lacking? fields := by
  rw [lacking?, List.filterMap_cons]
  cases hspec : g.mapping with
  | none => rfl
  | some spec =>
    simp only [List.find?_cons, decide_eq_false (h spec hspec)]
    rfl

theorem isSome_lacking? {old new : EntityDecl} :
    (old.lacking? new.fields).isSome ↔
      ∃ spec ∈ new.specs, spec.required = true ∧ spec.name ∉ old.keys := by
  rw [lacking?, List.find?_isSome]
  exact exists_congr fun spec => and_congr_right fun _ => decide_eq_true_iff

theorem exists_part {d : EntityDecl} {parts : List Datum} (hlen : parts.length = d.fields.length)
    {key : String} (hk : key ∈ d.keys) :
    ∃ f x, (f, x) ∈ d.fields.zip parts ∧ f.key? = some key := by
  obtain ⟨f, hf, hkey⟩ := List.mem_filterMap.1 hk
  obtain ⟨i, hi, rfl⟩ := List.getElem_of_mem hf
  have hzip : i < (d.fields.zip parts).length := by
    rw [List.length_zip, hlen, Nat.min_self]
    exact hi
  refine ⟨d.fields[i], parts[i], ?_, hkey⟩
  exact List.mem_iff_getElem.2 ⟨i, hzip, List.getElem_zip⟩

end EntityDecl

namespace Mapper
variable {m : Mapper} {old new : EntityDecl} {parts : List Datum}

/-- What a field of another entity is when an object with some parts was stored and is read. -/
inductive Inherits (m : Mapper) (old : EntityDecl) (parts : List Datum) (g : FieldDecl) :
    Datum → Prop where
  | kept {f : FieldDecl} {x : Datum} {key : String} : (f, x) ∈ old.fields.zip parts →
      f.key? = some key → g.key? = some key → g.ty = f.ty →
      Inherits m old parts g (m.restored x)
  | relaxed {f : FieldDecl} {x : Datum} {key : String} : (f, x) ∈ old.fields.zip parts →
      f.key? = some key → g.key? = some key → g.ty = .option f.ty →
      Inherits m old parts g (.some (m.restored x))
  /-- The field is skipped, or its key is new. -/
  | own : (∀ key, g.key? = some key → key ∉ old.keys) → Inherits m old parts g g.default

theorem Bare.isNull_eq_false (h : m.Bare) {x : Datum} {t : Ty} (ht : m.types.HasType x t)
    (hm : m.Maps t) (hw : t.isWrapper = false) : m.types.isNull x = false := by
  have hpresent := (present_of_empty h.converters ht hm).self
  cases ht with
  | none | some | boxed => cases hw
  | entity | host | unknown => exact hpresent
  | _ => rfl

section
variable {room : Nat} {entries : List (String × Value)}

theorem readValue_inherits (h : m.Bare) (hs : m.Restores (m.stage room)) {f g : FieldDecl}
    {x : Datum} {v : Value} {key : String} (ht : m.types.HasParts old.fields parts)
    (hm : m.Maps f.ty) (hfx : (f, x) ∈ old.fields.zip parts) (hf : f.key? = some key)
    (hg : g.key? = some key) (hfg : f.Precedes g)
    (hv : (m.encodeValue (m.stage room) x).result = .ok v) :
    ∃ y, (m.readValue (m.stage room) g.ty v).result = .ok y ∧ m.Inherits old parts g y := by
  have hx := ht.of_mem_zip hfx
  have hpresent := present_of_empty h.converters hx hm
  obtain ⟨hread, hnull⟩ := restores_value h.regular hs hx hm hpresent hv
  rcases hfg key hf hg with hty | ⟨hty, hw⟩
  · rw [hty]
    exact ⟨_, hread, .kept hfx hf hg hty⟩
  · -- what shows nothing inside it is not stored as null, so the option does not take it for none
    have hne : v ≠ .null := by
      intro he
      have hfalse := h.isNull_eq_false hx hm hw
      rw [hnull he] at hfalse
      cases hfalse
    rw [hty, readValue_option, if_neg hne]
    exact ⟨_, Traced.bind_ok_eq_ok.2 ⟨_, hread, rfl⟩, .relaxed hfx hf hg hty⟩

variable (h : m.Bare) (hs : m.Restores (m.stage room)) (ht : m.types.HasParts old.fields parts)
  (hm : ∀ f ∈ old.fields, f.mapping.isSome → m.Maps f.ty)
  (he : (m.storeParts (m.stage room) old.fields parts).result = .ok entries)
include h hs ht hm he

theorem readPart_inherits (name : String) {g : FieldDecl} (hg : ∀ f ∈ old.fields, f.Precedes g) :
    (m.readPart (m.stage room) name ⟨entries⟩ g).Gives
      (fun y => (∀ spec, g.mapping = some spec → ¬ old.Lacks spec) ∧ m.Inherits old parts g y)
      fun e => ∃ spec, g.mapping = some spec ∧ old.Lacks spec ∧
        e = .here (.missingField name spec.name) := by
  have hlen := ht.length_eq
  cases hspec : g.mapping with
  | none =>
    simp only [readPart, hspec]
    exact ⟨nofun, .own (by simp [FieldDecl.key?, hspec])⟩
  | some spec =>
    have hkey : g.key? = some spec.name := by simp [FieldDecl.key?, hspec]
    by_cases hk : spec.name ∈ old.keys
    · obtain ⟨f, x, hfx, hf⟩ := EntityDecl.exists_part hlen hk
      obtain ⟨fspec, hfspec, hname⟩ := Option.map_eq_some_iff.1 hf
      obtain ⟨v, hmem, hv⟩ := storeParts_mem he hfx hfspec
      rw [hname] at hmem
      have hfields := (List.of_mem_zip hfx).1
      have hmf := hm f hfields (by simp [hfspec])
      obtain ⟨y, hread, hy⟩ := readValue_inherits h hs ht hmf hfx hf hkey (hg f hfields) hv
      have hpart : (m.readPart (m.stage room) name ⟨entries⟩ g).result = .ok y := by
        simp only [readPart, hspec, storeParts_get? hlen he hmem]
        exact Traced.under_eq_ok.2 hread
      rw [Traced.Gives, hpart]
      refine ⟨fun spec' hspec' hl => ?_, hy⟩
      cases hspec'
      exact hl.2 hk
    · have hget : (⟨entries⟩ : Document).get? spec.name = none := by
        rw [← Option.not_isSome_iff_eq_none, Document.get?_isSome, Document.keys,
          storeParts_keys hlen he]
        exact hk
      simp only [readPart, hspec, hget]
      cases hreq : spec.required with
      | true => exact ⟨spec, rfl, ⟨hreq, hk⟩, rfl⟩
      | false =>
        refine ⟨fun spec' hspec' hl => ?_, .own fun key hg => ?_⟩
        · cases hspec'
          exact Bool.false_ne_true (hreq.symm.trans hl.1)
        · cases hkey.symm.trans hg
          exact hk

theorem readParts_inherits (name : String) {fields : List FieldDecl}
    (hg : ∀ f ∈ old.fields, ∀ g ∈ fields, f.Precedes g) :
    (m.readParts (m.stage room) name ⟨entries⟩ fields).Gives
      (fun ys => old.lacking? fields = none ∧ List.Forall₂ (m.Inherits old parts) fields ys)
      fun e => ∃ spec, old.lacking? fields = some spec ∧
        e = .here (.missingField name spec.name) := by
  induction fields with
  | nil => exact ⟨rfl, .nil⟩
  | cons g fields ih =>
    have hpart := readPart_inherits h hs ht hm he name
      fun f hf => hg f hf g List.mem_cons_self
    have hparts := ih fun f hf g' hg' => hg f hf g' (List.mem_cons_of_mem g hg')
    refine (hpart.imp (fun _ hy => hy) ?_).bind fun y hy => ?_
    · rintro e ⟨spec, hspec, hl, rfl⟩
      exact ⟨spec, EntityDecl.lacking?_cons_of_lacks hspec hl fields, rfl⟩
    · rw [← EntityDecl.lacking?_cons_of_not_lacks hy.1 fields] at hparts
      exact hparts.bind fun ys hys => ⟨hys.1, .cons hy.2 hys.2⟩

end

/-- What is stored of an entity is read as another with any fields in any order, unless the other
requires a key that was not stored: the first such key is told. A key that both have is taken over,
also into an option where it became one; keys that only the first has are not looked at. -/
theorem fromDocument_evolved (h : m.Bare) {a b : String}
    (ha : m.types.find? a = some (.entity old)) (hb : m.types.find? b = some (.entity new))
    (hm : m.Maps (.named a)) (hprecedes : old.Precedes new)
    (ht : m.types.HasType (.record a parts) (.named a)) {d : Document}
    (he : (m.toDocument (.record a parts)).result = .ok d) :
    let result := (m.fromDocument (.named b) d).result
    ((∃ e, result = .error e) ↔
        ∃ spec ∈ new.specs, spec.required = true ∧ spec.name ∉ old.keys) ∧
      (∀ spec, old.lacking? new.fields = some spec →
        result = .error (.here (.missingField b spec.name))) ∧
      (old.lacking? new.fields = none → ∃ ys, result = .ok (.record b ys) ∧
        List.Forall₂ (m.Inherits old parts) new.fields ys) := by
  intro result
  have hparts := ht.parts ha
  have hmaps (f : FieldDecl) (hf : f ∈ old.fields) (hs : f.mapping.isSome) : m.Maps f.ty :=
    hm.field ha (h.hasConverter _) hf hs
  have hi (depth : Nat) : m.Inverts (m.scope depth) :=
    fun e he => by simp [h.converters, Converters.empty] at he
  have hs := restores_stage h.regular hi (Nat.le_succ m.settings.maxDepth)
  -- the entity itself is encoded at the highest stage, and its fields one stage below
  have hstored : (m.storeParts (m.stage m.settings.maxDepth) old.fields parts >>=
      fun entries => Traced.ok (⟨entries⟩ : Document)).result = .ok d := by
    rw [← encode_entity ha (h.find?_eq_none _) hparts.length_eq]
    rwa [toDocument, convert, scope, h.run_toDocument ha] at he
  obtain ⟨entries, hentries, rfl⟩ := Traced.bind_ok_eq_ok.1 hstored
  have hread := readParts_inherits h hs hparts hmaps hentries b hprecedes
  have hresult : result =
      (m.readParts (m.stage m.settings.maxDepth) b ⟨entries⟩ new.fields).result.map
        (.record b) := by
    rw [← readValue_entity_succ h.regular.documents hb (h.find?_eq_none _),
      ← fromDocument_eq_readValue (.inl ⟨new, hb⟩)]
  rw [← EntityDecl.isSome_lacking?, hresult]
  rw [Traced.Gives] at hread
  cases hfields : (m.readParts (m.stage m.settings.maxDepth) b ⟨entries⟩ new.fields).result with
  | ok ys =>
    rw [hfields] at hread
    obtain ⟨hnone, hinherits⟩ := hread
    rw [hnone]
    exact ⟨by simp [Except.map], by simp, fun _ => ⟨ys, rfl, hinherits⟩⟩
  | error e =>
    rw [hfields] at hread
    obtain ⟨spec, hsome, rfl⟩ := hread
    rw [hsome]
    refine ⟨by simp [Except.map], fun spec' he => ?_, by simp⟩
    cases he
    rfl

/-! A track, with covers of it, is read as a song, whose length may be unknown and which has stars
instead of a title, and as a release, which has a label. -/

def trackDecl : EntityDecl where
  fields :=
    [⟨"title", .atom .text, some ⟨"title", "String", true⟩, .atom (.text "")⟩,
      ⟨"length", .atom (.integer .u32), some ⟨"seconds", "u32", false⟩,
        .atom (.integer (.zero .u32))⟩,
      ⟨"covers", .seq (.named "Track"), some ⟨"covers", "Vec<Track>", false⟩,
        .seq (.named "Track") []⟩,
      ⟨"heard", .atom .bool, none, .atom (.bool false)⟩]
  keys_nodup := by decide

def songDecl : EntityDecl where
  fields :=
    [⟨"heard", .atom .bool, none, .atom (.bool true)⟩,
      ⟨"covers", .seq (.named "Track"), some ⟨"covers", "Vec<Track>", true⟩,
        .seq (.named "Track") []⟩,
      ⟨"stars", .atom .char, some ⟨"stars", "char", false⟩, .atom (.char '3')⟩,
      ⟨"seconds", .option (.atom (.integer .u32)), some ⟨"seconds", "Option<u32>", true⟩,
        .none (.atom (.integer .u32))⟩]
  keys_nodup := by decide

def releaseDecl : EntityDecl where
  fields :=
    [⟨"title", .atom .text, some ⟨"title", "String", true⟩, .atom (.text "")⟩,
      ⟨"label", .atom .text, some ⟨"label", "String", true⟩, .atom (.text "")⟩,
      ⟨"year", .atom (.integer .u32), some ⟨"year", "u32", true⟩, .atom (.integer (.zero .u32))⟩]
  keys_nodup := by decide

def trackTypes : Catalogue :=
  ⟨[("Track", .entity trackDecl), ("Song", .entity songDecl), ("Release", .entity releaseDecl)],
    .quiet⟩

def trackMapper : Mapper := ⟨trackTypes, .extended [], .empty, ⟨1, true⟩⟩

def trackParts (title : String) (length : Integer .u32) (covers : List Datum) (heard : Bool) :
    List Datum :=
  [.atom (.text title), .atom (.integer length), .seq (.named "Track") covers, .atom (.bool heard)]

theorem maps_track : trackMapper.Maps (.named "Track") := by
  refine Maps.of_closed (S := fun t => t ∈ [.named "Track", .atom .text, .atom (.integer .u32),
    .seq (.named "Track")]) ?handles ?seq ?option ?box ?field (by simp)
  case handles =>
    intro t ht
    simp only [List.mem_cons, List.not_mem_nil, or_false] at ht
    rcases ht with rfl | rfl | rfl | rfl
    · exact .inl ⟨trackDecl, rfl⟩
    all_goals trivial
  case seq | option | box => simp
  case field =>
    intro name d f hS hd hf hm
    obtain rfl : name = "Track" := by simpa using hS
    cases hd
    simp only [trackDecl, List.mem_cons, List.not_mem_nil, or_false] at hf
    rcases hf with rfl | rfl | rfl | rfl <;> simp_all

theorem hasType_track (title : String) (length : Integer .u32) {covers : List Datum} (heard : Bool)
    (hc : trackTypes.HasItems (.named "Track") covers) :
    trackTypes.HasType (.record "Track" (trackParts title length covers heard)) (.named "Track") :=
  .entity (d := trackDecl) rfl
    (.cons (.atom (.text title))
      (.cons (.atom (.integer length)) (.cons (.seq hc) (.cons (.atom (.bool heard)) .nil))))

theorem precedes_track : trackDecl.Precedes songDecl ∧ trackDecl.Precedes releaseDecl := by
  constructor <;>
    simp [EntityDecl.Precedes, trackDecl, songDecl, releaseDecl, FieldDecl.Precedes,
      FieldDecl.key?, Ty.isWrapper]

def cover (heard : Bool) : Datum := .record "Track" (trackParts "B" ⟨60, by decide⟩ [] heard)

def trackStored : Document :=
  ⟨[("title", .string "A"), ("seconds", .uint64 ⟨90, by decide⟩),
    ("covers", .array [.document ⟨[("title", .string "B"), ("seconds", .uint64 ⟨60, by decide⟩),
      ("covers", .array [])]⟩])]⟩

def songParts : List Datum :=
  [.atom (.bool true), .seq (.named "Track") [cover false], .atom (.char '3'),
    .some (.atom (.integer (t := .u32) ⟨90, by decide⟩))]

theorem fromDocument_evolved_track :
    let parts := trackParts "A" ⟨90, by decide⟩ [cover true] false
    (trackMapper.toDocument (.record "Track" parts)).result = .ok trackStored ∧
      (trackMapper.fromDocument (.named "Song") trackStored).result =
        .ok (.record "Song" songParts) ∧
      List.Forall₂ (trackMapper.Inherits trackDecl parts) songDecl.fields songParts ∧
      (trackMapper.fromDocument (.named "Release") trackStored).result =
        .error (.here (.missingField "Release" "label")) := by
  intro parts
  have hbare : trackMapper.Bare := ⟨rfl, rfl⟩
  have ht : trackTypes.HasType (.record "Track" parts) (.named "Track") :=
    hasType_track _ _ _ (.cons (hasType_track _ _ _ .nil) .nil)
  have he : (trackMapper.toDocument (.record "Track" parts)).result = .ok trackStored := rfl
  obtain ⟨-, -, hsong⟩ := fromDocument_evolved (b := "Song") hbare rfl rfl maps_track
    precedes_track.1 ht he
  obtain ⟨-, hrelease, -⟩ := fromDocument_evolved (b := "Release") hbare rfl rfl maps_track
    precedes_track.2 ht he
  have hread : (trackMapper.fromDocument (.named "Song") trackStored).result =
      .ok (.record "Song" songParts) := rfl
  obtain ⟨ys, hys, hinherits⟩ := hsong rfl
  cases hread.symm.trans hys
  exact ⟨he, hread, hinherits, hrelease _ rfl⟩

end Mapper

end ObjectDocument
