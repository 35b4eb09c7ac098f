import ObjectDocument.Proofs.RoundTrip
import ObjectDocument.Proofs.Setup

/-!
# The mapper that a converter is handed

Encoding and decoding count levels apart from each other: one as it enters fields, the other as it
is asked for nested objects. Both hand the converter of an object the mapper one level below the
path that leads to it. So a converter that undoes itself with one mapper in both directions is
undone wherever it takes over, at the limit too.
-/

namespace ObjectDocument

theorem AtomType.type_of_ofValue? {nan : WideNaN} {a : AtomType} {v : Value}
    {b : Atom} (h : a.ofValue? nan v = some b) : b.type = a := by
  cases a <;> cases v <;> simp [ofValue?, Value.asFloat64?] at h
  all_goals grind [Atom.type]

namespace Mapper
variable {m : Mapper} {stage : Stage}

/-! ## Parts -/

theorem encodeItems_getElem? {items : List Datum} {start : Nat} {vs : List Value}
    (h : (m.encodeItems stage start items).result = .ok vs) {i : Nat} {x : Datum}
    (hx : items[i]? = some x) : ∃ v, vs[i]? = some v ∧ (m.encodeValue stage x).result = .ok v := by
  induction items generalizing start vs i with
  | nil => simp at hx
  | cons y rest ih =>
    simp only [encodeItems, Traced.bind_eq_ok, Traced.under_eq_ok] at h
    obtain ⟨v, hv, ws, hws, hw⟩ := h
    cases hw
    cases i with
    | zero =>
      obtain rfl : y = x := by simpa using hx
      exact ⟨v, rfl, hv⟩
    | succ i => exact ih hws (by simpa using hx)

theorem readItems_getElem? {t : Ty} {start : Nat} {vs : List Value} {xs : List Datum}
    (h : (m.readItems stage t start vs).result = .ok xs) {i : Nat} {x : Datum}
    (hx : xs[i]? = some x) : ∃ v, vs[i]? = some v ∧ (m.readValue stage t v).result = .ok x := by
  induction vs generalizing start xs i with
  | nil =>
    cases h
    simp at hx
  | cons v rest ih =>
    simp only [readItems, Traced.bind_eq_ok, Traced.under_eq_ok] at h
    obtain ⟨y, hy, ys, hys, hw⟩ := h
    cases hw
    cases i with
    | zero =>
      obtain rfl : y = x := by simpa using hx
      exact ⟨v, rfl, hy⟩
    | succ i => exact ih hys (by simpa using hx)

theorem storeParts_mem {fields : List FieldDecl} {parts : List Datum}
    {entries : List (String × Value)} (h : (m.storeParts stage fields parts).result = .ok entries)
    {f : FieldDecl} {spec : FieldSpec} {x : Datum} (hfx : (f, x) ∈ fields.zip parts)
    (hf : f.mapping = some spec) :
    ∃ v, (spec.name, v) ∈ entries ∧ (m.encodeValue stage x).result = .ok v := by
  induction fields generalizing parts entries with
  | nil => simp at hfx
  | cons g fields ih =>
    cases parts with
    | nil => simp at hfx
    | cons y parts =>
      cases hg : g.mapping with
      | none =>
        simp only [storeParts, hg] at h
        rcases List.mem_cons.1 hfx with he | hfx
        · cases he
          simp [hf] at hg
        · exact ih h hfx
      | some spec' =>
        simp only [storeParts, hg, Traced.bind_eq_ok, Traced.under_eq_ok] at h
        obtain ⟨v, hv, more, hmore, hw⟩ := h
        cases hw
        rcases List.mem_cons.1 hfx with he | hfx
        · cases he
          cases hf.symm.trans hg
          exact ⟨v, by simp, hv⟩
        · obtain ⟨w, hw, hr⟩ := ih hmore hfx
          exact ⟨w, by simp [hw], hr⟩

theorem readParts_mem {name : String} {d : Document} {fields : List FieldDecl} {parts : List Datum}
    (h : (m.readParts stage name d fields).result = .ok parts) {f : FieldDecl} {x : Datum}
    (hfx : (f, x) ∈ fields.zip parts) : (m.readPart stage name d f).result = .ok x := by
  induction fields generalizing parts with
  | nil => simp at hfx
  | cons g fields ih =>
    simp only [readParts, Traced.bind_eq_ok] at h
    obtain ⟨y, hy, ys, hys, hw⟩ := h
    cases hw
    rcases List.mem_cons.1 hfx with he | hfx
    · cases he
      exact hy
    · exact ih hys hfx

theorem readValue_named (h : m.Regular) {name : String} (hm : m.Maps (.named name)) {v : Value}
    {x : Datum} (hr : (m.readValue stage (.named name) v).result = .ok x) :
    (∃ variant, x = .variant name variant) ∨
      (x.ty = .named name ∧ ∃ d, v = .document d ∧
        (stage.decode d (m.types.descriptor (.named name))).result = .ok x) := by
  have hn : m.types.KeptNested name ∨ ∃ d, m.types.find? name = some (.enum d) := by
    rcases hm.handles with hd | hd | hc
    · exact .inl (.inl hd)
    · exact .inr hd
    · exact .inl (h.converter hc).1
  rcases hn with hk | ⟨d, hd⟩
  · right
    rw [readValue_nested h.documents hk] at hr
    split at hr
    next d hv =>
      obtain ⟨hty, hdec⟩ := Catalogue.bind_receive_eq_ok.1 hr
      exact ⟨hty, d, Value.asDocument?_eq_some.1 hv, hdec⟩
    next => cases hr
  · left
    rw [readValue_enum hd] at hr
    split at hr
    · split at hr
      · cases hr
        exact ⟨_, rfl⟩
      · cases hr
    · cases hr

theorem readValue_ty (h : m.Regular) {t : Ty} (hm : m.Maps t) {v : Value} {x : Datum}
    (hr : (m.readValue stage t v).result = .ok x) : x.ty = t := by
  induction t generalizing v x with
  | unit | anyEnum => exact hm.handles.elim
  | atom a =>
    rw [readValue_atom] at hr
    cases ha : a.ofValue? m.types.wideNaN v with
    | none => simp [ha, Traced.fail, Traced.error] at hr
    | some b =>
      simp only [ha] at hr
      cases hr
      rw [Datum.ty, AtomType.type_of_ofValue? ha]
  | document =>
    rw [readValue_document] at hr
    split at hr
    · cases hr
      rfl
    · cases hr
  | seq t ih =>
    rw [readValue_seq] at hr
    split at hr
    · obtain ⟨xs, -, rfl⟩ := Traced.bind_ok_eq_ok.1 hr
      rfl
    · cases hr
  | option t ih =>
    rw [readValue_option] at hr
    split at hr
    · cases hr
      rfl
    · obtain ⟨y, hy, rfl⟩ := Traced.bind_ok_eq_ok.1 hr
      rw [Datum.ty, ih hm.option hy]
  | box t ih =>
    rw [readValue_box] at hr
    obtain ⟨y, hy, rfl⟩ := Traced.bind_ok_eq_ok.1 hr
    rw [Datum.ty, ih hm.box hy]
  | named name =>
    rcases readValue_named h hm hr with ⟨variant, rfl⟩ | ⟨hty, -⟩
    · rfl
    · exact hty

/-! ## Along a path -/

theorem encode_field {room : Nat} {name : String} {decl : EntityDecl} {parts : List Datum}
    {d : Document} (hd : m.types.find? name = some (.entity decl))
    (hc : m.hasConverter (.named name) = false) (hlen : parts.length = decl.fields.length)
    (he : ((m.stage room).encode (.record name parts)).result = .ok d) {f : FieldDecl}
    {spec : FieldSpec} {x : Datum} (hfx : (f, x) ∈ decl.fields.zip parts)
    (hf : f.mapping = some spec) :
    ∃ below v, room = below + 1 ∧ d.get? spec.name = some v ∧
      (m.encodeValue (m.stage below) x).result = .ok v := by
  obtain ⟨below, rfl, hb⟩ := stage_encode_eq_ok he
  rw [encode_entity hd (find?_of_hasConverter hc) hlen] at hb
  obtain ⟨entries, hentries, rfl⟩ := Traced.bind_ok_eq_ok.1 hb
  obtain ⟨v, hv, hx⟩ := storeParts_mem hentries hfx hf
  exact ⟨below, v, rfl, storeParts_get? hlen hentries hv, hx⟩

theorem decode_field {room : Nat} {name : String} {decl : EntityDecl} {parts : List Datum}
    {d : Document} (hd : m.types.find? name = some (.entity decl))
    (hc : m.hasConverter (.named name) = false)
    (hr : ((m.stage room).decode d (m.types.descriptor (.named name))).result =
      .ok (.record name parts)) {f : FieldDecl} {spec : FieldSpec} {x : Datum}
    (hfx : (f, x) ∈ decl.fields.zip parts) (hf : f.mapping = some spec) {v : Value}
    (hv : d.get? spec.name = some v) :
    ∃ below, room = below + 1 ∧ (m.readValue (m.stage below) f.ty v).result = .ok x := by
  obtain ⟨below, rfl, hb⟩ := stage_decode_eq_ok hr
  rw [decode_entity hd (find?_of_hasConverter hc)] at hb
  obtain ⟨xs, hxs, he⟩ := Traced.bind_ok_eq_ok.1 hb
  cases he
  have hpart := readParts_mem hxs hfx
  simp only [readPart, hf, hv, Traced.under_eq_ok] at hpart
  exact ⟨below, rfl, hpart⟩

/-- A record that is stored at the end of a path was encoded as many stages further down as the
path crosses levels. -/
theorem Holds.stored (h : m.Regular) {x y : Datum} {p : List Step} (hy : m.Holds x p y) {room : Nat}
    {t : Ty} {v : Value} {name : String} {parts : List Datum} (hrec : y = .record name parts)
    (hnull : m.types.isNull y = false) (ht : m.types.HasType x t) (hm : m.Maps t)
    (he : (m.encodeValue (m.stage room) x).result = .ok v) :
    ∃ d r, v.at? p = Option.some (.document d) ∧ r + levels p = room ∧
      ((m.stage r).encode y).result = .ok d := by
  induction hy generalizing room t v with
  | here x =>
    subst hrec
    rcases h.encodeValue_record (handles_record ht hm) he with ⟨hn, -⟩ | ⟨-, -, d, hd, rfl⟩
    · simp [hn] at hnull
    · exact ⟨d, room, by simp, rfl, hd⟩
  | some _ _ ih =>
    rw [encodeValue_some] at he
    cases ht with | some hi => exact ih hrec hnull hi hm.option he
  | boxed _ ih =>
    rw [encodeValue_boxed] at he
    cases ht with | boxed hi => exact ih hrec hnull hi hm.box he
  | item hi _ ih =>
    obtain ⟨vs, hvs, rfl⟩ := h.encodeValue_seq he
    obtain ⟨w, hw, hx⟩ := encodeItems_getElem? hvs hi
    cases ht with
    | seq hs =>
      obtain ⟨d, r, hat, hlev, hd⟩ := ih hrec hnull (hs.of_mem (List.mem_of_getElem? hi)) hm.seq hx
      exact ⟨d, r, by simpa [Value.at?, hw] using hat, hlev, hd⟩
  | field hdecl hc hfx hf _ ih =>
    cases ht.ty_eq
    have hparts := ht.parts hdecl
    rcases h.encodeValue_record (handles_record ht hm) he with ⟨hn, -⟩ | ⟨-, -, e, hd, rfl⟩
    · -- an entity is never null
      simp [Catalogue.isNull, hdecl] at hn
    · obtain ⟨below, w, rfl, hget, hw⟩ := encode_field hdecl hc hparts.length_eq hd hfx hf
      obtain ⟨d, r, hat, hlev, hd⟩ := ih hrec hnull (hparts.of_mem_zip hfx)
        (hm.field hdecl hc (List.of_mem_zip hfx).1 (by simp [hf])) hw
      exact ⟨d, r, by simpa [Value.at?, hget] using hat, by simp only [levels]; omega, hd⟩

theorem Holds.read (h : m.Regular) {x y : Datum} {p : List Step} (hy : m.Holds x p y) {room : Nat}
    {t : Ty} {v w : Value} {name : String} {parts : List Datum} (hrec : y = .record name parts)
    (hm : m.Maps t) (hr : (m.readValue (m.stage room) t v).result = .ok x)
    (hw : v.at? p = Option.some w) :
    ∃ d r, w = .document d ∧ r + levels p = room ∧
      ((m.stage r).decode d (m.types.descriptor (.named name))).result = .ok y := by
  -- the type is that of the object, so the way to the record says how the value was read
  have hty := readValue_ty h hm hr
  induction hy generalizing room t v with
  | here x =>
    subst hrec hty
    obtain rfl : v = w := by simpa using hw
    rcases readValue_named h hm hr with ⟨_, he⟩ | ⟨-, d, rfl, hd⟩
    · cases he
    · exact ⟨d, room, rfl, rfl, hd⟩
  | @some x y p _ _ ih =>
    subst hty
    simp only [Datum.ty, readValue_option] at hr
    split at hr
    · cases hr
    · obtain ⟨x', hx, he⟩ := Traced.bind_ok_eq_ok.1 hr
      cases he
      exact ih hrec hm.option hx hw (readValue_ty h hm.option hx)
  | boxed _ ih =>
    subst hty
    simp only [Datum.ty, readValue_box] at hr
    obtain ⟨x', hx, he⟩ := Traced.bind_ok_eq_ok.1 hr
    cases he
    exact ih hrec hm.box hx hw (readValue_ty h hm.box hx)
  | item hi _ ih =>
    subst hty
    simp only [Datum.ty, readValue_seq] at hr
    split at hr
    next vs hv =>
      obtain ⟨xs, hxs, he⟩ := Traced.bind_ok_eq_ok.1 hr
      cases he
      obtain ⟨u, hu, hx⟩ := readItems_getElem? hxs hi
      cases Value.asArray?_eq_some.1 hv
      exact ih hrec hm.seq hx (by simpa [Value.at?, hu] using hw) (readValue_ty h hm.seq hx)
    next => cases hr
  | field hdecl hc hfx hf _ ih =>
    subst hty
    rcases readValue_named h hm hr with ⟨_, he⟩ | ⟨-, e, rfl, hd⟩
    · cases he
    · obtain ⟨u, hu, hw⟩ := Option.bind_eq_some_iff.1 hw
      obtain ⟨below, rfl, hx⟩ := decode_field hdecl hc hd hfx hf hu
      have hmf := hm.field hdecl hc (List.of_mem_zip hfx).1 (by simp [hf])
      obtain ⟨d, r, hwd, hlev, hd⟩ := ih hrec hmf hx hw (readValue_ty h hmf hx)
      exact ⟨d, r, hwd, by simp only [levels]; omega, hd⟩

/-! ## Whole conversions -/

theorem Made.regular (h : m.Made) (hd : ¬ m.DocumentsAreValues) (hn : m.NestsConverted) :
    m.Regular :=
  ⟨h.builtin, hd, h.registered, hn⟩

def shadeDecl : HostDecl :=
  { HostDecl.unstructured "Shade" with isNull := List.isEmpty, reading := .throughMapper }

def paletteDecl : EntityDecl where
  fields :=
    [⟨"base", .named "Shade", some ⟨"base", "Shade", true⟩, .record "Shade" []⟩,
      ⟨"more", .seq (.option (.named "Shade")), some ⟨"more", "Vec<Option<Shade>>", false⟩,
        .seq (.option (.named "Shade")) []⟩,
      ⟨"parts", .seq (.box (.named "Palette")), some ⟨"parts", "Vec<Box<Palette>>", false⟩,
        .seq (.box (.named "Palette")) []⟩]
  keys_nodup := by decide

def paletteTypes : Catalogue :=
  ⟨[("Shade", .host shadeDecl), ("Palette", .entity paletteDecl)], .quiet⟩

def shadeConverter : Converter where
  entity := .named "Shade"
  toDocument
    | .record "Shade" [.atom (.integer (t := .u8) n)] =>
      .ok ⟨[("level", (Atom.integer n).toValue)]⟩
    | _ => .error (.converter "a shade has one level")
  fromDocument d :=
    match (d.get? "level").bind ((AtomType.integer .u8).ofValue? .quiet) with
    | some a => .ok (.record "Shade" [.atom a])
    | none => .error (.converter "a shade has a level")

def paletteMapper (documents : Bool) : Mapper :=
  ((Setup.empty paletteTypes).steps
    (.converter shadeConverter :: .settings ⟨2, true⟩ ::
      if documents then [.valueType .document] else [])).2.mapper

def shade (level : Integer .u8) : Datum := .record "Shade" [.atom (.integer level)]

def palette (base : Datum) (more parts : List Datum) : Datum :=
  .record "Palette"
    [base, .seq (.option (.named "Shade")) more, .seq (.box (.named "Palette")) parts]

theorem hasType_palette {base : Datum} {more parts : List Datum}
    (hb : paletteTypes.HasType base (.named "Shade"))
    (hm : paletteTypes.HasItems (.option (.named "Shade")) more)
    (hp : paletteTypes.HasItems (.box (.named "Palette")) parts) :
    paletteTypes.HasType (palette base more parts) (.named "Palette") :=
  .entity (d := paletteDecl) rfl (.cons hb (.cons (.seq hm) (.cons (.seq hp) .nil)))

theorem hasType_shade (parts : List Datum) :
    paletteTypes.HasType (.record "Shade" parts) (.named "Shade") :=
  .host (h := shadeDecl) rfl

def nestedPalette : Datum :=
  palette (shade ⟨7, by decide⟩) [.some (shade ⟨4, by decide⟩), .none (.named "Shade")]
    [.boxed (palette (shade ⟨3, by decide⟩) [] [])]

def nestedPaletteStored : Document :=
  ⟨[("base", .document ⟨[("level", .uint64 ⟨7, by decide⟩)]⟩),
    ("more", .array [.document ⟨[("level", .uint64 ⟨4, by decide⟩)]⟩, .null]),
    ("parts", .array [.document ⟨[("base", .document ⟨[("level", .uint64 ⟨3, by decide⟩)]⟩),
      ("more", .array []), ("parts", .array [])]⟩])]⟩

theorem hasType_nestedPalette : paletteTypes.HasType nestedPalette (.named "Palette") :=
  hasType_palette (hasType_shade _) (.cons (.some (hasType_shade _)) (.cons (.none _) .nil))
    (.cons (.boxed (hasType_palette (hasType_shade _) .nil .nil)) .nil)

end Mapper

end ObjectDocument
