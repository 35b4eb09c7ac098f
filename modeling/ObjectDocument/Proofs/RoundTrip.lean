import ObjectDocument.Proofs.Path
import ObjectDocument.Proofs.Stages

/-!
# Reading back what was stored

What is stored of an object is read back as `restored`: skipped parts are those of the default
instance, and an option that holds nothing is `none` at the outermost level. The invariant is
`Restores`, kept by going up one stage (`restores_stage`): at a stage, decoding undoes encoding up
to `restored`. A converter has to undo itself at the same stage for that, which is the only thing
that is asked of it.
-/

namespace ObjectDocument

theorem Atom.toValue_ne_null (a : Atom) : a.toValue ≠ .null := by
  cases a <;> simp only [toValue, Value.ofInteger, ne_eq, reduceCtorEq, not_false_eq_true]
  split <;> simp

theorem Atom.ofValue?_toValue (nan : WideNaN) (a : Atom) :
    a.type.ofValue? nan a.toValue = some a := by
  cases a with
  | integer n =>
    simp only [type, toValue, Value.ofInteger]
    split <;> simp [AtomType.ofValue?, Integer.ofInt?_val]
  | _ => rfl

theorem EnumDecl.variant?_nameOf? {d : EnumDecl} {variant s : String}
    (h : d.nameOf? variant = some s) : d.variant? s = some variant := by
  obtain ⟨before, after, hv, -⟩ := List.lookup_eq_some_iff.1 h
  exact variant?_eq_some_iff.2 (by simp [hv])

namespace Mapper

variable (m : Mapper)

mutual

/-- What is read back of an object. What a converter takes over is read back as it was. -/
def restored : Datum → Datum
  | .seq t items => .seq t (restoredItems items)
  | .some inner => if m.types.isNull inner then .none inner.ty else .some (restored inner)
  | .boxed inner => .boxed (restored inner)
  | .record name parts =>
    if m.hasConverter (.named name) then .record name parts
    else match m.types.find? name with
      | some (.entity d) => .record name (restoredParts d.fields parts)
      | _ => .record name parts
  | x => x

def restoredItems : List Datum → List Datum
  | [] => []
  | x :: items => restored x :: restoredItems items

def restoredParts : List FieldDecl → List Datum → List Datum
  | f :: fields, x :: parts =>
    (if f.mapping.isSome then restored x else f.default) :: restoredParts fields parts
  | _, _ => []

end

/-- What is stored of the first object at the end of the path is stored of the second. An option
that holds nothing holds no object. -/
inductive Holds : Datum → List Step → Datum → Prop where
  | here (x : Datum) : Holds x [] x
  | some {x y : Datum} {p : List Step} :
      m.types.isNull x = false → Holds x p y → Holds (.some x) p y
  | boxed {x y : Datum} {p : List Step} : Holds x p y → Holds (.boxed x) p y
  | item {t : Ty} {items : List Datum} {i : Nat} {x y : Datum} {p : List Step} :
      items[i]? = Option.some x → Holds x p y → Holds (.seq t items) (.index i :: p) y
  | field {name : String} {d : EntityDecl} {parts : List Datum} {f : FieldDecl}
      {spec : FieldSpec} {x y : Datum} {p : List Step} :
      m.types.find? name = Option.some (.entity d) → m.hasConverter (.named name) = false →
      (f, x) ∈ d.fields.zip parts → f.mapping = Option.some spec →
      Holds x p y → Holds (.record name parts) (.key spec.name :: p) y

def Throughout (P : Datum → Prop) (x : Datum) : Prop := ∀ p y, m.Holds x p y → P y

/-- An object of a named type is not null. Where it stands in an option, nothing of it is stored
if it is. -/
def Present : Datum → Prop
  | .record name parts => m.types.isNull (.record name parts) = false
  | _ => True

/-- An option does not hold a null, and skipped parts are those of the default instance. -/
def Intact : Datum → Prop
  | .some x => m.types.isNull x = false
  | .record name parts =>
    ∀ d, m.types.find? name = some (.entity d) → m.hasConverter (.named name) = false →
      ∀ f x, (f, x) ∈ d.fields.zip parts → f.mapping = none → x = f.default
  | _ => True

variable {m}

namespace Throughout
variable {P : Datum → Prop}

theorem self {x : Datum} (h : m.Throughout P x) : P x := h [] x (.here x)

theorem some {x : Datum} (h : m.Throughout P (.some x)) (hn : m.types.isNull x = false) :
    m.Throughout P x := fun p y hy => h p y (.some hn hy)

theorem boxed {x : Datum} (h : m.Throughout P (.boxed x)) : m.Throughout P x :=
  fun p y hy => h p y (.boxed hy)

theorem items {t : Ty} {items : List Datum} (h : m.Throughout P (.seq t items)) :
    ∀ x ∈ items, m.Throughout P x := by
  intro x hx p y hy
  obtain ⟨i, hi⟩ := List.mem_iff_getElem?.1 hx
  exact h (.index i :: p) y (.item hi hy)

theorem parts {name : String} {d : EntityDecl} {parts : List Datum}
    (h : m.Throughout P (.record name parts)) (hd : m.types.find? name = Option.some (.entity d))
    (hc : m.hasConverter (.named name) = false) :
    ∀ f x, (f, x) ∈ d.fields.zip parts → f.mapping.isSome → m.Throughout P x := by
  intro f x hfx hf p y hy
  obtain ⟨spec, hspec⟩ := Option.isSome_iff_exists.1 hf
  exact h (.key spec.name :: p) y (.field hd hc hfx hspec hy)

theorem of_seq {t : Ty} {items : List Datum} (h : P (.seq t items))
    (hi : ∀ x ∈ items, m.Throughout P x) : m.Throughout P (.seq t items) := by
  intro p y hy
  cases hy with
  | here => exact h
  | item hx hy => exact hi _ (List.mem_of_getElem? hx) _ _ hy

theorem of_some {x : Datum} (h : P (.some x)) (hx : m.Throughout P x) :
    m.Throughout P (.some x) := by
  intro p y hy
  cases hy with
  | here => exact h
  | some _ hy => exact hx _ _ hy

theorem of_none {t : Ty} (h : P (.none t)) : m.Throughout P (.none t) := by
  intro p y hy
  cases hy
  exact h

theorem of_boxed {x : Datum} (h : P (.boxed x)) (hx : m.Throughout P x) :
    m.Throughout P (.boxed x) := by
  intro p y hy
  cases hy with
  | here => exact h
  | boxed hy => exact hx _ _ hy

end Throughout

/-! ## Equations -/

theorem encodeValue_isNull {stage : Stage} {x : Datum} (h : m.types.isNull x = true) :
    m.encodeValue stage x = .ok .null := by
  match x, h with
  | .some inner, h => exact (encodeValue_some inner).trans (encodeValue_isNull h)
  | .boxed inner, h => exact (encodeValue_boxed inner).trans (encodeValue_isNull h)
  | .none t, h | .record name parts, h => simp [encodeValue, encodeForm, form, h]
  | .unit, h | .atom _, h | .document _, h | .seq _ _, h | .variant _ _, h =>
    simp [Catalogue.isNull] at h

/-! ## One stage -/

/-- At a stage, decoding undoes encoding of what is kept as a nested document. -/
def Restores (m : Mapper) (stage : Stage) : Prop :=
  ∀ name parts d, m.types.HasType (.record name parts) (.named name) → m.Maps (.named name) →
    m.Throughout m.Present (.record name parts) →
    (stage.encode (.record name parts)).result = .ok d →
    (stage.decode d (m.types.descriptor (.named name))).result =
      .ok (m.restored (.record name parts))

theorem receive_restored (name : String) (parts : List Datum) :
    m.types.receive (.named name) (m.restored (.record name parts)) =
      .ok (m.restored (.record name parts)) := by
  refine Catalogue.receive_eq_ok.2 ⟨?_, rfl⟩
  simp only [restored]
  split
  · rfl
  · split <;> rfl

theorem handles_record {name : String} {parts : List Datum} {t : Ty}
    (ht : m.types.HasType (.record name parts) t) (hm : m.Maps t) :
    (∃ d, m.types.find? name = some (.entity d)) ∨ m.ConverterMapped (.named name) := by
  have hh := hm.handles
  cases ht with
  | entity hd => exact .inl ⟨_, hd⟩
  | host hd => simpa [Handles, hd] using hh
  | unknown hd => simpa [Handles, hd] using hh

mutual

theorem restores_value (h : m.Regular) {room : Nat} (hs : m.Restores (m.stage room)) {x : Datum}
    {t : Ty} {v : Value} (ht : m.types.HasType x t) (hm : m.Maps t) (hn : m.Throughout m.Present x)
    (he : (m.encodeValue (m.stage room) x).result = .ok v) :
    (m.readValue (m.stage room) t v).result = .ok (m.restored x) ∧
      (v = .null → m.types.isNull x = true) := by
  match x, ht with
  | .unit, .unit => exact hm.handles.elim
  | .atom a, .atom _ =>
    rw [h.encodeValue_atom] at he
    cases he
    rw [readValue_atom, a.ofValue?_toValue]
    exact ⟨rfl, fun e => absurd e a.toValue_ne_null⟩
  | .document d, .document _ =>
    cases h.encodeValue_document he
    rw [readValue_document]
    exact ⟨rfl, nofun⟩
  | .seq t items, .seq hi =>
    obtain ⟨vs, hvs, rfl⟩ := h.encodeValue_seq he
    have hr := restores_items h hs hi hm.seq hn.items hvs
    rw [readValue_seq]
    exact ⟨Traced.bind_ok_eq_ok.2 ⟨_, hr, by rw [restored]⟩, nofun⟩
  | .none t, .none _ =>
    rw [encodeValue_isNull rfl] at he
    cases he
    exact ⟨rfl, fun _ => rfl⟩
  | .some inner, .some hi =>
    rw [encodeValue_some] at he
    cases hnull : m.types.isNull inner with
    | true =>
      rw [encodeValue_isNull hnull] at he
      cases he
      simp only [readValue_option, restored, hnull, hi.ty_eq, if_true]
      exact ⟨rfl, fun _ => hnull⟩
    | false =>
      obtain ⟨hr, hv⟩ := restores_value h hs hi hm.option
        (hn.some hnull) he
      -- what is not null is not stored as null, so it is not taken for `none`
      have hne : v ≠ .null := fun e => by simp [hv e] at hnull
      rw [readValue_option, if_neg hne]
      exact ⟨Traced.bind_ok_eq_ok.2 ⟨_, hr, by simp [restored, hnull]⟩, fun e => absurd e hne⟩
  | .boxed inner, .boxed hi =>
    rw [encodeValue_boxed] at he
    obtain ⟨hr, hv⟩ := restores_value h hs hi hm.box hn.boxed he
    rw [readValue_box]
    exact ⟨Traced.bind_ok_eq_ok.2 ⟨_, hr, by rw [restored]⟩, hv⟩
  | .variant name variant, .variant hd hv =>
    obtain ⟨s, hs, rfl⟩ := h.encodeValue_variant hd he
    simp only [readValue_enum hd, Value.asName?, EnumDecl.variant?_nameOf? hs]
    exact ⟨rfl, nofun⟩
  | .record name parts, ht' =>
    obtain rfl : t = .named name := ht'.ty_eq.symm
    rcases h.encodeValue_record (handles_record ht' hm) he with ⟨hnull, rfl⟩ | ⟨-, hk, d, hd, rfl⟩
    · exact absurd hnull (by simp [show m.types.isNull _ = false from hn.self])
    · refine ⟨?_, nofun⟩
      simp only [readValue_nested h.documents hk, Value.asDocument?, hs name parts d ht' hm hn hd]
      exact receive_restored name parts

theorem restores_items (h : m.Regular) {room : Nat} (hs : m.Restores (m.stage room)) {t : Ty}
    {items : List Datum} {i : Nat} {vs : List Value} (ht : m.types.HasItems t items)
    (hm : m.Maps t) (hn : ∀ x ∈ items, m.Throughout m.Present x)
    (he : (m.encodeItems (m.stage room) i items).result = .ok vs) :
    (m.readItems (m.stage room) t i vs).result = .ok (m.restoredItems items) := by
  match items, ht with
  | [], _ =>
    cases he
    rfl
  | x :: rest, .cons hx hrest =>
    simp only [encodeItems, Traced.bind_eq_ok, Traced.under_eq_ok] at he
    obtain ⟨v, hv, vs, hvs, hw⟩ := he
    cases hw
    have hr := (restores_value h hs hx hm (hn x (by simp)) hv).1
    have hrs := restores_items h hs hrest hm (fun y hy => hn y (by simp [hy])) hvs
    simp only [readItems, restoredItems, Traced.bind_eq_ok, Traced.under_eq_ok]
    exact ⟨_, hr, _, hrs, rfl⟩

end

/-! ## All stages -/

theorem storeParts_keys {stage : Stage} {fields : List FieldDecl} {parts : List Datum}
    {entries : List (String × Value)} (hlen : parts.length = fields.length)
    (h : (m.storeParts stage fields parts).result = .ok entries) :
    entries.map Prod.fst = fields.filterMap FieldDecl.key? := by
  induction fields generalizing parts entries with
  | nil =>
    cases h
    rfl
  | cons f fields ih =>
    obtain ⟨x, parts, rfl⟩ := List.exists_cons_of_length_eq_add_one hlen
    have hl : parts.length = fields.length := by simpa using hlen
    cases hf : f.mapping with
    | none =>
      simp only [storeParts, hf] at h
      simpa [FieldDecl.key?, hf] using ih hl h
    | some spec =>
      simp only [storeParts, hf, Traced.bind_eq_ok] at h
      obtain ⟨v, -, more, hm, he⟩ := h
      cases he
      simp [FieldDecl.key?, hf, ih hl hm]

theorem storeParts_get? {stage : Stage} {decl : EntityDecl} {parts : List Datum}
    {entries : List (String × Value)} (hlen : parts.length = decl.fields.length)
    (h : (m.storeParts stage decl.fields parts).result = .ok entries) {k : String} {v : Value}
    (hk : (k, v) ∈ entries) : (⟨entries⟩ : Document).get? k = some v := by
  refine Document.get?_of_mem ?_ hk
  change (entries.map Prod.fst).Nodup
  rw [storeParts_keys hlen h]
  exact decl.keys_nodup

theorem restores_parts (h : m.Regular) {room : Nat} (hs : m.Restores (m.stage room))
    (name : String) {d : Document} {fields : List FieldDecl} {parts : List Datum}
    {entries : List (String × Value)} (ht : m.types.HasParts fields parts)
    (hm : ∀ f ∈ fields, f.mapping.isSome → m.Maps f.ty)
    (hn : ∀ f x, (f, x) ∈ fields.zip parts → f.mapping.isSome → m.Throughout m.Present x)
    (he : (m.storeParts (m.stage room) fields parts).result = .ok entries)
    (hd : ∀ k v, (k, v) ∈ entries → d.get? k = some v) :
    (m.readParts (m.stage room) name d fields).result = .ok (m.restoredParts fields parts) := by
  induction fields generalizing parts entries with
  | nil =>
    cases ht
    rfl
  | cons f fields ih =>
    cases ht with
    | @cons _ x _ parts hx hrest =>
      have hm' := fun g hg => hm g (List.mem_cons_of_mem f hg)
      have hn' := fun g y hg => hn g y (List.mem_cons_of_mem (f, x) hg)
      cases hf : f.mapping with
      | none =>
        simp only [storeParts, hf] at he
        have hr := ih hrest hm' hn' he hd
        simp only [readParts, readPart, hf, Traced.ok_bind, Traced.bind_eq_ok, restoredParts]
        exact ⟨_, hr, rfl⟩
      | some spec =>
        simp only [storeParts, hf, Traced.bind_eq_ok, Traced.under_eq_ok] at he
        obtain ⟨v, hv, more, hmore, hw⟩ := he
        cases hw
        have hsome : f.mapping.isSome := by simp [hf]
        have hx' := (restores_value h hs hx (hm f (by simp) hsome) (hn f x (by simp) hsome) hv).1
        have hr := ih hrest hm' hn' hmore fun k w hk => hd k w (List.mem_cons_of_mem _ hk)
        simp only [readParts, readPart, hf, hd spec.name v (by simp), Traced.bind_eq_ok,
          Traced.under_eq_ok, restoredParts]
        exact ⟨_, hx', _, hr, rfl⟩

def Inverts (m : Mapper) (convert : Convert) : Prop :=
  ∀ e ∈ m.converters.entries, ∀ x d, m.types.HasType x e.2.entity →
    ((e.2.toDocument x).run convert).result = .ok d →
    ((e.2.fromDocument d).run convert).result = .ok x

/-- Going up one stage keeps the invariant. Both directions hand a converter the mapper of the
stage below, so that it undoes itself there. -/
theorem restores_stage (h : m.Regular) (hc : ∀ depth, m.Inverts (m.scope depth)) {room : Nat}
    (hroom : room ≤ m.settings.maxDepth + 1) : m.Restores (m.stage room) := by
  induction room with
  | zero =>
    intro name parts d _ _ _ he
    exact (encode_none_ne_ok _ d he).elim
  | succ room ih =>
    intro name parts d ht hm hn he
    change (m.encode (some (m.stage room)) (.record name parts)).result = .ok d at he
    change (m.decode (some (m.stage room)) d _).result = _
    cases hf : m.converters.find? (m.types.descriptor (.named name)) with
    | some c =>
      obtain ⟨hty, hto⟩ := encode_converter hf he
      obtain ⟨e, hmem, rfl⟩ := find?_mem hf
      have hte : m.types.HasType (.record name parts) e.2.entity := by rwa [← hty]
      -- encoding handed the converter the mapper one stage down, and so does decoding
      have hdepth : m.settings.maxDepth + 1 - room + room = m.settings.maxDepth + 1 := by omega
      have hback := hc (m.settings.maxDepth + 1 - room) e hmem _ d hte
      rw [scope_eq hdepth] at hback
      have hcv : m.hasConverter (.named name) = true := by simp [hasConverter, hf]
      simpa [decode, hf, restored, hcv] using hback hto
    | none =>
      have hcv : m.hasConverter (.named name) = false := by simp [hasConverter, hf]
      have hent : ∃ decl, m.types.find? name = some (.entity decl) := by
        refine (handles_record ht hm).resolve_right fun hcm => ?_
        simp [(h.converter hcm).2.2] at hcv
      obtain ⟨decl, hdecl⟩ := hent
      have hparts := ht.parts hdecl
      rw [encode_entity hdecl hf hparts.length_eq] at he
      obtain ⟨entries, hentries, rfl⟩ := Traced.bind_ok_eq_ok.1 he
      have hr := restores_parts h (ih (by omega)) name hparts
        (fun f hfm hs => hm.field hdecl hcv hfm hs)
        (hn.parts hdecl hcv) hentries fun _ _ => storeParts_get? hparts.length_eq hentries
      rw [decode_entity hdecl hf]
      refine Traced.bind_ok_eq_ok.2 ⟨_, hr, ?_⟩
      simp [restored, hcv, hdecl]

/-! ## Whole conversions -/

theorem Holds.typed {x y : Datum} {p : List Step} {t : Ty} (h : m.Holds x p y)
    (ht : m.types.HasType x t) (hm : m.Maps t) : ∃ u, m.types.HasType y u ∧ m.Maps u := by
  induction h generalizing t with
  | here x => exact ⟨t, ht, hm⟩
  | some _ _ ih => cases ht with | some hi => exact ih hi hm.option
  | boxed _ ih => cases ht with | boxed hi => exact ih hi hm.box
  | item hi _ ih =>
    cases ht with
    | seq hs => exact ih (hs.of_mem (List.mem_of_getElem? hi)) hm.seq
  | field hd hc hfx hspec _ ih =>
    cases ht.ty_eq
    exact ih ((ht.parts hd).of_mem_zip hfx)
      (hm.field hd hc (List.of_mem_zip hfx).1 (by simp [hspec]))

mutual

theorem restored_eq_self {x : Datum} {t : Ty} (ht : m.types.HasType x t)
    (hi : m.Throughout m.Intact x) : m.restored x = x := by
  match x, ht with
  | .unit, _ | .atom _, _ | .document _, _ | .none _, _ | .variant _ _, _ => rfl
  | .seq t items, .seq hs => rw [restored, restoredItems_eq_self hs hi.items]
  | .some x, .some hx =>
    have hn : m.types.isNull x = false := hi.self
    rw [restored, hn, restored_eq_self hx (hi.some hn)]
    rfl
  | .boxed x, .boxed hx => rw [restored, restored_eq_self hx hi.boxed]
  | .record name parts, ht =>
    simp only [restored]
    cases hc : m.hasConverter (.named name) with
    | true => rfl
    | false =>
      split
      · rfl
      · split
        next d hd =>
          rw [restoredParts_eq_self (ht.parts hd) (hi.parts hd hc) (hi.self d hd hc)]
        · rfl

theorem restoredItems_eq_self {items : List Datum} {t : Ty} (ht : m.types.HasItems t items)
    (hi : ∀ x ∈ items, m.Throughout m.Intact x) : m.restoredItems items = items := by
  match items, ht with
  | [], _ => rfl
  | x :: rest, .cons hx hrest =>
    rw [restoredItems, restored_eq_self hx (hi x (by simp)),
      restoredItems_eq_self hrest fun y hy => hi y (by simp [hy])]

theorem restoredParts_eq_self {fields : List FieldDecl} {parts : List Datum}
    (ht : m.types.HasParts fields parts)
    (hi : ∀ f x, (f, x) ∈ fields.zip parts → f.mapping.isSome → m.Throughout m.Intact x)
    (hs : ∀ f x, (f, x) ∈ fields.zip parts → f.mapping = none → x = f.default) :
    m.restoredParts fields parts = parts := by
  match fields, parts, ht with
  | [], [], _ => rfl
  | f :: fields, x :: parts, .cons hx hrest =>
    have hr := restoredParts_eq_self hrest (fun g y hg => hi g y (by simp [hg]))
      fun g y hg => hs g y (by simp [hg])
    rw [restoredParts, hr]
    cases hf : f.mapping with
    | none => simp [← hs f x (by simp) hf]
    | some spec => simp [restored_eq_self hx (hi f x (by simp) (by simp [hf]))]

end

theorem restores_conversion (h : m.Regular) (hc : ∀ depth, m.Inverts (m.scope depth))
    {name : String} {parts : List Datum} {d : Document} (hk : m.types.KeptNested name)
    (ht : m.types.HasType (.record name parts) (.named name)) (hm : m.Maps (.named name))
    (hn : m.Throughout m.Present (.record name parts))
    (he : (m.toDocument (.record name parts)).result = .ok d) :
    (m.fromDocument (.named name) d).result = .ok (m.restored (.record name parts)) := by
  have hs := restores_stage h hc (Nat.le_refl (m.settings.maxDepth + 1))
  rw [fromDocument_eq_readValue hk]
  exact (restores_value h hs ht hm hn (encodeValue_of_toDocument rfl he)).1

/-! ## Without converters -/

theorem regular_of_empty (hc : m.converters = .empty) (hv : m.valueTypes = .extended []) :
    m.Regular where
  builtin t ht := by simpa [hv, ValueTypes.contains, ValueTypes.extended] using ht
  documents := by simp [DocumentsAreValues, hv]; decide
  registered e he := by simp [hc, Converters.empty] at he
  nested e he := by simp [hc, Converters.empty] at he

theorem present_of_empty (hc : m.converters = .empty) {x : Datum} {t : Ty}
    (ht : m.types.HasType x t) (hm : m.Maps t) : m.Throughout m.Present x := by
  intro p y hy
  obtain ⟨u, hu, hmu⟩ := hy.typed ht hm
  cases y with
  | record name parts =>
    rcases handles_record hu hmu with ⟨d, hd⟩ | ⟨e, he, -⟩
    · simp [Present, Catalogue.isNull, hd]
    · simp [hc, Converters.empty] at he
  | _ => trivial

/-- What is stored of an entity is read back: skipped parts as in the default instance, an option
that holds nothing as `none`, and everything else as it was. Of two conversions the second takes
the limit of the first, however deep the entity is nested and however its types refer to each
other. -/
theorem fromDocument_toDocument (hc : m.converters = .empty) (hv : m.valueTypes = .extended [])
    {name : String} {decl : EntityDecl} (hd : m.types.find? name = some (.entity decl))
    (hm : m.Maps (.named name)) {x : Datum} (ht : m.types.HasType x (.named name)) {d : Document}
    (he : (m.toDocument x).result = .ok d) :
    (m.fromDocument (.named name) d).result = .ok (m.restored x) ∧
      (m.Throughout m.Intact x → (m.fromDocument (.named name) d).result = .ok x) := by
  have hr : (m.fromDocument (.named name) d).result = .ok (m.restored x) := by
    have hi (depth : Nat) : m.Inverts (m.scope depth) :=
      fun e he => by simp [hc, Converters.empty] at he
    cases ht with
    | variant hd' => simp [hd] at hd'
    | entity hd' hp =>
      exact restores_conversion (regular_of_empty hc hv) hi (.inl ⟨_, hd⟩) (.entity hd' hp) hm
        (present_of_empty hc (.entity hd' hp) hm) he
    | host hd' => simp [hd] at hd'
    | unknown hd' => simp [hd] at hd'
  exact ⟨hr, fun hi => by rw [hr, restored_eq_self ht hi]⟩

/-! A folder holds folders. Its remark may be there and say nothing; how often it was opened is not
stored. -/

def folderDecl : EntityDecl where
  fields :=
    [⟨"id", .atom (.integer .u32), some ⟨"id", "u32", true⟩, .atom (.integer (.zero .u32))⟩,
      ⟨"note", .option (.box (.option (.atom .text))),
        some ⟨"remark", "Option<Box<Option<String>>>", false⟩,
        .none (.box (.option (.atom .text)))⟩,
      ⟨"folders", .seq (.named "Folder"), some ⟨"folders", "Vec<Folder>", false⟩,
        .seq (.named "Folder") []⟩,
      ⟨"opened", .atom (.integer .i64), none, .atom (.integer (.zero .i64))⟩]
  keys_nodup := by decide

def folderTypes : Catalogue := ⟨[("Folder", .entity folderDecl)], .quiet⟩

def folder (id : Integer .u32) (note : Datum) (folders : List Datum) (opened : Integer .i64) :
    Datum :=
  .record "Folder"
    [.atom (.integer id), note, .seq (.named "Folder") folders, .atom (.integer opened)]

def folderMapper : Mapper := ⟨folderTypes, .extended [], .empty, ⟨1, true⟩⟩

theorem maps_folder : folderMapper.Maps (.named "Folder") := by
  refine Maps.of_closed (S := fun t => t ∈ [.named "Folder", .atom (.integer .u32),
    .option (.box (.option (.atom .text))), .box (.option (.atom .text)), .option (.atom .text),
    .atom .text, .seq (.named "Folder")]) ?handles ?seq ?option ?box ?field (by simp)
  case handles =>
    intro t ht
    simp only [List.mem_cons, List.not_mem_nil, or_false] at ht
    rcases ht with rfl | rfl | rfl | rfl | rfl | rfl | rfl
    · exact .inl ⟨folderDecl, rfl⟩
    all_goals trivial
  case seq | option | box => simp
  case field =>
    intro name d f hS hd hf hm
    obtain rfl : name = "Folder" := by simpa using hS
    cases hd
    simp only [folderDecl, List.mem_cons, List.not_mem_nil, or_false] at hf
    rcases hf with rfl | rfl | rfl | rfl <;> simp_all

theorem hasType_folder {id : Integer .u32} {note : Datum} {folders : List Datum}
    {opened : Integer .i64} (hn : folderTypes.HasType note (.option (.box (.option (.atom .text)))))
    (hf : folderTypes.HasItems (.named "Folder") folders) :
    folderTypes.HasType (folder id note folders opened) (.named "Folder") :=
  .entity (d := folderDecl) rfl
    (.cons (.atom (.integer id))
      (.cons hn (.cons (.seq hf) (.cons (.atom (.integer opened)) .nil))))

def nestedFolder : Datum :=
  folder ⟨1, by decide⟩ (.some (.boxed (.none (.atom .text))))
    [folder ⟨2, by decide⟩ (.none (.box (.option (.atom .text)))) [] ⟨5, by decide⟩] ⟨7, by decide⟩

def nestedFolderStored : Document :=
  ⟨[("id", .uint64 ⟨1, by decide⟩), ("remark", .null),
    ("folders", .array [.document ⟨[("id", .uint64 ⟨2, by decide⟩), ("remark", .null),
      ("folders", .array [])]⟩])]⟩

def nestedFolderBack : Datum :=
  folder ⟨1, by decide⟩ (.none (.box (.option (.atom .text))))
    [folder ⟨2, by decide⟩ (.none (.box (.option (.atom .text)))) [] (.zero .i64)] (.zero .i64)

theorem hasType_nestedFolder : folderTypes.HasType nestedFolder (.named "Folder") :=
  hasType_folder (.some (.boxed (.none _)))
    (.cons (hasType_folder (.none _) .nil) .nil)

theorem fromDocument_toDocument_folder :
    (folderMapper.toDocument nestedFolder).result = .ok nestedFolderStored ∧
      (folderMapper.fromDocument (.named "Folder") nestedFolderStored).result =
        .ok nestedFolderBack := by
  have he : (folderMapper.toDocument nestedFolder).result = .ok nestedFolderStored := rfl
  exact ⟨he, (fromDocument_toDocument rfl rfl rfl maps_folder hasType_nestedFolder he).1⟩

end Mapper

end ObjectDocument
