import ObjectDocument.Proofs.Parts
import ObjectDocument.Proofs.Typing

/-!
# Values at a stage

What a mapper does with one value at a stage, type by type and form by form: the equations of
reading and of storing. A nested document goes through a conversion, whose result is that of
decoding at the stage (`run_fromDocument`).
-/

namespace ObjectDocument

namespace Value

def asName? : Value → Option String
  | .enum s | .string s => some s
  | _ => none

theorem asDocument?_eq_some {v : Value} {d : Document} :
    v.asDocument? = some d ↔ v = .document d := by
  cases v <;> simp [asDocument?]

theorem asDocument?_eq_none {v : Value} : v.asDocument? = none ↔ ∀ d, v ≠ .document d := by
  cases v <;> simp [asDocument?]

theorem asArray?_eq_some {v : Value} {vs : List Value} : v.asArray? = some vs ↔ v = .array vs := by
  cases v <;> simp [asArray?]

theorem asArray?_eq_none {v : Value} : v.asArray? = none ↔ ∀ vs, v ≠ .array vs := by
  cases v <;> simp [asArray?]

theorem asName?_eq_some {v : Value} {s : String} :
    v.asName? = some s ↔ v = .enum s ∨ v = .string s := by
  cases v <;> simp [asName?]

theorem asName?_eq_none {v : Value} : v.asName? = none ↔ ∀ s, v ≠ .enum s ∧ v ≠ .string s := by
  cases v <;> simp [asName?]

end Value

theorem EnumDecl.variant?_eq_some_iff {d : EnumDecl} {s variant : String} :
    d.variant? s = some variant ↔ (variant, s) ∈ d.variants := by
  constructor
  · intro h
    obtain ⟨v, hv, rfl⟩ := Option.map_eq_some_iff.1 h
    obtain rfl : v.2 = s := by simpa using List.find?_some hv
    exact List.mem_of_find?_eq_some hv
  · intro h
    obtain ⟨before, after, hv⟩ := List.append_of_mem h
    have hn := d.names_nodup
    rw [hv, List.map_append, List.nodup_append] at hn
    have hb : before.find? (fun v => v.2 == s) = none := by
      refine List.find?_eq_none.2 fun v hm => ?_
      have := hn.2.2 v.2 (List.mem_map_of_mem hm) s (by simp)
      simpa using this
    simp [variant?, hv, List.find?_append, hb]

theorem EnumDecl.variant?_eq_none_iff {d : EnumDecl} {s : String} :
    d.variant? s = none ↔ s ∉ d.variants.map Prod.snd := by
  simp only [variant?, Option.map_eq_none_iff, List.find?_eq_none, List.mem_map, not_exists,
    not_and, beq_iff_eq]

theorem Catalogue.fromValue_enum {Γ : Catalogue} {name : String} {d : EnumDecl}
    (hd : Γ.find? name = some (.enum d)) (v : Value) :
    Γ.fromValue (.named name) v =
      match v.asName? with
      | some s =>
        match d.variant? s with
        | some variant => .ok (.variant name variant)
        | none => .fail (.typeMismatch name ("unknown variant '" ++ s ++ "'"))
      | none => .fail (.typeMismatch name v.kindName) := by
  rw [fromValue, readNamed, hd]
  cases v <;> rfl

theorem Datum.present_eq_self {x : Datum} (h1 : ∀ inner, x = .some inner → False)
    (h2 : ∀ inner, x = .boxed inner → False) : x.present = x := by
  cases x with
  | some inner => exact (h1 inner rfl).elim
  | boxed inner => exact (h2 inner rfl).elim
  | _ => rfl

namespace Traced
variable {α β : Type}

theorem bind_result (x : Traced α) (f : α → Traced β) :
    (x >>= f).result = x.result >>= fun a => (f a).result := by
  obtain ⟨events, result⟩ := x
  cases result <;> rfl

theorem bind_ok_eq_ok {x : Traced α} {f : α → β} {b : β} :
    (x >>= fun a => ok (f a)).result = .ok b ↔ ∃ a, x.result = .ok a ∧ f a = b := by
  rw [bind_eq_ok]
  simp [ok]

@[simp] theorem emit_bind_result (e : Event) (f : Unit → Traced α) :
    (emit e >>= f).result = (f ()).result := rfl

@[simp] theorem onFailure_result (x : Traced α) (event : Failure → Event) :
    (x.onFailure event).result = x.result := by
  obtain ⟨events, result⟩ := x
  cases result <;> rfl

def Gives (P : α → Prop) (Q : Failure → Prop) (x : Traced α) : Prop :=
  match x.result with
  | .ok a => P a
  | .error e => Q e

namespace Gives
variable {P : α → Prop} {Q : Failure → Prop} {x : Traced α}

theorem imp {R : α → Prop} {S : Failure → Prop} (h : x.Gives P Q) (hr : ∀ a, P a → R a)
    (hs : ∀ e, Q e → S e) : x.Gives R S := by
  obtain ⟨events, result⟩ := x
  cases result with
  | ok a => exact hr a h
  | error e => exact hs e h

theorem bind {f : α → Traced β} {R : β → Prop} (h : x.Gives P Q)
    (hf : ∀ a, P a → (f a).Gives R Q) : (x >>= f).Gives R Q := by
  obtain ⟨events, result⟩ := x
  cases result with
  | ok a => exact hf a h
  | error e => exact h

theorem under {segment : String} {S : Failure → Prop} (h : x.Gives P Q)
    (hs : ∀ e, Q e → S (e.under segment)) : (x.under segment).Gives P S := by
  obtain ⟨events, result⟩ := x
  cases result with
  | ok a => exact h
  | error e => exact hs e h

end Gives

/-- A property that a computation has if each of its steps has it. -/
structure Stepwise (P : {α : Type} → Traced α → Prop) : Prop where
  ok : ∀ {α : Type} (a : α), P (ok a)
  fail : ∀ {α : Type} (cause : Cause), P (fail cause : Traced α)
  bind : ∀ {α β : Type} {x : Traced α} {f : α → Traced β}, P x → (∀ a, P (f a)) → P (x >>= f)
  under : ∀ {α : Type} {segment : String} {x : Traced α}, P x → P (x.under segment)

theorem Stepwise.foldlM {P : {α : Type} → Traced α → Prop} (hP : Stepwise P)
    {f : β → α → Traced β} {as : List α} {b : β} (h : ∀ b a, P (f b a)) : P (as.foldlM f b) := by
  induction as generalizing b with
  | nil => exact hP.ok b
  | cons a as ih =>
    rw [List.foldlM_cons]
    exact hP.bind (h b a) fun c => ih

end Traced

namespace Mapper
variable {m : Mapper} {stage : Stage}

theorem scope_eq {depth room : Nat} (h : depth + room = m.settings.maxDepth + 1) :
    m.scope depth = m.convertAt (m.stage room) := by
  rw [scope]
  congr 2
  omega

/-! ## Conversions by their route -/

theorem convertAt_encode {x : Datum} {target : Descriptor}
    (h : m.route (some x.present) target = .encode) :
    (m.convertAt stage (some x) target).result =
      (stage.encode x.present).result >>= fun d => .ok (.encoded d) := by
  simp [convertAt, h, Traced.bind_result]
  rfl

theorem convertAt_decode {d : Document} {target : Descriptor}
    (h : m.route (some (.document d)) target = .decode) :
    (m.convertAt stage (some (.document d)) target).result =
      (stage.decode d target).result >>= fun x => .ok (.decoded x) := by
  simp [convertAt, h, Traced.bind_result, Datum.present, Datum.asDocument?]
  rfl

theorem convertAt_passThrough {x : Datum} {target : Descriptor}
    (h : m.route (some x.present) target = .passThrough) :
    (m.convertAt stage (some x) target).result = .ok (.unchanged x.present) := by
  simp [convertAt, h, Traced.ok]

theorem convertAt_absent {x : Datum} {target : Descriptor}
    (h : m.route (some x.present) target = .absent) :
    (m.convertAt stage (some x) target).result = .ok .absent := by
  simp [convertAt, h, Traced.ok]

/-! ## Reading -/

def readItems (m : Mapper) (stage : Stage) (t : Ty) : Nat → List Value → Traced (List Datum)
  | _, [] => .ok []
  | i, v :: rest => do
    let x ← (m.readValue stage t v).under ("[" ++ toString i ++ "]")
    let xs ← readItems m stage t (i + 1) rest
    pure (x :: xs)

theorem run_readItems (t : Ty) (i : Nat) (vs : List Value) :
    (Catalogue.readItems (m.types.fromValue t) i vs).run (m.convertAt stage) =
      m.readItems stage t i vs := by
  induction vs generalizing i with
  | nil => rfl
  | cons v rest ih =>
    simp only [Catalogue.readItems, readItems, Dialogue.run_bind, Dialogue.run_under, ih]
    rfl

theorem readValue_atom (a : AtomType) (v : Value) :
    m.readValue stage (.atom a) v =
      match a.ofValue? m.types.wideNaN v with
      | some x => .ok (.atom x)
      | none => .fail (.typeMismatch a.name v.kindName) := by
  simp only [readValue, Catalogue.fromValue]
  cases a.ofValue? m.types.wideNaN v <;> rfl

theorem readValue_document (v : Value) :
    m.readValue stage .document v =
      match v.asDocument? with
      | some d => .ok (.document d)
      | none => .fail (.typeMismatch Ty.document.name v.kindName) := by
  cases v <;> rfl

theorem readValue_seq (t : Ty) (v : Value) :
    m.readValue stage (.seq t) v =
      match v.asArray? with
      | some vs => m.readItems stage t 0 vs >>= fun xs => .ok (.seq t xs)
      | none => .fail (.typeMismatch (Ty.seq t).name v.kindName) := by
  cases v with
  | array vs =>
    simp only [readValue, Catalogue.fromValue, Dialogue.run_bind, run_readItems]
    rfl
  | _ => rfl

theorem readValue_option (t : Ty) (v : Value) :
    m.readValue stage (.option t) v =
      if v = .null then .ok (.none t)
      else m.readValue stage t v >>= fun x => .ok (.some x) := by
  split
  next h =>
    subst h
    rfl
  next h => cases v <;> first | exact absurd rfl h | exact Dialogue.run_bind _ _ _

theorem readValue_box (t : Ty) (v : Value) :
    m.readValue stage (.box t) v = m.readValue stage t v >>= fun x => .ok (.boxed x) :=
  Dialogue.run_bind _ _ _

theorem readValue_enum {name : String} {d : EnumDecl} (hd : m.types.find? name = some (.enum d))
    (v : Value) :
    m.readValue stage (.named name) v =
      match v.asName? with
      | some s =>
        match d.variant? s with
        | some variant => .ok (.variant name variant)
        | none => .fail (.typeMismatch name ("unknown variant '" ++ s ++ "'"))
      | none => .fail (.typeMismatch name v.kindName) := by
  rw [readValue, Catalogue.fromValue_enum hd]
  cases v.asName? with
  | none => rfl
  | some s =>
    dsimp only
    cases d.variant? s <;> rfl

end Mapper

namespace Catalogue
variable {Γ : Catalogue}

/-- A type that is kept as a nested document: an entity, or a type declared by hand that has no
visible structure and is read through the mapper. -/
def KeptNested (Γ : Catalogue) (name : String) : Prop :=
  (∃ d, Γ.find? name = some (.entity d)) ∨
    ∃ h, Γ.find? name = some (.host h) ∧ h.descriptor.kind = .unstructured ∧
      h.reading = .throughMapper

theorem KeptNested.isDocument_eq_false {name : String} (h : Γ.KeptNested name) :
    (Γ.descriptor (.named name)).isDocument = false := by
  rcases h with ⟨d, hd⟩ | ⟨h, hd, hk, -⟩
  · rw [descriptor_entity hd]
    rfl
  · simp [descriptor, hd, Descriptor.isDocument, hk]

theorem KeptNested.readNamed_eq {name : String} (h : Γ.KeptNested name) (v : Value) :
    Γ.readNamed name v = Γ.fromNested (.named name) v := by
  rcases h with ⟨d, hd⟩ | ⟨h, hd, -, hr⟩
  · simp [readNamed, hd]
  · simp [readNamed, hd, hr]

theorem receive_eq_ok {name : String} {x y : Datum} :
    Γ.receive (.named name) x = .ok y ↔ x.ty = .named name ∧ x = y := by
  simp only [receive, expect]
  split <;> simp_all

theorem bind_receive_eq_ok {name : String} {r : Except Failure Datum} {x : Datum} :
    r >>= Γ.receive (.named name) = .ok x ↔ x.ty = .named name ∧ r = .ok x := by
  cases r with
  | error e => simp [bind, Except.bind]
  | ok y =>
    show Γ.receive (.named name) y = .ok x ↔ _
    rw [receive_eq_ok]
    constructor
    · rintro ⟨hty, rfl⟩
      exact ⟨hty, rfl⟩
    · rintro ⟨hty, he⟩
      cases he
      exact ⟨hty, rfl⟩

end Catalogue

namespace Mapper
variable {m : Mapper} {stage : Stage}

theorem eq_record {name : String} (hk : m.types.KeptNested name) {x : Datum}
    (ht : m.types.HasType x (.named name)) : ∃ parts, x = .record name parts := by
  cases ht with
  | variant hd => obtain ⟨_, he⟩ | ⟨_, he, -⟩ := hk <;> simp [hd] at he
  | _ => exact ⟨_, rfl⟩

/-! ## Nested documents -/

def DocumentsAreValues (m : Mapper) : Prop := m.valueTypes.contains .document = true

theorem covers_document (h : ¬ m.DocumentsAreValues) :
    m.valueTypes.covers (m.types.descriptor .document) = false := by
  simp only [DocumentsAreValues, Bool.not_eq_true] at h
  simp [ValueTypes.covers, Catalogue.descriptor, Descriptor.of, h]

theorem run_fromDocument (h : ¬ m.DocumentsAreValues) {t : Ty}
    (ht : (m.types.descriptor t).isDocument = false) (d : Document) :
    ((m.types.fromDocument t d).run (m.convertAt stage)).result =
      (stage.decode d (m.types.descriptor t)).result >>= m.types.receive t := by
  -- a document is no value type, and no document is asked for
  have hroute : m.route (some (.document d)) (m.types.descriptor t) = .decode := by
    simp [route, Catalogue.isNull, Catalogue.typeOf, Datum.ty, covers_document h, ht,
      Datum.asDocument?]
  simp only [Catalogue.fromDocument, Dialogue.run, convertAt_decode hroute]
  cases (stage.decode d (m.types.descriptor t)).result <;> rfl

theorem readValue_nested (h : ¬ m.DocumentsAreValues) {name : String}
    (hn : m.types.KeptNested name) (v : Value) :
    (m.readValue stage (.named name) v).result =
      match v.asDocument? with
      | some d =>
        (stage.decode d (m.types.descriptor (.named name))).result >>=
          m.types.receive (.named name)
      | none => .error (.here (.typeMismatch name v.kindName)) := by
  simp only [readValue, Catalogue.fromValue, hn.readNamed_eq]
  cases v with
  | document d =>
    simp only [Value.asDocument?, ← run_fromDocument h hn.isDocument_eq_false, Catalogue.fromNested]
  | _ => rfl

theorem readValue_entity_zero (h : ¬ m.DocumentsAreValues) {name : String} {decl : EntityDecl}
    (hd : m.types.find? name = some (.entity decl)) (d : Document) :
    (m.readValue (m.stage 0) (.named name) (.document d)).result =
      .error (.here (.depthExceeded m.settings.maxDepth)) := by
  rw [readValue_nested h (.inl ⟨decl, hd⟩)]
  rfl

theorem readValue_entity_succ (h : ¬ m.DocumentsAreValues) {name : String} {decl : EntityDecl}
    (hd : m.types.find? name = some (.entity decl))
    (hc : m.converters.find? (m.types.descriptor (.named name)) = none) (room : Nat)
    (d : Document) :
    (m.readValue (m.stage (room + 1)) (.named name) (.document d)).result =
      (m.readParts (m.stage room) name d decl.fields).result.map (.record name) := by
  have hdec : (m.stage (room + 1)).decode d (m.types.descriptor (.named name)) =
      m.readParts (m.stage room) name d decl.fields >>= fun xs => .ok (.record name xs) :=
    decode_entity hd hc d
  simp only [readValue_nested h (.inl ⟨decl, hd⟩), Value.asDocument?, hdec, Traced.bind_result]
  cases (m.readParts (m.stage room) name d decl.fields).result with
  | error e => rfl
  | ok xs => exact Catalogue.receive_eq_ok.2 ⟨rfl, rfl⟩

theorem fromDocument_eq_readValue {name : String} (hn : m.types.KeptNested name) (d : Document) :
    m.fromDocument (.named name) d =
      m.readValue (m.stage (m.settings.maxDepth + 1)) (.named name) (.document d) := by
  simp only [readValue, Catalogue.fromValue, hn.readNamed_eq]
  rfl

/-! ## In a field and by itself -/

/-- At a stage a converter or an entity gives the same document in a field, where it is called from
the entity around it, as by itself. -/
class Coherent (m : Mapper) (stage : Stage) : Prop where
  encodeNested_eq {x : Datum} :
    (m.converters.find? (m.types.typeOf x)).isSome ∨ m.types.view x = .entity →
      m.encodeNested stage x = stage.encode x

instance coherent_stage (m : Mapper) (room : Nat) : m.Coherent (m.stage room) where
  encodeNested_eq {x} hmade := by
    rw [encodeNested]
    cases hc : m.converters.find? (m.types.typeOf x) with
    | some c => cases room <;> simp only [Mapper.stage, encode, hc]
    | none =>
      have hview : m.types.view x = .entity := hmade.resolve_left (by simp [hc])
      cases room <;> simp only [Mapper.stage, encode, hc, hview]

theorem made_of_form {x : Datum} (h : m.form x = .nested) :
    (m.converters.find? (m.types.typeOf x)).isSome ∨ m.types.view x = .entity := by
  rw [form] at h
  split at h
  · cases h
  split at h
  · split at h <;> cases h
  split at h
  · exact .inl ‹_›
  · right
    cases hview : m.types.view x <;> simp_all

theorem encodeForm_nested [m.Coherent stage] {x : Datum} (h : m.form x = .nested)
    (items : Unit → Traced (List Value)) :
    m.encodeForm stage x items = stage.encode x >>= fun d => .ok (.document d) := by
  rw [encodeForm, h, ← Coherent.encodeNested_eq (made_of_form h)]
  rfl

/-! ## Storing -/

theorem encodeValue_some (x : Datum) : m.encodeValue stage (.some x) = m.encodeValue stage x := by
  rw [encodeValue]

theorem encodeValue_boxed (x : Datum) : m.encodeValue stage (.boxed x) = m.encodeValue stage x := by
  rw [encodeValue]

theorem encodeValue_eq_encodeForm (x : Datum) :
    m.encodeValue stage x =
      m.encodeForm stage x.present fun _ => m.encodeItems stage 0 x.present.parts := by
  induction x using Datum.present.induct with
  | case1 inner ih =>
    rw [encodeValue_some, ih]
    rfl
  | case2 inner ih =>
    rw [encodeValue_boxed, ih]
    rfl
  | case3 x h1 h2 =>
    rw [Datum.present_eq_self h1 h2]
    cases x with
    | some inner => exact absurd rfl (h1 inner)
    | boxed inner => exact absurd rfl (h2 inner)
    | seq | record =>
      rw [encodeValue]
      rfl
    | _ => simp only [encodeValue, Datum.parts, encodeItems]

theorem encode_none_ne_ok (x : Datum) (d : Document) : (m.encode none x).result ≠ .ok d := by
  intro h
  simp only [encode] at h
  cases hc : m.converters.find? (m.types.typeOf x) with
  | some c => simp [hc, tooDeep, Traced.fail, Traced.error] at h
  | none =>
    cases hv : m.types.view x <;>
      simp [hc, hv, encodeEntity, tooDeep, Traced.fail, Traced.error] at h

theorem encode_converter {x : Datum} {d : Document} {c : Converter}
    (hc : m.converters.find? (m.types.typeOf x) = some c)
    (h : (m.encode (some stage) x).result = .ok d) :
    x.ty = c.entity ∧ ((c.toDocument x).run (m.convertAt stage)).result = .ok d := by
  simp only [encode, hc, Converter.encode] at h
  by_cases ht : x.ty = c.entity
  · exact ⟨ht, by simpa [ht] using h⟩
  · simp [ht, Dialogue.fail, Traced.error] at h

theorem find?_mem {target : Descriptor} {c : Converter}
    (h : m.converters.find? target = some c) : ∃ e ∈ m.converters.entries, e.2 = c := by
  obtain ⟨e, he, rfl⟩ := Option.map_eq_some_iff.1 h
  exact ⟨e, List.mem_of_find?_eq_some he, rfl⟩

theorem stage_encode_eq_ok {room : Nat} {x : Datum} {d : Document}
    (h : ((m.stage room).encode x).result = .ok d) :
    ∃ below, room = below + 1 ∧ (m.encode (some (m.stage below)) x).result = .ok d := by
  cases room with
  | zero => exact (encode_none_ne_ok x d h).elim
  | succ below => exact ⟨below, rfl, h⟩

theorem stage_decode_eq_ok {room : Nat} {target : Descriptor} {x : Datum} {d : Document}
    (h : ((m.stage room).decode d target).result = .ok x) :
    ∃ below, room = below + 1 ∧ (m.decode (some (m.stage below)) d target).result = .ok x := by
  cases room with
  | zero => cases h
  | succ below => exact ⟨below, rfl, h⟩

theorem encode_eq_ok {room : Nat} {x : Datum} {d : Document}
    (h : ((m.stage room).encode x).result = .ok d) :
    (∃ c, m.converters.find? (m.types.typeOf x) = some c ∧ x.ty = c.entity) ∨
      (m.converters.find? (m.types.typeOf x) = none ∧ m.types.view x matches .entity) := by
  obtain ⟨below, -, hb⟩ := stage_encode_eq_ok h
  cases hc : m.converters.find? (m.types.typeOf x) with
  | some c => exact .inl ⟨c, rfl, (encode_converter hc hb).1⟩
  | none =>
    right
    simp only [encode, hc] at hb
    cases hv : m.types.view x <;> simp_all [Traced.fail, Traced.error]

theorem encodeForm_eq_ok [m.Coherent stage] {x : Datum} {items : Unit → Traced (List Value)}
    {v : Value}
    (h : (m.encodeForm stage x items).result = .ok v) :
    match m.form x with
    | .null => v = .null
    | .atom w => v = w
    | .noAtomicForm | .unstructured => False
    | .nested => ∃ d, (stage.encode x).result = .ok d ∧ v = .document d
    | .document d => v = .document d
    | .sequence => ∃ vs, (items ()).result = .ok vs ∧ v = .array vs := by
  cases hf : m.form x
  case nested =>
    rw [encodeForm_nested hf] at h
    obtain ⟨d, hd, rfl⟩ := Traced.bind_ok_eq_ok.1 h
    exact ⟨d, hd, rfl⟩
  all_goals simp only [encodeForm, hf] at h ⊢
  case null | atom | document => simpa [Traced.ok, eq_comm] using h
  case noAtomicForm | unstructured => simp [Traced.fail, Traced.error] at h
  case sequence =>
    obtain ⟨vs, hvs, rfl⟩ := Traced.bind_ok_eq_ok.1 h
    exact ⟨vs, hvs, rfl⟩

theorem form_present {x : Datum} (hn : m.types.isNull x = false)
    (hv : m.valueTypes.covers (m.types.typeOf x) = false)
    (hmade : (m.converters.find? (m.types.typeOf x)).isSome ∨ m.types.view x = .entity) :
    m.form x.present = .nested := by
  simp only [form, Catalogue.isNull_present, Catalogue.typeOf_present, Catalogue.view_present, hn,
    hv, Bool.false_eq_true, if_false]
  split
  · rfl
  · rw [hmade.resolve_left ‹_›]

/-- What has a converter, or shows fields, is stored as the document that it is encoded as. -/
theorem encodeValue_nested [m.Coherent stage] {x : Datum} (hn : m.types.isNull x = false)
    (hv : m.valueTypes.covers (m.types.typeOf x) = false)
    (hmade : (m.converters.find? (m.types.typeOf x)).isSome ∨ m.types.view x = .entity) :
    m.encodeValue stage x = stage.encode x.present >>= fun d => .ok (.document d) := by
  rw [encodeValue_eq_encodeForm, encodeForm_nested (form_present hn hv hmade)]

theorem run_toDocument_nested {x : Datum} (hn : m.types.isNull x = false)
    (hv : m.valueTypes.covers (m.types.typeOf x) = false) (hd : x.present.asDocument? = none) :
    ((m.types.toDocument x).run (m.convertAt stage)).result =
      (stage.encode x.present).result := by
  have hroute : m.route (some x.present) (m.types.descriptor .document) = .encode := by
    simp [route, hn, hv, hd, Catalogue.descriptor, Descriptor.of, Descriptor.isDocument]
  simp only [Catalogue.toDocument, Dialogue.run, convertAt_encode hroute]
  cases (stage.encode x.present).result <;> rfl

theorem run_toDocument_eq_ok {x : Datum} {d : Document} (hd : x.present.asDocument? = none)
    (h : ((m.types.toDocument x).run (m.convertAt stage)).result = .ok d) :
    m.types.isNull x = false ∧ m.valueTypes.covers (m.types.typeOf x) = false ∧
      (stage.encode x.present).result = .ok d := by
  cases hn : m.types.isNull x with
  | true =>
    have hroute : m.route (some x.present) (m.types.descriptor .document) = .absent := by
      simp [route, hn]
    simp [Catalogue.toDocument, Dialogue.run, convertAt_absent hroute, Outcome.document?,
      Traced.error] at h
  | false =>
    cases hv : m.valueTypes.covers (m.types.typeOf x) with
    | true =>
      have hroute : m.route (some x.present) (m.types.descriptor .document) = .passThrough := by
        simp [route, hn, hv]
      simp [Catalogue.toDocument, Dialogue.run, convertAt_passThrough hroute, Outcome.document?, hd,
        Traced.error] at h
    | false => exact ⟨rfl, rfl, by rwa [run_toDocument_nested hn hv hd] at h⟩

theorem encodeValue_of_toDocument {room : Nat} {x : Datum} {d : Document}
    (hd : x.present.asDocument? = none)
    (h : ((m.types.toDocument x).run (m.convertAt (m.stage room))).result = .ok d) :
    (m.encodeValue (m.stage room) x).result = .ok (.document d) := by
  obtain ⟨hn, hv, he⟩ := run_toDocument_eq_ok hd h
  have hmade : (m.converters.find? (m.types.typeOf x)).isSome ∨ m.types.view x = .entity := by
    rcases encode_eq_ok he with ⟨c, hc, -⟩ | ⟨-, hview⟩
    · left
      rw [Catalogue.typeOf_present] at hc
      simp [hc]
    · right
      rw [Catalogue.view_present] at hview
      split at hview <;> simp_all
  rw [encodeValue_nested hn hv hmade]
  exact Traced.bind_ok_eq_ok.2 ⟨d, he, rfl⟩

theorem run_toDocument_entity {name : String} {decl : EntityDecl}
    (hd : m.types.find? name = some (.entity decl))
    (hv : m.valueTypes.covers (m.types.descriptor (.named name)) = false) (parts : List Datum) :
    ((m.types.toDocument (.record name parts)).run (m.convertAt stage)).result =
      (stage.encode (.record name parts)).result := by
  have hn : m.types.isNull (.record name parts) = false := by simp [Catalogue.isNull, hd]
  exact run_toDocument_nested hn hv rfl

theorem encodeValue_entity [m.Coherent stage] {name : String} {decl : EntityDecl}
    (hd : m.types.find? name = some (.entity decl))
    (hv : m.valueTypes.covers (m.types.descriptor (.named name)) = false) (parts : List Datum) :
    m.encodeValue stage (.record name parts) =
      stage.encode (.record name parts) >>= fun d => .ok (.document d) := by
  have hn : m.types.isNull (.record name parts) = false := by simp [Catalogue.isNull, hd]
  have hview : m.types.view (.record name parts) = .entity := by simp [Catalogue.view, hd]
  exact encodeValue_nested hn hv (.inr hview)

theorem encodeValue_seq {t : Ty} (hv : m.valueTypes.covers (m.types.descriptor (.seq t)) = false)
    (hc : m.hasConverter (.seq t) = false) (items : List Datum) :
    m.encodeValue stage (.seq t items) =
      m.encodeItems stage 0 items >>= fun vs => .ok (.array vs) := by
  have hfind := find?_of_hasConverter hc
  have hform : m.form (.seq t items) = .sequence := by
    simp only [form, Catalogue.isNull, Catalogue.typeOf, Datum.ty, hv, hfind]
    rfl
  simp only [encodeValue, encodeForm, hform]
  rfl

/-! ## What storing keeps -/

section
variable {P : {α : Type} → Traced α → Prop}

theorem encodeForm_stepwise [m.Coherent stage] (hP : Traced.Stepwise P)
    (h : ∀ x, P (stage.encode x)) (x : Datum)
    {items : Unit → Traced (List Value)} (hitems : P (items ())) :
    P (m.encodeForm stage x items) := by
  cases hf : m.form x
  case nested =>
    rw [encodeForm_nested hf]
    exact hP.bind (h x) fun d => hP.ok _
  all_goals simp only [encodeForm, hf]
  case null | atom | document => exact hP.ok _
  case noAtomicForm | unstructured => exact hP.fail _
  case sequence => exact hP.bind hitems fun vs => hP.ok _

mutual

theorem encodeValue_stepwise [m.Coherent stage] (hP : Traced.Stepwise P)
    (h : ∀ x, P (stage.encode x)) (x : Datum) :
    P (m.encodeValue stage x) := by
  match x with
  | .some inner =>
    rw [encodeValue_some]
    exact encodeValue_stepwise hP h inner
  | .boxed inner =>
    rw [encodeValue_boxed]
    exact encodeValue_stepwise hP h inner
  | .seq item items =>
    rw [encodeValue]
    exact encodeForm_stepwise hP h _ (encodeItems_stepwise hP h 0 items)
  | .record type parts =>
    rw [encodeValue]
    exact encodeForm_stepwise hP h _ (encodeItems_stepwise hP h 0 parts)
  | .unit | .atom _ | .document _ | .none _ | .variant _ _ =>
    rw [encodeValue]
    · exact encodeForm_stepwise hP h _ (hP.ok [])
    all_goals exact nofun

theorem encodeItems_stepwise [m.Coherent stage] (hP : Traced.Stepwise P)
    (h : ∀ x, P (stage.encode x))
    (position : Nat) (items : List Datum) : P (m.encodeItems stage position items) := by
  match items with
  | [] => exact hP.ok []
  | x :: rest =>
    rw [encodeItems]
    refine hP.bind (hP.under (encodeValue_stepwise hP h x)) fun v => ?_
    exact hP.bind (encodeItems_stepwise hP h (position + 1) rest) fun vs => hP.ok _

end

theorem encodeFields_stepwise [m.Coherent stage] (hP : Traced.Stepwise P)
    (h : ∀ x, P (stage.encode x)) (x : Datum)
    (fields : List FieldSpec) (d : Document) : P (fields.foldlM (m.encodeField stage x) d) := by
  refine hP.foldlM fun d field => ?_
  rw [encodeField]
  cases m.types.getField field.name x with
  | none => exact hP.fail _
  | some part => exact hP.bind (hP.under (encodeValue_stepwise hP h part)) fun v => hP.ok _

theorem stage_encode_stepwise (hP : Traced.Stepwise P) (hc : m.converters = .empty) (room : Nat)
    (x : Datum) : P ((m.stage room).encode x) := by
  have hnone := find?_of_empty hc
  induction room generalizing x with
  | zero =>
    simp only [stage, encode, hnone]
    cases m.types.view x <;> exact hP.fail _
  | succ room ih =>
    simp only [stage, encode, hnone]
    cases m.types.view x with
    | entity => exact encodeFields_stepwise hP ih x _ _
    | _ => exact hP.fail _

end

/-! ## Regular mappers -/

/-- Whether converters are registered only for types that are kept as nested documents and are no
value types. -/
def NestsConverted (m : Mapper) : Prop :=
  ∀ e ∈ m.converters.entries, ∃ name, e.2.entity = .named name ∧ m.types.KeptNested name ∧
    m.valueTypes.covers (m.types.descriptor (.named name)) = false

/-- What the theory of both directions rests on: scalars and value enums are values, documents are
not, and a converter is kept under the descriptor of its type, which is one that is kept as a
nested document. -/
structure Regular (m : Mapper) : Prop where
  builtin : ∀ t ∈ ValueTypes.builtin, m.valueTypes.contains t = true
  documents : ¬ m.DocumentsAreValues
  registered : ∀ e ∈ m.converters.entries, e.1 = m.types.descriptor e.2.entity
  nested : m.NestsConverted

namespace Regular

theorem converter (h : m.Regular) {name : String} (hc : m.ConverterMapped (.named name)) :
    m.types.KeptNested name ∧ m.valueTypes.covers (m.types.descriptor (.named name)) = false ∧
      m.hasConverter (.named name) = true := by
  obtain ⟨e, he, hn⟩ := hc
  obtain ⟨name', hn', hk, hv⟩ := h.nested e he
  cases hn ▸ hn'
  refine ⟨hk, hv, ?_⟩
  simp only [hasConverter, Converters.find?, Option.isSome_map, List.find?_isSome]
  exact ⟨e, he, by simp [h.registered e he, hn]⟩

theorem covers_atom (h : m.Regular) (a : AtomType) :
    m.valueTypes.covers (m.types.descriptor (.atom a)) = true := by
  have := h.builtin (.atom a)
  cases a with
  | integer t => simp [ValueTypes.covers, Catalogue.descriptor, Descriptor.of, AtomType.kind]
  | _ => simp_all [ValueTypes.covers, Catalogue.descriptor, Descriptor.of, AtomType.kind,
      ValueTypes.builtin]

theorem covers_enum (h : m.Regular) {name : String} {d : EnumDecl}
    (hd : m.types.find? name = some (.enum d)) :
    m.valueTypes.covers (m.types.descriptor (.named name)) = true := by
  have := h.builtin .anyEnum (by simp [ValueTypes.builtin])
  simp [ValueTypes.covers, Catalogue.descriptor, hd, Descriptor.standingInFor, Descriptor.of, this]

theorem encode_named (h : m.Regular) {room : Nat} {x : Datum} {d : Document}
    (he : ((m.stage room).encode x).result = .ok d) (hv : ¬ m.types.view x matches .entity) :
    ∃ name, x.ty = .named name := by
  rcases encode_eq_ok he with ⟨c, hc, ht⟩ | ⟨-, hview⟩
  · obtain ⟨e, hm, rfl⟩ := find?_mem hc
    obtain ⟨name, hn, -⟩ := h.nested e hm
    exact ⟨name, ht.trans hn⟩
  · contradiction

variable {room : Nat}

theorem encodeValue_atom (h : m.Regular) (a : Atom) :
    m.encodeValue stage (.atom a) = .ok a.toValue := by
  have := h.covers_atom a.type
  simp only [encodeValue, encodeForm, form, Catalogue.isNull, Catalogue.typeOf, Datum.ty, this,
    Catalogue.toValue]
  rfl

theorem encodeValue_document (h : m.Regular) {d : Document} {v : Value}
    (he : (m.encodeValue (m.stage room) (.document d)).result = .ok v) : v = .document d := by
  have hform : m.form (.document d) =
      if m.hasConverter .document then .nested else .document d := by
    simp only [form, Catalogue.isNull, Catalogue.typeOf, Datum.ty, covers_document h.documents]
    rfl
  simp only [encodeValue] at he
  have hf := encodeForm_eq_ok he
  rw [hform] at hf
  cases hc : m.hasConverter .document with
  | false => simpa [hc] using hf
  | true =>
    simp only [hc, if_true] at hf
    obtain ⟨d', hd', -⟩ := hf
    obtain ⟨name, hn⟩ := h.encode_named hd' (by simp [Catalogue.view])
    simp [Datum.ty] at hn

theorem encodeValue_seq (h : m.Regular) {t : Ty} {items : List Datum} {v : Value}
    (he : (m.encodeValue (m.stage room) (.seq t items)).result = .ok v) :
    ∃ vs, (m.encodeItems (m.stage room) 0 items).result = .ok vs ∧ v = .array vs := by
  have hform : m.form (.seq t items) =
      if m.valueTypes.covers (m.types.descriptor (.seq t)) then .noAtomicForm
      else if m.hasConverter (.seq t) then .nested else .sequence := by
    simp only [form, Catalogue.isNull, Catalogue.typeOf, Datum.ty, Catalogue.toValue]
    rfl
  rw [encodeValue] at he
  have hf := encodeForm_eq_ok he
  rw [hform] at hf
  cases hv : m.valueTypes.covers (m.types.descriptor (.seq t)) with
  | true => simp [hv] at hf
  | false =>
    cases hc : m.hasConverter (.seq t) with
    | false => simpa [hv, hc] using hf
    | true =>
      simp only [hv, hc, if_true, Bool.false_eq_true, if_false] at hf
      obtain ⟨d, hd, -⟩ := hf
      obtain ⟨name, hn⟩ := h.encode_named hd (by simp [Catalogue.view])
      simp [Datum.ty] at hn

theorem encodeValue_variant [m.Coherent stage] (h : m.Regular) {name variant : String}
    {d : EnumDecl} {v : Value} (hd : m.types.find? name = some (.enum d))
    (he : (m.encodeValue stage (.variant name variant)).result = .ok v) :
    ∃ s, d.nameOf? variant = some s ∧ v = .enum s := by
  have hform : m.form (.variant name variant) =
      match d.nameOf? variant with
      | some s => .atom (.enum s)
      | none => .noAtomicForm := by
    simp only [form, Catalogue.isNull, Catalogue.typeOf, Datum.ty, h.covers_enum hd,
      Catalogue.toValue, hd]
    cases d.nameOf? variant <;> rfl
  simp only [encodeValue] at he
  have hf := encodeForm_eq_ok he
  rw [hform] at hf
  cases hs : d.nameOf? variant with
  | none => simp [hs] at hf
  | some s => exact ⟨s, rfl, by simpa [hs] using hf⟩

theorem encodeValue_record [m.Coherent stage] (h : m.Regular) {name : String}
    {parts : List Datum} {v : Value}
    (hn : (∃ d, m.types.find? name = some (.entity d)) ∨ m.ConverterMapped (.named name))
    (he : (m.encodeValue stage (.record name parts)).result = .ok v) :
    (m.types.isNull (.record name parts) = true ∧ v = .null) ∨
      (m.types.isNull (.record name parts) = false ∧ m.types.KeptNested name ∧
        ∃ d, (stage.encode (.record name parts)).result = .ok d ∧ v = .document d) := by
  rw [encodeValue] at he
  have hf := encodeForm_eq_ok he
  cases hnull : m.types.isNull (.record name parts) with
  | true =>
    left
    simp only [form, hnull, if_true] at hf
    exact ⟨rfl, hf⟩
  | false =>
    right
    refine ⟨rfl, ?_⟩
    by_cases hd : ∃ d, m.types.find? name = some (.entity d)
    · obtain ⟨d, hd⟩ := hd
      refine ⟨.inl ⟨d, hd⟩, ?_⟩
      have hform : m.form (.record name parts) = .noAtomicForm ∨
          m.form (.record name parts) = .nested := by
        simp only [form, hnull, Catalogue.toValue, hd, Catalogue.view]
        split
        · contradiction
        · split <;> simp
      rcases hform with hform | hform <;> rw [hform] at hf
      · exact hf.elim
      · exact hf
    · obtain ⟨hk, hv, hc⟩ := h.converter (hn.resolve_left hd)
      refine ⟨hk, ?_⟩
      have hform : m.form (.record name parts) = .nested := by
        simp only [hasConverter] at hc
        simp [form, hnull, Catalogue.typeOf, Datum.ty, hv, hc]
      rwa [hform] at hf

end Regular

end Mapper

end ObjectDocument
