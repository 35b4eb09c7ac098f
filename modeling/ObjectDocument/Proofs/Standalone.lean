import ObjectDocument.Proofs.Defaults
import ObjectDocument.Proofs.RegisteredValues

/-!
# Nested and standalone conversions

What stands in a field or a sequence of an entity is converted as it would be by itself one level
further down, failures and events included. So a nested entity is stored as it would be by a mapper
whose limit is lower by the levels above it.
-/

namespace ObjectDocument

namespace Traced
variable {α β : Type}

/-- Whether the second computation gives whatever the first does. -/
def Yields (x y : Traced α) : Prop := ∀ a, x.result = .ok a → y.result = .ok a

namespace Yields
variable {x y : Traced α}

theorem refl (x : Traced α) : x.Yields x := fun _ h => h

theorem fail (cause : Cause) (y : Traced α) : (Traced.fail cause).Yields y := nofun

theorem bind {f g : α → Traced β} (h : x.Yields y) (hf : ∀ a, (f a).Yields (g a)) :
    (x >>= f).Yields (y >>= g) := by
  intro b hb
  obtain ⟨a, ha, hfa⟩ := bind_eq_ok.1 hb
  exact bind_eq_ok.2 ⟨a, h a ha, hf a b hfa⟩

theorem under {segment : String} (h : x.Yields y) : (x.under segment).Yields (y.under segment) :=
  fun a ha => under_eq_ok.2 (h a (under_eq_ok.1 ha))

theorem foldlM {f g : β → α → Traced β} (h : ∀ b a, (f b a).Yields (g b a)) (as : List α) (b : β) :
    (as.foldlM f b).Yields (as.foldlM g b) := by
  induction as generalizing b with
  | nil => exact refl _
  | cons a as ih =>
    rw [List.foldlM_cons, List.foldlM_cons]
    exact (h b a).bind ih

end Yields

end Traced

theorem EntityDecl.getPart_of_mem_zip {d : EntityDecl} {parts : List Datum} {f : FieldDecl}
    {spec : FieldSpec} {x : Datum} (hfx : (f, x) ∈ d.fields.zip parts)
    (hf : f.mapping = some spec) : getPart spec.name d.fields parts = some x := by
  obtain ⟨before, after, hsplit⟩ := List.append_of_mem hfx
  obtain ⟨fs, gs, xs, ys, hlen, hfields, hparts, -, htail⟩ := List.zip_eq_append_iff.1 hsplit
  obtain ⟨gs', ys', rfl, rfl, -⟩ := List.zip_eq_cons_iff.1 htail.symm
  rw [hfields, hparts]
  exact getPart_append hlen.symm (key?_ne hfields hf) (by simp [FieldDecl.key?, hf])

namespace Catalogue
variable {Γ : Catalogue}

/-- Types that are read from a nested document by asking the mapper for an object of the type:
entities, types declared by hand that are read so, and these in boxes. -/
inductive AsksMapper (Γ : Catalogue) : Ty → Prop where
  | entity {name : String} {d : EntityDecl} : Γ.find? name = some (.entity d) →
      AsksMapper Γ (.named name)
  | host {name : String} {h : HostDecl} : Γ.find? name = some (.host h) →
      h.reading = .throughMapper → AsksMapper Γ (.named name)
  | box {t : Ty} : AsksMapper Γ t → AsksMapper Γ (.box t)

theorem fromDocument_box (t : Ty) (d : Document) :
    Γ.fromDocument (.box t) d = Γ.fromDocument t d >>= fun x => .ok (.boxed x) := by
  show _ = (Γ.fromDocument t d).bind _
  simp only [fromDocument, descriptor, Dialogue.bind]
  congr 1
  funext answer
  rcases answer with e | outcome
  · rfl
  · cases outcome with
    | decoded x =>
      simp only [receive]
      cases Γ.receive t x <;> rfl
    | _ => rfl

theorem AsksMapper.fromValue {t : Ty} (h : Γ.AsksMapper t) (d : Document) :
    Γ.fromValue t (.document d) = Γ.fromDocument t d := by
  induction h with
  | entity hd => simp [Catalogue.fromValue, readNamed, hd, fromNested]
  | host hd hr => simp [Catalogue.fromValue, readNamed, hd, hr, fromNested]
  | box _ ih =>
    rw [fromDocument_box, ← ih, Catalogue.fromValue]
    rfl

end Catalogue

namespace Mapper
variable {m : Mapper}

/-! ## At a depth -/

def checkDepth (m : Mapper) (depth : Nat) : Traced Unit :=
  if depth ≤ m.settings.maxDepth then .ok () else m.tooDeep

def encodeAt (m : Mapper) (depth : Nat) (x : Datum) : Traced Document :=
  (m.stage (m.settings.maxDepth + 1 - depth)).encode x

def encodeEntityAt (m : Mapper) (depth : Nat) (x : Datum) : Traced Document :=
  m.checkDepth depth >>= fun _ =>
    (m.types.fields x).foldlM (m.encodeField (m.stage (m.settings.maxDepth - depth)) x) .empty

def decodeAt (m : Mapper) (depth : Nat) (d : Document) (target : Descriptor) : Traced Datum :=
  (m.stage (m.settings.maxDepth + 1 - depth)).decode d target

def storeAt (m : Mapper) (depth : Nat) (x : Datum) : Traced Value :=
  m.encodeValue (m.stage (m.settings.maxDepth - depth)) x

def readAt (m : Mapper) (depth : Nat) (t : Ty) (v : Value) : Traced Datum :=
  (m.types.fromValue t v).run (m.scope (depth + 1))

theorem encodeAt_succ (m : Mapper) (depth : Nat) :
    m.encodeAt (depth + 1) = (m.stage (m.settings.maxDepth - depth)).encode := by
  funext x
  rw [encodeAt, Nat.add_sub_add_right]

theorem decodeAt_succ (m : Mapper) (depth : Nat) :
    m.decodeAt (depth + 1) = (m.stage (m.settings.maxDepth - depth)).decode := by
  funext d target
  rw [decodeAt, Nat.add_sub_add_right]

theorem scope_succ (m : Mapper) (depth : Nat) :
    m.scope (depth + 1) = m.convertAt (m.stage (m.settings.maxDepth - depth)) := by
  rw [scope, Nat.add_sub_add_right]

/-- What checks its depth first is given by the mapper at that depth, within the limit and beyond. -/
theorem eq_checkDepth_bind {α : Type} (m : Mapper) (depth : Nat) {f : Stage → Traced α}
    {y : Unit → Traced α} (hwithin : f (m.stage (m.settings.maxDepth - depth + 1)) = y ())
    (hbeyond : f (m.stage 0) = m.tooDeep) :
    f (m.stage (m.settings.maxDepth + 1 - depth)) = m.checkDepth depth >>= y := by
  rw [checkDepth]
  by_cases h : depth ≤ m.settings.maxDepth
  · rw [if_pos h, Traced.ok_bind, ← hwithin, Nat.sub_add_comm h]
  · rw [if_neg h, Nat.sub_eq_zero_of_le (Nat.lt_of_not_le h), hbeyond]
    rfl

/-! ## By itself -/

theorem encodeAt_converter (depth : Nat) {x : Datum} {c : Converter}
    (hc : m.converters.find? (m.types.typeOf x) = some c) :
    m.encodeAt depth x =
      m.checkDepth depth >>= fun _ => (c.encode m.types x).run (m.scope (depth + 1)) := by
  rw [scope_succ]
  refine m.eq_checkDepth_bind depth (f := fun stage => stage.encode x) ?within ?beyond
  case within | beyond => simp only [stage, encode, hc]

theorem encodeEntity_stage (depth : Nat) (x : Datum) :
    (m.stage (m.settings.maxDepth + 1 - depth)).encodeEntity x = m.encodeEntityAt depth x :=
  m.eq_checkDepth_bind depth (f := fun stage => stage.encodeEntity x) rfl rfl

theorem encodeAt_entity (depth : Nat) {x : Datum}
    (hc : m.converters.find? (m.types.typeOf x) = none) (hview : m.types.view x = .entity) :
    m.encodeAt depth x = m.encodeEntityAt depth x := by
  rw [encodeAt, ← encodeEntity_stage]
  cases m.settings.maxDepth + 1 - depth <;> simp only [stage, encode, hc, hview]

/-! ## In a field -/

section
variable {x : Datum} (depth : Nat)

/-- A converter in a field checks the depth below its entity, and has the mapper two levels below
the entity. -/
theorem storeAt_converter (hn : m.types.isNull x = false)
    (hv : m.valueTypes.covers (m.types.typeOf x) = false) {c : Converter}
    (hc : m.converters.find? (m.types.typeOf x) = some c) :
    m.storeAt depth x =
      (m.checkDepth (depth + 1) >>= fun _ =>
        (c.encode m.types x.present).run (m.scope (depth + 2))) >>= fun d =>
          .ok (.document d) := by
  have hform : m.form x.present = .nested := form_present hn hv (.inl (by simp [hc]))
  have hpresent : m.converters.find? (m.types.typeOf x.present) = some c := by
    rwa [m.types.typeOf_present]
  have hnested : m.encodeNested (m.stage (m.settings.maxDepth + 1 - (depth + 1))) x.present =
      m.checkDepth (depth + 1) >>= fun _ =>
        (c.encode m.types x.present).run (m.scope (depth + 2)) := by
    rw [scope_succ]
    refine m.eq_checkDepth_bind (depth + 1) (f := fun stage => m.encodeNested stage x.present)
      ?within ?beyond
    case within | beyond => simp only [stage, encodeNested, hpresent]
  rw [storeAt, encodeValue_eq_encodeForm, encodeForm, hform, ← hnested, Nat.add_sub_add_right]
  rfl

theorem storeAt_entity (hn : m.types.isNull x = false)
    (hv : m.valueTypes.covers (m.types.typeOf x) = false)
    (hc : m.converters.find? (m.types.typeOf x) = none) (hview : m.types.view x = .entity) :
    m.storeAt depth x =
      m.encodeEntityAt (depth + 1) x.present >>= fun d => .ok (.document d) := by
  have hform : m.form x.present = .nested := form_present hn hv (.inr hview)
  have hpresent : m.converters.find? (m.types.typeOf x.present) = none := by
    rwa [m.types.typeOf_present]
  rw [storeAt, encodeValue_eq_encodeForm, encodeForm, hform, encodeNested, hpresent,
    ← encodeEntity_stage, Nat.add_sub_add_right]
  rfl

end

/-! ## One level further down -/

theorem storeAt_eq {x : Datum} (depth : Nat) (hn : m.types.isNull x = false)
    (hv : m.valueTypes.covers (m.types.typeOf x) = false)
    (hmade : (m.converters.find? (m.types.typeOf x)).isSome ∨ m.types.view x = .entity) :
    m.storeAt depth x = m.encodeAt (depth + 1) x.present >>= fun d => .ok (.document d) := by
  cases hc : m.converters.find? (m.types.typeOf x) with
  | some c =>
    have hpresent : m.converters.find? (m.types.typeOf x.present) = some c := by
      rwa [m.types.typeOf_present]
    rw [storeAt_converter depth hn hv hc, encodeAt_converter (depth + 1) hpresent]
  | none =>
    have hview : m.types.view x = .entity := hmade.resolve_left (by simp [hc])
    rw [storeAt_entity depth hn hv hc hview, encodeAt_entity (depth + 1)
      (by rwa [m.types.typeOf_present]) (by rwa [m.types.view_present])]

theorem run_toDocument_scope {x : Datum} (depth : Nat) (hn : m.types.isNull x = false)
    (hv : m.valueTypes.covers (m.types.typeOf x) = false) (hd : x.present.asDocument? = none) :
    ((m.types.toDocument x).run (m.scope (depth + 1))).result =
      (m.encodeAt (depth + 1) x.present).result := by
  rw [scope_succ, encodeAt_succ, run_toDocument_nested hn hv hd]

theorem readAt_eq {t : Ty} (depth : Nat) (ht : m.types.AsksMapper t) (d : Document) :
    m.readAt depth t (.document d) = (m.types.fromDocument t d).run (m.scope (depth + 1)) := by
  rw [readAt, ht.fromValue]

theorem readAt_eq_decodeAt (h : ¬ m.DocumentsAreValues) {t : Ty} (depth : Nat)
    (ht : m.types.AsksMapper t) (hdoc : (m.types.descriptor t).isDocument = false) (d : Document) :
    (m.readAt depth t (.document d)).result =
      (m.decodeAt (depth + 1) d (m.types.descriptor t)).result >>= m.types.receive t := by
  rw [readAt_eq depth ht, scope_succ, decodeAt_succ, run_fromDocument h hdoc]

/-! ## With a lower limit -/

section Limited
variable {stage stage' : Stage} {limit : Nat}

theorem encodeForm_limited [m.Coherent stage] [(m.limited limit).Coherent stage']
    (h : ∀ x, (stage.encode x).Yields (stage'.encode x)) {x : Datum}
    {items items' : Unit → Traced (List Value)} (hitems : (items ()).Yields (items' ())) :
    (m.encodeForm stage x items).Yields ((m.limited limit).encodeForm stage' x items') := by
  have hform : (m.limited limit).form x = m.form x := rfl
  cases hx : m.form x
  case nested =>
    rw [encodeForm_nested hx, encodeForm_nested (hform.trans hx)]
    exact (h x).bind fun d => .refl _
  all_goals simp only [encodeForm, hform, hx]
  case sequence => exact hitems.bind fun vs => .refl _
  all_goals exact .refl _

mutual

theorem encodeValue_limited [m.Coherent stage] [(m.limited limit).Coherent stage']
    (h : ∀ x, (stage.encode x).Yields (stage'.encode x)) (x : Datum) :
    (m.encodeValue stage x).Yields ((m.limited limit).encodeValue stage' x) := by
  match x with
  | .some inner =>
    rw [encodeValue_some, encodeValue_some]
    exact encodeValue_limited h inner
  | .boxed inner =>
    rw [encodeValue_boxed, encodeValue_boxed]
    exact encodeValue_limited h inner
  | .seq item items =>
    rw [encodeValue, encodeValue]
    exact encodeForm_limited h (encodeItems_limited h 0 items)
  | .record type parts =>
    rw [encodeValue, encodeValue]
    exact encodeForm_limited h (encodeItems_limited h 0 parts)
  | .unit | .atom _ | .document _ | .none _ | .variant _ _ =>
    simp only [encodeValue]
    exact encodeForm_limited h (.refl _)

theorem encodeItems_limited [m.Coherent stage] [(m.limited limit).Coherent stage']
    (h : ∀ x, (stage.encode x).Yields (stage'.encode x)) (position : Nat) (items : List Datum) :
    (m.encodeItems stage position items).Yields
      ((m.limited limit).encodeItems stage' position items) := by
  match items with
  | [] => exact .refl _
  | x :: rest =>
    rw [encodeItems, encodeItems]
    refine (encodeValue_limited h x).under.bind fun v => ?_
    exact (encodeItems_limited h (position + 1) rest).bind fun vs => .refl _

end

theorem stage_limited (hc : m.converters = .empty) (limit room : Nat) :
    ∀ x, ((m.stage room).encode x).Yields (((m.limited limit).stage room).encode x) := by
  have hfind := find?_of_empty hc
  have hfind' (target : Descriptor) : (m.limited limit).converters.find? target = none :=
    hfind target
  induction room with
  | zero =>
    intro x d hd
    exact (encode_none_ne_ok x d hd).elim
  | succ room ih =>
    intro x
    simp only [stage, encode, hfind, hfind']
    have htypes : (m.limited limit).types = m.types := rfl
    rw [htypes]
    cases m.types.view x with
    | entity =>
      refine Traced.Yields.foldlM (fun d field => ?_) _ _
      rw [encodeField, encodeField, htypes]
      cases m.types.getField field.name x with
      | none => exact .refl _
      | some part => exact (encodeValue_limited ih part).under.bind fun v => .refl _
    | _ => exact .refl _

end Limited

def IsEntity (m : Mapper) (x : Datum) : Prop :=
  ∃ name decl parts, x.present = .record name parts ∧ m.types.find? name = some (.entity decl)

theorem takenApart_of_encodeValue {stage : Stage} (hc : m.converters = .empty) {x : Datum}
    {v : Value} (hn : m.types.isNull x = false) (hto : m.types.toValue x = none)
    (he : (m.encodeValue stage x).result = .ok v) : m.TakenApart x := by
  refine ⟨hn, ?_, find?_of_empty hc _⟩
  cases hv : m.valueTypes.covers (m.types.typeOf x) with
  | false => rfl
  | true =>
    have hform : m.form x.present = .noAtomicForm := by simp [form, hn, hv, hto]
    rw [encodeValue_eq_encodeForm, encodeForm, hform] at he
    cases he

theorem IsEntity.takenApart {stage : Stage} (hc : m.converters = .empty) {x : Datum} {v : Value}
    (h : m.IsEntity x) (he : (m.encodeValue stage x).result = .ok v) :
    m.TakenApart x ∧ m.types.view x = .entity := by
  obtain ⟨name, decl, parts, hx, hd⟩ := h
  have hn : m.types.isNull x = false := by
    rw [← m.types.isNull_present, hx]
    simp [Catalogue.isNull, hd]
  have hto : m.types.toValue x = none := by
    rw [← m.types.toValue_present, hx]
    simp [Catalogue.toValue, hd]
  have hview : m.types.view x = .entity := by
    rw [← m.types.view_present, hx]
    simp [Catalogue.view, hd]
  exact ⟨takenApart_of_encodeValue hc hn hto he, hview⟩

theorem Holds.reaches (hc : m.converters = .empty) {x y : Datum} {p : List Step}
    (h : m.Holds x p y) {room : Nat} {v : Value}
    (he : (m.encodeValue (m.stage room) x).result = .ok v) : m.Reaches x p y := by
  induction h generalizing room v with
  | here x => exact .here x
  | some _ _ ih =>
    rw [encodeValue_some] at he
    exact .some (ih he)
  | boxed _ ih =>
    rw [encodeValue_boxed] at he
    exact .boxed (ih he)
  | @item t items i x y p hi _ ih =>
    have hx : m.TakenApart (.seq t items) := takenApart_of_encodeValue hc rfl rfl he
    have hitem : m.Reaches (.seq t items) [.index i] x := .item hx rfl hi (.here x)
    obtain ⟨r, w, -, -, hw⟩ := hitem.stored he
    exact .item hx rfl hi (ih hw)
  | @field name d parts f spec x y p hd _ hfx hf _ ih =>
    obtain ⟨hx, hview⟩ := IsEntity.takenApart hc ⟨name, d, parts, rfl, hd⟩ he
    have hspec : spec ∈ m.types.fields (.record name parts) := by
      simp only [Catalogue.fields, hd]
      exact List.mem_filterMap.2 ⟨f, (List.of_mem_zip hfx).1, hf⟩
    have hget : m.types.getField spec.name (.record name parts) = Option.some x := by
      simp only [Catalogue.getField, hd]
      exact EntityDecl.getPart_of_mem_zip hfx hf
    have hfield : m.Reaches (.record name parts) [.key spec.name] x :=
      .field hx hview hspec hget (.here x)
    obtain ⟨r, w, -, -, hw⟩ := hfield.stored he
    exact .field hx hview hspec hget (ih hw)

/-- Without converters a nested entity is stored as the document that it is given as by itself with
a limit that is lower by the levels above it. -/
theorem Holds.toDocument_limited (hc : m.converters = .empty) {x y : Datum} {p : List Step}
    (h : m.Holds x p y) (hx : m.IsEntity x) (hy : m.IsEntity y) {d : Document}
    (he : (m.toDocument x).result = .ok d) :
    ∃ e, (Value.document d).at? p = Option.some (.document e) ∧
      ((m.limited (m.settings.maxDepth - levels p)).toDocument y).result = .ok e := by
  have hnodocument {z : Datum} (hz : m.IsEntity z) : z.present.asDocument? = none := by
    obtain ⟨name, decl, parts, hz, -⟩ := hz
    rw [hz]
    rfl
  have hstored := encodeValue_of_toDocument (hnodocument hx) he
  obtain ⟨r, w, hr, hw, hstored⟩ := (h.reaches hc hstored).stored hstored
  obtain ⟨hapart, hview⟩ := hy.takenApart hc hstored
  rw [encodeValue_nested hapart.notNull hapart.notValue (.inr hview)] at hstored
  obtain ⟨e, hencode, rfl⟩ := Traced.bind_ok_eq_ok.1 hstored
  refine ⟨e, hw, ?_⟩
  obtain ⟨below, rfl, -⟩ := stage_encode_eq_ok hencode
  -- as many levels are left below the lower limit as below the path
  have hroom : m.settings.maxDepth - levels p + 1 - 0 = below + 1 := by omega
  have hlimited := stage_limited hc (m.settings.maxDepth - levels p) (below + 1) y.present e hencode
  rw [← hlimited, ← hroom]
  exact run_toDocument_nested (m := m.limited _) hapart.notNull hapart.notValue (hnodocument hy)

/-- Nested and standalone conversions are the same, one level apart. What is stored in a field or a
sequence of an entity is the document that it is encoded as at the next depth, where it is given by
itself. What is read there of a document is what the document is decoded as at the next depth, where
the mapper is asked for it. -/
theorem nested_eq_standalone (m : Mapper) (depth : Nat) :
    (∀ x, m.types.isNull x = false → m.valueTypes.covers (m.types.typeOf x) = false →
      ((m.converters.find? (m.types.typeOf x)).isSome ∨ m.types.view x = .entity) →
      m.storeAt depth x = (m.encodeAt (depth + 1) x.present >>= fun d => .ok (.document d)) ∧
        (x.present.asDocument? = none →
          ((m.types.toDocument x).run (m.scope (depth + 1))).result =
            (m.encodeAt (depth + 1) x.present).result)) ∧
      (∀ t d, m.types.AsksMapper t →
        (¬ m.DocumentsAreValues → (m.types.descriptor t).isDocument = false →
          (m.readAt depth t (.document d)).result =
            (m.decodeAt (depth + 1) d (m.types.descriptor t)).result >>= m.types.receive t) ∧
          m.readAt depth t (.document d) = (m.types.fromDocument t d).run (m.scope (depth + 1))) ∧
      (m.converters = .empty → ∀ x d p y, m.IsEntity x → (m.toDocument x).result = .ok d →
        m.Holds x p y → m.IsEntity y →
        ∃ e, (Value.document d).at? p = some (.document e) ∧
          ((m.limited (m.settings.maxDepth - levels p)).toDocument y).result = .ok e) := by
  refine ⟨fun x hn hv hmade => ⟨storeAt_eq depth hn hv hmade, run_toDocument_scope depth hn hv⟩,
    fun t d ht =>
      ⟨fun hdocs hdoc => readAt_eq_decodeAt hdocs depth ht hdoc d, readAt_eq depth ht d⟩,
    fun hc x d p y hx he hp hy => hp.toDocument_limited hc hx hy he⟩

/-! An amount of money may also have a converter. Since it is read from a number by itself, the
converter is asked for a whole amount and not for one in a field. -/

def moneyConverter : Converter where
  entity := .named "Money"
  toDocument
    | .record "Money" [.atom cents] => .ok ⟨[("cents", cents.toValue)]⟩
    | _ => .error (.converter "an amount has cents")
  fromDocument d :=
    match d.get? "cents" with
    | some (.int64 cents) => .ok (.record "Money" [.atom (.integer cents)])
    | _ => .error (.converter "an amount has cents")

def convertedMoneyMapper : Mapper := made invoiceTypes [.converter moneyConverter]

def moneyStored : Document := ⟨[("cents", .int64 price)]⟩

theorem nested_eq_standalone_money :
    convertedMoneyMapper.storeAt 0 (.boxed money) =
        (convertedMoneyMapper.encodeAt 1 money >>= fun d => .ok (.document d)) ∧
      ((convertedMoneyMapper.types.toDocument (.boxed money)).run
        (convertedMoneyMapper.scope 1)).result = .ok moneyStored ∧
      (convertedMoneyMapper.readAt 0 (.box (.named "Invoice")) (.document .empty)).result =
        .ok (.boxed (invoiceDecl.start "Invoice")) ∧
      ∃ e, (Value.document roomStored).at? [.key "lamp"] = some (.document e) ∧
        (((roomMapper 1).limited 0).toDocument (lamp true)).result = .ok e := by
  obtain ⟨hstore, hread, -⟩ := nested_eq_standalone convertedMoneyMapper 0
  obtain ⟨hstored, hgiven⟩ := hstore (.boxed money) rfl rfl (.inl rfl)
  obtain ⟨hdecoded, -⟩ := hread (.box (.named "Invoice")) .empty (.box (.entity rfl))
  refine ⟨hstored, (hgiven rfl).trans rfl, (hdecoded nofun rfl).trans rfl, ?_⟩
  have hlamp : (roomMapper 1).Holds (.record "Room" [lamp true])
      [.key (FieldSpec.mk "lamp" "Lamp" false).name] (lamp true) :=
    .field rfl rfl List.mem_cons_self rfl (.here _)
  exact (nested_eq_standalone (roomMapper 1) 0).2.2 rfl (room true) roomStored _ _
    ⟨_, _, _, rfl, rfl⟩ rfl hlamp ⟨_, _, _, rfl, rfl⟩

/-- A type with a converter that does not ask the mapper is not read from the nested document that
it is decoded from. Neither is an entity where documents are values, which the mapper passes on. -/
theorem nested_ne_decoded :
    ¬ (∀ (m : Mapper) (depth : Nat) (t : Ty) (d : Document),
        (m.converters.find? (m.types.descriptor t)).isSome →
        (m.readAt depth t (.document d)).result =
          (m.decodeAt (depth + 1) d (m.types.descriptor t)).result >>= m.types.receive t) ∧
      (convertedMoneyMapper.fromDocument (.named "Money") moneyStored).result = .ok money ∧
      (convertedMoneyMapper.fromDocument (.named "Invoice")
          ⟨[("total", .document moneyStored)]⟩).result =
        .error (.structural ["total"] (.typeMismatch "Money" "Document")) ∧
      ((invoiceMapper .document).readAt 0 (.named "Invoice") (.document .empty)).result =
        .error (.incompatible Ty.document.name "Invoice") ∧
      ((invoiceMapper .document).decodeAt 1 .empty
          ((invoiceMapper .document).types.descriptor (.named "Invoice"))).result =
        .ok (invoiceDecl.start "Invoice") := by
  refine ⟨fun h => ?_, rfl, rfl, rfl, rfl⟩
  cases h convertedMoneyMapper 0 (.named "Money") moneyStored rfl

end Mapper

end ObjectDocument
