import ObjectDocument.Proofs.Positions

/-!
# What a conversion depends on

A conversion may ask for others: a converter does, and an entity for what is read into its fields
(`Requests`). Of the value types and the converters of a mapper a conversion knows what is looked up
for the objects that it comes to, and for what documents are decoded for, in all the conversions
that it leads to. Two mappers for which this is the same convert alike (`scope_local`).
-/

namespace ObjectDocument

namespace Dialogue
variable {α β : Type}

/-- The conversions that a dialogue may ask for, whatever it is answered. -/
inductive Asks : Dialogue α → Option Datum → Descriptor → Prop where
  | here {source : Option Datum} {target : Descriptor}
      {next : Except Failure Outcome → Dialogue α} :
      Asks (.ask source target next) source target
  | later {source s : Option Datum} {target t : Descriptor}
      {next : Except Failure Outcome → Dialogue α} {answer : Except Failure Outcome} :
      Asks (next answer) s t → Asks (.ask source target next) s t

theorem run_congr {convert convert' : Convert} {x : Dialogue α}
    (h : ∀ s t, x.Asks s t → convert s t = convert' s t) : x.run convert = x.run convert' := by
  induction x with
  | done result => rfl
  | ask source target next ih =>
    simp only [run, h source target .here]
    rw [ih _ fun s t hs => h s t (.later hs)]

variable {s : Option Datum} {t : Descriptor}

theorem Asks.of_bind {x : Dialogue α} {f : α → Dialogue β} (h : (x >>= f).Asks s t) :
    x.Asks s t ∨ ∃ a, (f a).Asks s t := by
  change (x.bind f).Asks s t at h
  induction x with
  | done result =>
    cases result with
    | ok a => exact .inr ⟨a, h⟩
    | error e => cases h
  | ask source target next ih =>
    cases h with
    | here => exact .inl .here
    | later h => exact (ih _ h).imp .later id

theorem Asks.of_under {segment : String} {x : Dialogue α} (h : (x.under segment).Asks s t) :
    x.Asks s t := by
  induction x with
  | done result => cases h
  | ask source target next ih =>
    cases h with
    | here => exact .here
    | later h => exact .later (ih _ h)

end Dialogue

theorem Catalogue.eq_of_asks_fromDocument {Γ : Catalogue} {t : Ty} {d : Document}
    {source : Option Datum} {target : Descriptor} (h : (Γ.fromDocument t d).Asks source target) :
    source = some (.document d) ∧ target = Γ.descriptor t := by
  cases h with
  | here => exact ⟨rfl, rfl⟩
  | later h =>
    dsimp only at h
    split at h <;> cases h

namespace Mapper
variable {m m' : Mapper} {stage stage' : Stage} {s : Option Datum} {e : Descriptor}

/-- A conversion asks for another one: a converter does in what it encodes or decodes, or an entity
when its fields are read. -/
inductive Requests (m : Mapper) :
    Option Datum → Descriptor → Option Datum → Descriptor → Prop where
  | encoding {x y : Datum} {p : List Step} {c : Converter} {target t : Descriptor}
      {s : Option Datum} : m.Reaches x p y → m.converters.find? (m.types.typeOf y) = some c →
      (c.encode m.types y).Asks s t → Requests m (some x) target s t
  | decoding {x : Datum} {d : Document} {c : Converter} {target t : Descriptor} {s : Option Datum} :
      x.present = .document d → m.converters.find? target = some c → (c.fromDocument d).Asks s t →
      Requests m (some x) target s t
  | field {x y : Datum} {d : Document} {target t : Descriptor} {s : Option Datum} {schema : Schema}
      {spec : FieldSpec} {v : Value} : x.present = .document d → target.schema? = some schema →
      spec ∈ schema.fields → y.ty = schema.start.ty → (m.types.setField y spec.name v).Asks s t →
      Requests m (some x) target s t

inductive ComesTo (m : Mapper) :
    Option Datum → Descriptor → Option Datum → Descriptor → Prop where
  | here (source : Option Datum) (target : Descriptor) : ComesTo m source target source target
  | request {source s s' : Option Datum} {target t t' : Descriptor} :
      m.Requests source target s t → ComesTo m s t s' t' → ComesTo m source target s' t'

structure Kin (m m' : Mapper) : Prop where
  types : m'.types = m.types
  settings : m'.settings = m.settings

structure SameAt (m m' : Mapper) (d : Descriptor) : Prop where
  covers : m'.valueTypes.covers d = m.valueTypes.covers d
  find? : m'.converters.find? d = m.converters.find? d

/-- Two mappers look up the same in a conversion, apart from those that it asks for. -/
structure SameIn (m m' : Mapper) (source : Option Datum) (target : Descriptor) : Prop where
  objects : ∀ x ∈ source, ∀ p y, m.Reaches x p y → m.SameAt m' (m.types.typeOf y)
  target : ∀ x ∈ source, ∀ d, x.present = .document d →
    m'.converters.find? target = m.converters.find? target

def Agrees (m m' : Mapper) (source : Option Datum) (target : Descriptor) : Prop :=
  ∀ s t, m.ComesTo source target s t → m.SameIn m' s t

structure AgreesOn (m m' : Mapper) (x : Datum) : Prop where
  objects : ∀ p y, m.Reaches x p y → m.SameAt m' (m.types.typeOf y)
  requests : ∀ p y c, m.Reaches x p y → m.converters.find? (m.types.typeOf y) = some c →
    ∀ s t, (c.encode m.types y).Asks s t → m.Agrees m' s t

theorem Agrees.requests {source s : Option Datum} {target t : Descriptor}
    (h : m.Agrees m' source target) (hs : m.Requests source target s t) : m.Agrees m' s t :=
  fun s' t' hc => h s' t' (.request hs hc)

theorem Agrees.on {x : Datum} {target : Descriptor} (h : m.Agrees m' (some x) target) :
    m.AgreesOn m' x where
  objects := (h _ _ (.here _ _)).objects x rfl
  requests _ _ _ hy hc _ _ hs := h.requests (.encoding hy hc hs)

theorem Agrees.target {x : Datum} {d : Document} {target : Descriptor}
    (h : m.Agrees m' (some x) target) (hx : x.present = .document d) :
    m'.converters.find? target = m.converters.find? target :=
  (h _ _ (.here _ _)).target x rfl d hx

theorem Agrees.document {x : Datum} {d : Document} {target : Descriptor}
    (h : m.Agrees m' (some x) target) (hx : x.present = .document d) :
    m.Agrees m' (some (.document d)) target := by
  have hreach {p : List Step} {y : Datum} (hy : m.Reaches (.document d) p y) :
      m.Reaches x ([] ++ p) y := (Reaches.present m x).append (hx ▸ hy)
  intro s t hs
  cases hs with
  | here =>
    refine ⟨?_, ?_⟩
    · rintro _ ⟨⟩ p y hy
      exact h.on.objects _ y (hreach hy)
    · rintro _ ⟨⟩ e -
      exact h.target hx
  | request hr hs =>
    refine h.requests ?_ s t hs
    cases hr with
    | encoding hy hc ha => exact .encoding (hreach hy) hc ha
    | decoding hd hc ha =>
      cases hd
      exact .decoding hx hc ha
    | field hd hschema hspec hy ha => exact .field hx hschema hspec hy ha

namespace AgreesOn
variable {x y : Datum}

theorem reached {p : List Step} (h : m.AgreesOn m' x) (hy : m.Reaches x p y) : m.AgreesOn m' y where
  objects _ z hz := h.objects _ z (hy.append hz)
  requests _ z c hz := h.requests _ z c (hy.append hz)

theorem sameAt (h : m.AgreesOn m' x) : m.SameAt m' (m.types.typeOf x) := h.objects [] x (.here x)

end AgreesOn

/-! ## What reading asks for -/

theorem asks_fromNested {t : Ty} {v : Value} (h : (m.types.fromNested t v).Asks s e) :
    ∃ d, s = some (.document d) ∧ e = m.types.descriptor t := by
  cases v with
  | document d => exact ⟨d, Catalogue.eq_of_asks_fromDocument h⟩
  | _ => cases h

theorem asks_readItems {read : Value → Dialogue Datum} {start : Nat} {vs : List Value}
    (h : (Catalogue.readItems read start vs).Asks s e) : ∃ v, (read v).Asks s e := by
  induction vs generalizing start with
  | nil => cases h
  | cons v vs ih =>
    rcases h.of_bind with h | ⟨x, h⟩
    · exact ⟨v, h.of_under⟩
    · rcases h.of_bind with h | ⟨xs, h⟩
      · exact ih h
      · cases h

/-- What reading a type may ask for: documents of the named types in it, and what a type declared by
hand asks for by itself. -/
inductive ReadingAsks (m : Mapper) (t : Ty) : Option Datum → Descriptor → Prop where
  | nested {name : String} (d : Document) : m.Occurs t (.named name) →
      ReadingAsks m t (some (.document d)) (m.types.descriptor (.named name))
  | host {name : String} {h : HostDecl} {read : Value → Dialogue (List Datum)} {v : Value}
      {s : Option Datum} {e : Descriptor} : m.Occurs t (.named name) →
      m.types.find? name = some (.host h) → h.reading = .direct read → (read v).Asks s e →
      ReadingAsks m t s e

theorem ReadingAsks.of_occurs {t u : Ty} (hu : m.Occurs t u) (h : m.ReadingAsks u s e) :
    m.ReadingAsks t s e := by
  cases h with
  | nested d ho => exact .nested d (hu.trans ho)
  | host ho hh hr ha => exact .host (hu.trans ho) hh hr ha

theorem asks_readNamed {name : String} {v : Value} (h : (m.types.readNamed name v).Asks s e) :
    m.ReadingAsks (.named name) s e := by
  have hnested (h : (m.types.fromNested (.named name) v).Asks s e) :
      m.ReadingAsks (.named name) s e := by
    obtain ⟨d, rfl, rfl⟩ := asks_fromNested h
    exact .nested d (.refl _)
  rw [Catalogue.readNamed] at h
  split at h
  case h_1 => exact hnested h
  case h_2 =>
    unfold Catalogue.readVariant at h
    split at h
    · split at h <;> cases h
    · split at h <;> cases h
    · cases h
  case h_3 host hhost =>
    split at h
    case h_1 => cases h
    case h_2 => exact hnested h
    case h_3 read hread =>
      rcases h.of_bind with h | ⟨parts, h⟩
      · exact .host (.refl _) hhost hread h
      · cases h
  case h_4 => cases h

theorem asks_fromValue {t : Ty} {v : Value} (h : (m.types.fromValue t v).Asks s e) :
    m.ReadingAsks t s e := by
  induction t generalizing v with
  | unit | anyEnum => cases h
  | atom a =>
    rw [Catalogue.fromValue] at h
    split at h <;> cases h
  | document => cases v <;> cases h
  | seq item ih =>
    cases v with
    | array vs =>
      rcases h.of_bind with h | ⟨xs, h⟩
      · obtain ⟨w, hw⟩ := asks_readItems h
        exact (ih hw).of_occurs (.seq (.refl _))
      · cases h
    | _ => cases h
  | option item ih =>
    cases v with
    | null => cases h
    | _ =>
      rcases h.of_bind with h | ⟨x, h⟩
      · exact (ih h).of_occurs (.option (.refl _))
      · cases h
  | box item ih =>
    rcases h.of_bind with h | ⟨x, h⟩
    · exact (ih h).of_occurs (.box (.refl _))
    · cases h
  | named name => exact asks_readNamed h

theorem asks_setField {name key : String} {decl : EntityDecl} {y : Datum} {v : Value}
    (hd : m.types.find? name = some (.entity decl)) (hc : m.hasConverter (.named name) = false)
    (hy : y.ty = .named name) (h : (m.types.setField y key v).Asks s e) :
    m.ReadingAsks (.named name) s e := by
  cases y with
  | record own parts =>
    cases hy
    simp only [Catalogue.setField, hd] at h
    split at h
    next f hf =>
      rcases h.of_bind with h | ⟨y, h⟩
      · have hkey : f.key? = some key := by simpa using List.find?_some hf
        have hm : f.mapping.isSome := by
          cases hm : f.mapping <;> simp_all [FieldDecl.key?]
        exact (asks_fromValue h).of_occurs
          (.field hd hc (List.mem_of_find?_eq_some hf) hm (.refl _))
      · cases h
    next => cases h
  | variant own variant =>
    cases hy
    cases h
  | _ => cases hy

/-! ## Storing -/

theorem route_local (hk : m.Kin m') {x : Datum} (hx : m.SameAt m' (m.types.typeOf x))
    (target : Descriptor) : m'.route (some x) target = m.route (some x) target := by
  simp only [route, hk.types, hk.settings, hx.covers]

theorem form_local (hk : m.Kin m') {x : Datum} (hx : m.SameAt m' (m.types.typeOf x)) :
    m'.form x = m.form x := by
  simp only [form, hk.types, hx.covers, hx.find?]

theorem form_eq_nested {x : Datum} (h : m.form x = .nested) :
    m.types.isNull x = false ∧ m.valueTypes.covers (m.types.typeOf x) = false := by
  rw [form] at h
  split at h
  · cases h
  · split at h
    · split at h <;> cases h
    · simp_all

theorem form_eq_sequence {x : Datum} (h : m.form x = .sequence) :
    m.TakenApart x ∧ m.types.view x = .sequence := by
  rw [form] at h
  split at h
  · cases h
  next hn =>
    split at h
    · split at h <;> cases h
    next hv =>
      split at h
      · cases h
      next hc =>
        cases hview : m.types.view x with
        | sequence => exact ⟨⟨by simpa using hn, by simpa using hv, by simpa using hc⟩, rfl⟩
        | _ => simp [hview] at h

def StoresAlike (m m' : Mapper) (stage stage' : Stage) : Prop :=
  ∀ x, m.AgreesOn m' x → m.types.isNull x = false →
    m.valueTypes.covers (m.types.typeOf x) = false → stage'.encode x = stage.encode x

theorem encodeForm_local [m.Coherent stage] [m'.Coherent stage'] (hk : m.Kin m')
    (hs : m.StoresAlike m' stage stage') {x : Datum} (hx : m.AgreesOn m' x)
    {items items' : Unit → Traced (List Value)}
    (hitems : m.form x = .sequence → items' () = items ()) :
    m'.encodeForm stage' x items' = m.encodeForm stage x items := by
  have hsame := form_local hk hx.sameAt
  cases hform : m.form x
  case nested =>
    obtain ⟨hn, hv⟩ := form_eq_nested hform
    rw [encodeForm_nested hform, encodeForm_nested (hsame.trans hform), hs x hx hn hv]
  all_goals simp only [encodeForm, hsame, hform, hk.types]
  case sequence => rw [hitems hform]

mutual

theorem encodeValue_local [m.Coherent stage] [m'.Coherent stage'] (hk : m.Kin m')
    (hs : m.StoresAlike m' stage stage') (x : Datum) (hx : m.AgreesOn m' x) :
    m'.encodeValue stage' x = m.encodeValue stage x := by
  match x with
  | .some inner =>
    rw [encodeValue_some, encodeValue_some]
    exact encodeValue_local hk hs inner (hx.reached (.some (.here inner)))
  | .boxed inner =>
    rw [encodeValue_boxed, encodeValue_boxed]
    exact encodeValue_local hk hs inner (hx.reached (.boxed (.here inner)))
  | .seq item items =>
    rw [encodeValue, encodeValue]
    refine encodeForm_local hk hs hx fun hform => ?_
    obtain ⟨hapart, hview⟩ := form_eq_sequence hform
    exact encodeItems_local hk hs 0 items fun i y hy =>
      hx.reached (.item hapart hview hy (.here y))
  | .record type parts =>
    rw [encodeValue, encodeValue]
    refine encodeForm_local hk hs hx fun hform => ?_
    obtain ⟨hapart, hview⟩ := form_eq_sequence hform
    exact encodeItems_local hk hs 0 parts fun i y hy =>
      hx.reached (.item hapart hview hy (.here y))
  | .unit | .atom _ | .document _ | .none _ | .variant _ _ =>
    exact encodeForm_local hk hs hx fun _ => rfl

theorem encodeItems_local [m.Coherent stage] [m'.Coherent stage'] (hk : m.Kin m')
    (hs : m.StoresAlike m' stage stage') (start : Nat) (items : List Datum)
    (hx : ∀ (i : Nat) y, items[i]? = some y → m.AgreesOn m' y) :
    m'.encodeItems stage' start items = m.encodeItems stage start items := by
  match items with
  | [] => rfl
  | x :: rest =>
    rw [encodeItems, encodeItems, encodeValue_local hk hs x (hx 0 x rfl),
      encodeItems_local hk hs (start + 1) rest fun i y hy => hx (i + 1) y hy]

end

theorem encodeEntity_local (hk : m.Kin m') {below below' : Option Stage} {x : Datum}
    (hb : Option.Rel (fun stage stage' => m.Coherent stage ∧ m'.Coherent stage' ∧
      m.StoresAlike m' stage stage') below below')
    (hx : m.AgreesOn m' x) (hapart : m.TakenApart x) (hview : m.types.view x = .entity) :
    m'.encodeEntity below' x = m.encodeEntity below x := by
  cases hb with
  | none => simp only [encodeEntity, tooDeep, hk.settings]
  | some hb =>
    obtain ⟨_, _, hs⟩ := hb
    simp only [encodeEntity, hk.types]
    refine Traced.foldlM_congr (P := fun _ => True) trivial ?_ fun _ _ _ _ _ _ => trivial
    intro d _ spec hspec
    simp only [encodeField, hk.types]
    cases hpart : m.types.getField spec.name x with
    | none => rfl
    | some part =>
      have hreach : m.Reaches x [.key spec.name] part :=
        .field hapart hview hspec hpart (.here part)
      simp only [encodeValue_local hk hs part (hx.reached hreach)]

theorem encode_local (hk : m.Kin m') {below below' : Option Stage} {x : Datum}
    (hb : Option.Rel (fun stage stage' =>
      (m.Coherent stage ∧ m'.Coherent stage' ∧ m.StoresAlike m' stage stage') ∧
        ∀ s t, m.Agrees m' s t → m'.convertAt stage' s t = m.convertAt stage s t) below below')
    (hx : m.AgreesOn m' x) (hn : m.types.isNull x = false)
    (hv : m.valueTypes.covers (m.types.typeOf x) = false) :
    m'.encode below' x = m.encode below x := by
  simp only [encode, hk.types, hx.sameAt.find?]
  cases hc : m.converters.find? (m.types.typeOf x) with
  | some c =>
    cases hb with
    | none => simp only [tooDeep, hk.settings]
    | some hb =>
      exact Dialogue.run_congr fun s t ha => hb.2 s t (hx.requests [] x c (.here x) hc s t ha)
  | none =>
    cases hview : m.types.view x with
    | entity =>
      refine encodeEntity_local hk ?_ hx ⟨hn, hv, hc⟩ hview
      cases hb with
      | none => exact .none
      | some hb => exact .some hb.1
    | _ => rfl

/-! ## Conversions -/

theorem decode_congr (hk : m.Kin m') {d : Document} {target : Descriptor}
    (hnone : m.converters.find? target = none) (hnone' : m'.converters.find? target = none)
    (hset : ∀ schema, target.schema? = some schema → ∀ spec ∈ schema.fields, ∀ y v,
      y.ty = schema.start.ty → (m.types.setField y spec.name v).run (m'.convertAt stage') =
        (m.types.setField y spec.name v).run (m.convertAt stage)) :
    m'.decode (some stage') d target = m.decode (some stage) d target := by
  simp only [decode, hnone, hnone']
  cases hschema : target.schema? with
  | none => rfl
  | some schema =>
    refine Traced.foldlM_congr (P := fun y => y.ty = schema.start.ty) rfl ?_ ?_
    · intro y hy spec hspec
      simp only [decodeField, hk.types]
      cases d.get? spec.name with
      | none => rfl
      | some v => simp only [hset schema hschema spec hspec y v hy]
    · intro y hy spec _ z hz
      rcases decodeField_eq_ok hz with rfl | ⟨name, parts, parts', rfl, rfl⟩
      · exact hy
      · exact hy

theorem decode_local (hk : m.Kin m') {below below' : Option Stage} {d : Document}
    {target : Descriptor}
    (hb : Option.Rel (fun stage stage' =>
      ∀ s t, m.Agrees m' s t → m'.convertAt stage' s t = m.convertAt stage s t) below below')
    (h : m.Agrees m' (some (.document d)) target) :
    m'.decode below' d target = m.decode below d target := by
  cases hb with
  | none => simp only [decode, tooDeep, hk.settings]
  | @some stage stage' hb =>
    have hfind := h.target (d := d) rfl
    cases hc : m.converters.find? target with
    | some c =>
      simp only [decode, hfind, hc]
      exact Dialogue.run_congr fun s t ha => hb s t (h.requests (.decoding rfl hc ha))
    | none =>
      refine decode_congr hk hc (hfind.trans hc) fun schema hschema spec hspec y v hy => ?_
      exact Dialogue.run_congr fun s t ha => hb s t (h.requests (.field rfl hschema hspec hy ha))

theorem convertAt_local (hk : m.Kin m') (hdepth : stage'.depth = stage.depth)
    (hs : m.StoresAlike m' stage stage')
    (hd : ∀ d t, m.Agrees m' (some (.document d)) t → stage'.decode d t = stage.decode d t)
    {source : Option Datum} {target : Descriptor} (h : m.Agrees m' source target) :
    m'.convertAt stage' source target = m.convertAt stage source target := by
  cases source with
  | none => simp only [convertAt, Option.map_none, route, hdepth]
  | some x =>
    have hx := h.on.reached (Reaches.present m x)
    simp only [convertAt, Option.map_some, route_local hk hx.sameAt, hdepth, hk.types]
    cases hroute : m.route (some x.present) target with
    | encode =>
      obtain ⟨hn, hv⟩ := not_value_of_route hroute
      simp only [hs _ hx hn hv]
    | decode =>
      obtain ⟨d, hdoc⟩ := exists_document_of_route (.inr hroute)
      simp only [hdoc, Datum.asDocument?, hd d target (h.document hdoc)]
    | _ => rfl

theorem stage_depth_local (hk : m.Kin m') (room : Nat) :
    (m'.stage room).depth = (m.stage room).depth := by
  cases room <;> simp only [stage, hk.settings]

theorem stage_local (hk : m.Kin m') (room : Nat) :
    m.StoresAlike m' (m.stage room) (m'.stage room) ∧
      ∀ d t, m.Agrees m' (some (.document d)) t →
        (m'.stage room).decode d t = (m.stage room).decode d t := by
  induction room with
  | zero =>
    exact ⟨fun x hx hn hv => encode_local hk .none hx hn hv, fun d t h => decode_local hk .none h⟩
  | succ room ih =>
    -- one level further down both stages convert alike, whatever is asked for there
    have hconvert (s : Option Datum) (t : Descriptor) (h : m.Agrees m' s t) :
        m'.convertAt (m'.stage room) s t = m.convertAt (m.stage room) s t :=
      convertAt_local hk (stage_depth_local hk room) ih.1 ih.2 h
    exact ⟨fun x hx hn hv => encode_local hk
        (.some ⟨⟨m.coherent_stage room, m'.coherent_stage room, ih.1⟩, hconvert⟩) hx hn hv,
      fun d t h => decode_local hk (.some hconvert) h⟩

/-- A conversion depends on nothing but the types, the settings, and what is looked up in it and in
the conversions that it leads to. -/
theorem scope_local (hk : m.Kin m') (depth : Nat) {source : Option Datum} {target : Descriptor}
    (h : m.Agrees m' source target) :
    m'.scope depth source target = m.scope depth source target := by
  have hroom : m'.settings.maxDepth + 1 - depth = m.settings.maxDepth + 1 - depth := by
    rw [hk.settings]
  rw [scope, scope, hroom]
  obtain ⟨hencode, hdecode⟩ := stage_local hk (m.settings.maxDepth + 1 - depth)
  exact convertAt_local hk (stage_depth_local hk _) hencode hdecode h

theorem fromDocument_local (hk : m.Kin m') {t : Ty} {d : Document}
    (h : m.Agrees m' (some (.document d)) (m.types.descriptor t)) :
    m'.fromDocument t d = m.fromDocument t d := by
  rw [fromDocument, fromDocument, hk.types]
  refine Dialogue.run_congr fun s t hs => ?_
  obtain ⟨rfl, rfl⟩ := Catalogue.eq_of_asks_fromDocument hs
  exact scope_local hk 0 h

end Mapper

end ObjectDocument
