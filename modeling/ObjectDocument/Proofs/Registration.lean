import ObjectDocument.Proofs.Locality
import ObjectDocument.Proofs.Standalone

/-!
# Registrations are local

A mapper without converters is given a converter for one type, or one more value type. What this
type has no part in is converted as before: objects in which storing comes to nothing that the
registration bears on, and documents that are read as an entity in which the type does not occur
(`registration_local`).
-/

namespace ObjectDocument

theorem ValueTypes.covers_extended_append {more : List Ty} {E : Ty} {d : Descriptor}
    (hid : d.id ≠ E) (hs : E ∉ d.supertypes) :
    (extended (more ++ [E])).covers d = (extended more).covers d := by
  have hcontains (t : Ty) (ht : t ≠ E) :
      (extended (more ++ [E])).contains t = (extended more).contains t := by
    rw [Bool.eq_iff_iff, contains_extended_iff, contains_extended_iff]
    simp [ht]
  have hany : d.supertypes.any (extended (more ++ [E])).contains =
      d.supertypes.any (extended more).contains := by
    rw [Bool.eq_iff_iff, List.any_eq_true, List.any_eq_true]
    refine exists_congr fun t => and_congr_right fun ht => ?_
    rw [hcontains t fun h => hs (h ▸ ht)]
  simp only [covers, hcontains d.id hid, hany]

inductive SetupStep.Registers : SetupStep → Ty → Prop where
  | valueType (t : Ty) : Registers (.valueType t) t
  | converter (c : Converter) : Registers (.converter c) c.entity

/-- The registration of a type bears on what has its identity, and that of a value type also on what
may stand in for it. -/
def SetupStep.BearsOn (s : SetupStep) (E : Ty) (d : Descriptor) : Prop :=
  d.id = E ∨ s = .valueType E ∧ E ∈ d.supertypes

namespace Mapper
variable {m : Mapper} {source s : Option Datum} {target e : Descriptor}

/-! ## What is asked for without converters -/

theorem Requests.exists_schema (hc : m.converters = .empty)
    (h : m.Requests source target s e) :
    ∃ x y d schema spec v, source = some x ∧ x.present = .document d ∧
      target.schema? = some schema ∧ spec ∈ schema.fields ∧ y.ty = schema.start.ty ∧
      (m.types.setField y spec.name v).Asks s e := by
  cases h with
  | encoding _ hfind _ => simp [find?_of_empty hc] at hfind
  | decoding _ hfind _ => simp [find?_of_empty hc] at hfind
  | field hx hschema hspec hy ha => exact ⟨_, _, _, _, _, _, rfl, hx, hschema, hspec, hy, ha⟩

theorem Requests.of_entity (hc : m.converters = .empty) {name : String} {decl : EntityDecl}
    (hd : m.types.find? name = some (.entity decl))
    (h : m.Requests source (m.types.descriptor (.named name)) s e) :
    m.ReadingAsks (.named name) s e := by
  obtain ⟨x, y, d, schema, spec, v, -, -, hschema, hspec, hy, ha⟩ := h.exists_schema hc
  rw [Catalogue.descriptor_entity hd] at hschema
  cases hschema
  exact asks_setField hd (hasConverter_of_empty hc _) hy ha

/-! ## One registration -/

/-- A registration bears on nothing in a conversion: on no object that storing comes to, and not on
what a document is decoded for. -/
structure Spared (m : Mapper) (r : SetupStep) (E : Ty) (source : Option Datum)
    (target : Descriptor) : Prop where
  objects : ∀ x ∈ source, ∀ p y, m.Reaches x p y → ¬ r.BearsOn E (m.types.typeOf y)
  target : ∀ x ∈ source, ∀ d, x.present = .document d → target.id ≠ E

/-- A registration has no part in a type declared by hand: it does not answer with the identity of
the registered type, and what it asks for when it is read or its fields are set leads to nothing
that the registration bears on. -/
structure SparedHost (m : Mapper) (r : SetupStep) (E : Ty) (h : HostDecl) : Prop where
  id_ne : h.descriptor.id ≠ E
  reading : ∀ read v s t s' t', h.reading = .direct read → (read v).Asks s t →
    m.ComesTo s t s' t' → m.Spared r E s' t'
  fields : ∀ d s t s' t', m.Requests (some (.document d)) h.descriptor s t → m.ComesTo s t s' t' →
    m.Spared r E s' t'

variable {u : Setup} {r : SetupStep} {E : Ty}

theorem kin_step (hr : r.Registers E) : u.mapper.Kin (u.step r).2.mapper := by
  cases hr <;> exact ⟨rfl, rfl⟩

theorem find?_step (hr : r.Registers E) (hE : (u.types.descriptor E).id = E) {d : Descriptor}
    (hd : d.id ≠ E) :
    (u.step r).2.mapper.converters.find? d = u.mapper.converters.find? d := by
  cases hr with
  | valueType t => rfl
  | converter c =>
    change (u.converters.insert u.types c).2.find? d = u.converters.find? d
    rw [Converters.find?_insert, hE, if_neg hd.symm]

theorem sameAt_step (hr : r.Registers E) (hE : (u.types.descriptor E).id = E) {d : Descriptor}
    (hd : ¬ r.BearsOn E d) : u.mapper.SameAt (u.step r).2.mapper d where
  covers := by
    cases hr with
    | valueType t =>
      exact ValueTypes.covers_extended_append (fun h => hd (.inl h)) fun h => hd (.inr ⟨rfl, h⟩)
    | converter c => rfl
  find? := find?_step hr hE fun h => hd (.inl h)

theorem Spared.sameIn (hr : r.Registers E) (hE : (u.types.descriptor E).id = E)
    (h : u.mapper.Spared r E source target) :
    u.mapper.SameIn (u.step r).2.mapper source target where
  objects x hx p y hy := sameAt_step hr hE (h.objects x hx p y hy)
  target x hx d hd := find?_step hr hE (h.target x hx d hd)

theorem spared_document (hdoc : E ≠ .document) {d : Document} (ht : target.id ≠ E) :
    m.Spared r E (some (.document d)) target where
  objects := by
    rintro _ ⟨⟩ p y hy
    rw [← Catalogue.typeOf_present, hy.of_document rfl]
    rintro (h | ⟨-, h⟩)
    · exact hdoc h.symm
    · cases h
  target _ _ _ _ := ht

theorem ComesTo.spared (hc : m.converters = .empty) (hdoc : E ≠ .document) {t : Ty}
    (ht : ∀ v, m.Occurs t v → v ≠ E)
    (hh : ∀ name h, m.Occurs t (.named name) → m.types.find? name = some (.host h) →
      m.SparedHost r E h)
    (h : m.ComesTo source target s e) {d : Document} {name : String}
    (hs : source = some (.document d)) (htarget : target = m.types.descriptor (.named name))
    (ho : m.Occurs t (.named name)) : m.Spared r E s e := by
  induction h generalizing d name with
  | here source target =>
    subst hs htarget
    refine spared_document hdoc ?_
    by_cases hhost : ∃ h, m.types.find? name = some (.host h)
    · obtain ⟨h, hhost⟩ := hhost
      simpa [Catalogue.descriptor, hhost] using (hh name h ho hhost).id_ne
    · rw [Catalogue.id_descriptor_named (not_exists.1 hhost)]
      exact ht _ ho
  | request hr hrest ih =>
    subst hs htarget
    by_cases hhost : ∃ h, m.types.find? name = some (.host h)
    · obtain ⟨h, hhost⟩ := hhost
      have hdesc : m.types.descriptor (.named name) = h.descriptor := by
        simp [Catalogue.descriptor, hhost]
      -- a type declared by hand speaks for all that it leads to
      exact (hh name h ho hhost).fields d _ _ _ _ (hdesc ▸ hr) hrest
    · obtain ⟨x, y, d, schema, spec, v, -, -, hschema, -⟩ := hr.exists_schema hc
      obtain ⟨decl, hd, -⟩ := Catalogue.exists_entity_of_schema? (not_exists.1 hhost) hschema
      cases hr.of_entity hc hd with
      | nested d hother => exact ih rfl rfl (ho.trans hother)
      | host hother hhost hread ha =>
        exact (hh _ _ (ho.trans hother) hhost).reading _ _ _ _ _ _ hread ha hrest

/-- A type is registered with a mapper without converters. Objects are converted to documents as
before if storing comes to nothing that the registration bears on. Documents are decoded as before
for a named type in which the registered type does not occur; the types declared by hand that occur
are asked not to bring it in by themselves. -/
theorem registration_local (hc : u.converters = .empty) (hr : r.Registers E)
    (hE : (u.types.descriptor E).id = E) :
    (∀ source, (∀ x ∈ source, ∀ p y, u.mapper.Reaches x p y → ¬ r.BearsOn E (u.types.typeOf y)) →
      (u.step r).2.mapper.convert source (u.types.descriptor .document) =
        u.mapper.convert source (u.types.descriptor .document)) ∧
      ∀ name, E ≠ .document →
        (∀ t, u.mapper.Occurs (.named name) t → t ≠ E) →
        (∀ other h, u.mapper.Occurs (.named name) (.named other) →
          u.types.find? other = some (.host h) → u.mapper.SparedHost r E h) →
        ∀ d, (u.step r).2.mapper.fromDocument (.named name) d =
          u.mapper.fromDocument (.named name) d := by
  have hk : u.mapper.Kin (u.step r).2.mapper := kin_step hr
  constructor
  · intro source hsource
    refine scope_local hk 0 fun s t hs => ?_
    cases hs with
    | here =>
      refine Spared.sameIn hr hE ⟨hsource, fun x hx d hd h => ?_⟩
      -- a document is an object of the type itself
      refine hsource x hx [] x (.here x) (.inl ?_)
      rw [← Catalogue.typeOf_present, hd]
      exact h
    | request h _ =>
      obtain ⟨x, y, d, schema, spec, v, -, -, hschema, -⟩ := h.exists_schema hc
      cases hschema
  · intro name hdoc ht hh d
    exact fromDocument_local hk fun s t hs =>
      Spared.sameIn hr hE (hs.spared hc hdoc ht hh rfl rfl (.refl _))

/-! A converter for lamps has no part in an invoice, whose amounts are values. -/

def lampConverter : Converter where
  entity := .named "Lamp"
  toDocument _ := .ok .empty
  fromDocument _ := .ok (lamp true)

def officeSetup : Setup where
  types := ⟨roomTypes.declarations ++ invoiceTypes.declarations, .quiet⟩
  valueTypes := [.named "Money"]
  converters := .empty
  settings := .standard

def lightedSetup : Setup := (officeSetup.step (.converter lampConverter)).2

def invoiceStored : Document :=
  ⟨[("total", .int64 price), ("lines", .array [.int64 price])]⟩

def invoiceObjects : List Datum :=
  [invoice, .some money, money, .seq (.box (.named "Money")) [.boxed money], .boxed money]

def invoiceOccurring : List Ty :=
  [.named "Invoice", .option (.named "Money"), .named "Money", .seq (.box (.named "Money")),
    .box (.named "Money")]

theorem reaches_invoice {p : List Step} {y : Datum} (h : officeSetup.mapper.Reaches invoice p y) :
    y ∈ invoiceObjects := by
  refine h.of_closed (S := fun y => y ∈ invoiceObjects) ?some ?boxed ?item ?field List.mem_cons_self
  case some | boxed => simp [invoiceObjects, invoice, money]
  case item =>
    intro x y hx hview hy
    simp only [invoiceObjects, List.mem_cons, List.not_mem_nil, or_false] at hx
    rcases hx with rfl | rfl | rfl | rfl | rfl
    · cases hview
    · cases hview
    · cases hview
    · simp [invoiceObjects, List.mem_singleton.1 hy]
    · cases hview
  case field =>
    intro x y spec hx hview hspec hget
    simp only [invoiceObjects, List.mem_cons, List.not_mem_nil, or_false] at hx
    rcases hx with rfl | rfl | rfl | rfl | rfl
    · change spec ∈ invoiceDecl.specs at hspec
      simp only [invoiceDecl, EntityDecl.specs, List.filterMap_cons, List.filterMap_nil,
        List.mem_cons, List.not_mem_nil, or_false] at hspec
      rcases hspec with rfl | rfl <;> cases hget <;> simp [invoiceObjects, money]
    · cases hview
    · cases hview
    · cases hview
    · cases hview

theorem occurs_invoice {t : Ty} (h : officeSetup.mapper.Occurs (.named "Invoice") t) :
    t ∈ invoiceOccurring := by
  refine h.of_closed (S := fun t => t ∈ invoiceOccurring) ?seq ?option ?box ?field
    List.mem_cons_self
  case seq | option | box => simp [invoiceOccurring]
  case field =>
    intro name d f hS hd hf hm
    simp only [invoiceOccurring, List.mem_cons, List.not_mem_nil, Ty.named.injEq, reduceCtorEq,
      or_false, false_or] at hS
    rcases hS with rfl | rfl
    · cases hd
      simp only [invoiceDecl, List.mem_cons, List.not_mem_nil, or_false] at hf
      rcases hf with rfl | rfl <;> simp [invoiceOccurring]
    · cases hd

theorem registration_local_invoice :
    (lightedSetup.mapper.convert (some invoice)
        (officeSetup.types.descriptor .document)).result = .ok (.encoded invoiceStored) ∧
      (lightedSetup.mapper.fromDocument (.named "Invoice") invoiceStored).result = .ok invoice := by
  obtain ⟨hconvert, hfrom⟩ :=
    registration_local (u := officeSetup) rfl (.converter lampConverter) rfl
  constructor
  · refine (congrArg Traced.result (hconvert (some invoice) ?_)).trans rfl
    rintro _ ⟨⟩ p y hy (h | ⟨h, -⟩)
    · have hne : ∀ y ∈ invoiceObjects, (officeSetup.types.typeOf y).id ≠ .named "Lamp" := by
        decide
      exact hne y (reaches_invoice hy) h
    · cases h
  · refine (congrArg Traced.result (hfrom "Invoice" nofun ?_ ?_ invoiceStored)).trans rfl
    · intro t ht h
      have hmem := occurs_invoice (h ▸ ht)
      revert hmem
      decide
    · intro other h ho hh
      have hmem := occurs_invoice ho
      simp only [invoiceOccurring, List.mem_cons, List.not_mem_nil, Ty.named.injEq, reduceCtorEq,
        or_false, false_or] at hmem
      rcases hmem with rfl | rfl
      · cases hh
      · cases hh
        refine ⟨by decide, fun read v s t s' t' hread ha => ?_, fun d s t s' t' hr => ?_⟩
        · cases hread
          cases v <;> cases ha
        · obtain ⟨x, y, e, schema, spec, v, -, -, hschema, -⟩ := hr.exists_schema rfl
          cases hschema

/-! A token answers with the descriptor of a coin, a purse asks for a coin when it is read, and a
slot when its field is set. None of them has a coin among its types. -/

def coin : Datum := .record "Coin" []

def token : Datum := .record "Token" []

def coinDecl : HostDecl := { HostDecl.unstructured "Coin" with reading := .throughMapper }

def askForCoin (v : Value) : Dialogue (List Datum) := do
  pure [← Catalogue.fromValue ⟨[("Coin", .host coinDecl)], .quiet⟩ (.named "Coin") v]

def slotDecl : HostDecl :=
  { HostDecl.unstructured "Slot" with
    descriptor := .of (.named "Slot") (.entity ⟨[⟨"coin", "Coin", false⟩], .record "Slot" []⟩)
    reading := .throughMapper
    setField := fun _ v _ => askForCoin v }

def walletDecl (content : String) : EntityDecl where
  fields := [⟨"content", .named content, some ⟨"content", content, false⟩, .record content []⟩]
  keys_nodup := .cons nofun .nil

def walletTypes (content : String) : Catalogue where
  declarations :=
    [("Coin", .host coinDecl), ("Token", .host coinDecl),
      ("Purse", .host { HostDecl.unstructured "Purse" with reading := .direct askForCoin }),
      ("Slot", .host slotDecl), ("Wallet", .entity (walletDecl content))]
  wideNaN := .quiet

def coinConverter : Converter where
  entity := .named "Coin"
  toDocument _ := .ok .empty
  fromDocument _ := .ok coin

def walletSetup (content : String) : Setup := .empty (walletTypes content)

def mintedSetup (content : String) : Setup :=
  ((walletSetup content).step (.converter coinConverter)).2

def walletStored : Document := ⟨[("content", .document ⟨[("coin", .document .empty)]⟩)]⟩

theorem occurs_wallet {content : String} (hcontent : content ∈ ["Token", "Purse", "Slot"]) {t : Ty}
    (h : (walletSetup content).mapper.Occurs (.named "Wallet") t) :
    t = .named "Wallet" ∨ t = .named content := by
  refine h.of_closed (S := fun t => t = .named "Wallet" ∨ t = .named content) nofun nofun nofun ?_
    (.inl rfl)
  intro name d f hname hd hf _
  simp only [List.mem_cons, List.not_mem_nil, or_false] at hcontent
  rcases hname with hname | hname
  · cases hname
    cases hd
    cases List.mem_singleton.1 hf
    exact .inr rfl
  · cases hname
    rcases hcontent with rfl | rfl | rfl <;> cases hd

/-- What a type declared by hand answers with or asks for can be what is registered though the type
is another one. -/
theorem registration_reaches_hosts :
    (∀ content, ((walletTypes content).descriptor (.named "Coin")).id = .named "Coin") ∧
      (∀ p y, (walletSetup "Token").mapper.Reaches token p y → y.ty ≠ .named "Coin") ∧
      ((walletSetup "Token").mapper.convert (some token)
          (.of .document .document)).result = .error (.here (.noStructure "Coin")) ∧
      ((mintedSetup "Token").mapper.convert (some token)
          (.of .document .document)).result = .error (.here (.typeMismatch "Coin" "Coin")) ∧
      ∀ content ∈ ["Token", "Purse", "Slot"],
        (∀ t, (walletSetup content).mapper.Occurs (.named "Wallet") t → t ≠ .named "Coin") ∧
          (mintedSetup content).mapper.fromDocument (.named "Wallet") walletStored ≠
            (walletSetup content).mapper.fromDocument (.named "Wallet") walletStored := by
  refine ⟨fun _ => rfl, fun p y hy => ?_, rfl, rfl, fun content hcontent => ⟨fun t ht h => ?_, ?_⟩⟩
  · have hy : y = token := by
      refine hy.of_closed (S := fun y => y = token) nofun nofun ?_ ?_ rfl
      · rintro _ _ rfl hview
        cases hview
      · rintro _ _ _ rfl hview
        cases hview
    rw [hy]
    nofun
  · rcases occurs_wallet hcontent (h ▸ ht) with h | h
    · exact absurd h (by decide)
    · cases h
      exact absurd hcontent (by decide)
  · intro h
    have hresult := congrArg Traced.result h
    simp only [List.mem_cons, List.not_mem_nil, or_false] at hcontent
    rcases hcontent with rfl | rfl | rfl <;> cases hresult

end Mapper

end ObjectDocument
