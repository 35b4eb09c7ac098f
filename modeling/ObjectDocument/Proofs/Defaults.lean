import ObjectDocument.Proofs.Grammar
import ObjectDocument.Proofs.Nesting

/-!
# Storing what was read

What is read of a document can be stored again, but for what did not come from the document: a field
without an entry is the default of its entity, whatever that holds. `Fills` tells which defaults
come into what is read, and below how many entities. What is read is of a kind exactly if these
defaults are, for every kind that goes through options, boxes, sequences and entities
(`Hereditary.iff_fills`). So it is within the limit of nesting exactly if they are, and it is read
back exactly if they would be. What is stored is stored again by what is read back of it in either
case.
-/

namespace ObjectDocument

theorem AtomType.Takes.type_eq {nan : WideNaN} {a : AtomType} {v : Value} {b : Atom}
    (h : a.Takes nan v b) : b.type = a := by
  cases h <;> rfl

namespace Catalogue

def DefaultsTyped (Γ : Catalogue) : Prop :=
  ∀ name decl, Γ.find? name = some (.entity decl) → ∀ f ∈ decl.fields, Γ.HasType f.default f.ty

end Catalogue

namespace Mapper
variable {m : Mapper}

/-! ## What is read -/

mutual

theorem Matches.hasType (hΓ : m.types.DefaultsTyped) {k : Nat} {t : Ty} {v : Value} {x : Datum} :
    m.Matches k t v x → m.types.HasType x t
  | .atom h => by
    cases h.type_eq
    exact .atom _
  | .document d => .document d
  | .seq h => .seq (h.hasItems hΓ)
  | .none t => .none t
  | .some _ h => .some (h.hasType hΓ)
  | .boxed h => .boxed (h.hasType hΓ)
  | .variant hd hs _ => .variant hd (List.mem_map_of_mem hs)
  | .entity hd _ h => .entity hd (h.hasParts hΓ fun f hf => hΓ _ _ hd f hf)

theorem MatchesItems.hasItems (hΓ : m.types.DefaultsTyped) {k : Nat} {t : Ty} {vs : List Value}
    {xs : List Datum} : m.MatchesItems k t vs xs → m.types.HasItems t xs
  | .nil => .nil
  | .cons h hrest => .cons (h.hasType hΓ) (hrest.hasItems hΓ)

theorem MatchesPart.hasType (hΓ : m.types.DefaultsTyped) {k : Nat} {d : Document} {f : FieldDecl}
    {x : Datum} (hf : m.types.HasType f.default f.ty) :
    m.MatchesPart k d f x → m.types.HasType x f.ty
  | .skipped _ => hf
  | .absent _ _ _ => hf
  | .present _ _ h => h.hasType hΓ

theorem MatchesParts.hasParts (hΓ : m.types.DefaultsTyped) {k : Nat} {d : Document}
    {fields : List FieldDecl} {xs : List Datum}
    (hf : ∀ f ∈ fields, m.types.HasType f.default f.ty) :
    m.MatchesParts k d fields xs → m.types.HasParts fields xs
  | .nil => .nil
  | .cons h hrest =>
    .cons (h.hasType hΓ (hf _ (by simp))) (hrest.hasParts hΓ fun g hg => hf g (by simp [hg]))

end

theorem Matches.isNull_eq_false {k : Nat} {t : Ty} {v : Value} {x : Datum} (hv : v ≠ .null)
    (h : m.Matches k t v x) : m.types.isNull x = false := by
  induction t generalizing v x with
  | option t ih =>
    cases h with
    | none => exact absurd rfl hv
    | some hn h =>
      rw [Catalogue.isNull]
      exact ih hn h
  | box t ih =>
    cases h with
    | boxed h =>
      rw [Catalogue.isNull]
      exact ih hv h
  | named name =>
    cases h with
    | variant => rfl
    | entity hd => simp [Catalogue.isNull, hd]
  | atom | document | seq => cases h; rfl
  | unit | anyEnum => cases h

theorem MatchesParts.skipped {k : Nat} {d : Document} {fields : List FieldDecl} {xs : List Datum}
    (h : m.MatchesParts k d fields xs) {f : FieldDecl} {x : Datum} (hfx : (f, x) ∈ fields.zip xs)
    (hf : f.mapping = none) : x = f.default := by
  induction fields generalizing xs with
  | nil => simp at hfx
  | cons g fields ih =>
    cases h with
    | cons hg hrest =>
      rcases List.mem_cons.1 hfx with he | hfx
      · cases he
        cases hg with
        | present hs => simp [hf] at hs
        | _ => rfl
      · exact ih hrest hfx

/-! ## Defaults in what is read -/

mutual

/-- Reading a value below so many entities as a type leaves a field of an entity, below so many
itself, as it is by default. -/
inductive Fills (m : Mapper) : Nat → Ty → Value → Nat → FieldDecl → Prop where
  | item {k l : Nat} {t : Ty} {vs : List Value} {v : Value} {g : FieldDecl} :
      v ∈ vs → Fills m k t v l g → Fills m k (.seq t) (.array vs) l g
  | option {k l : Nat} {t : Ty} {v : Value} {g : FieldDecl} :
      v ≠ .null → Fills m k t v l g → Fills m k (.option t) v l g
  | box {k l : Nat} {t : Ty} {v : Value} {g : FieldDecl} :
      Fills m k t v l g → Fills m k (.box t) v l g
  | field {k l : Nat} {name : String} {decl : EntityDecl} {d : Document} {f g : FieldDecl} :
      m.types.find? name = some (.entity decl) → f ∈ decl.fields → FillsPart m k d f l g →
      Fills m k (.named name) (.document d) l g

inductive FillsPart (m : Mapper) : Nat → Document → FieldDecl → Nat → FieldDecl → Prop where
  | absent {k : Nat} {d : Document} {f : FieldDecl} {spec : FieldSpec} :
      f.mapping = some spec → d.get? spec.name = none → FillsPart m k d f k f
  | present {k l : Nat} {d : Document} {f g : FieldDecl} {spec : FieldSpec} {v : Value} :
      f.mapping = some spec → d.get? spec.name = some v → Fills m (k + 1) f.ty v l g →
      FillsPart m k d f l g

end

section
variable {k l : Nat} {t : Ty} {v : Value} {g : FieldDecl}

theorem fills_seq {vs : List Value} :
    m.Fills k (.seq t) (.array vs) l g ↔ ∃ v ∈ vs, m.Fills k t v l g := by
  refine ⟨fun h => ?_, fun ⟨v, hv, h⟩ => .item hv h⟩
  cases h with | item hv h => exact ⟨_, hv, h⟩

theorem fills_option (hv : v ≠ .null) :
    m.Fills k (.option t) v l g ↔ m.Fills k t v l g := by
  refine ⟨fun h => ?_, .option hv⟩
  cases h with | option _ h => exact h

theorem fills_box : m.Fills k (.box t) v l g ↔ m.Fills k t v l g := by
  refine ⟨fun h => ?_, .box⟩
  cases h with | box h => exact h

theorem fills_entity {name : String} {decl : EntityDecl} {d : Document}
    (hd : m.types.find? name = some (.entity decl)) :
    m.Fills k (.named name) (.document d) l g ↔ ∃ f ∈ decl.fields, m.FillsPart k d f l g := by
  refine ⟨fun h => ?_, fun ⟨f, hf, h⟩ => .field hd hf h⟩
  cases h with
  | field hd' hf h =>
    rw [hd] at hd'
    cases hd'
    exact ⟨_, hf, h⟩

variable {d : Document} {f : FieldDecl} {spec : FieldSpec}

theorem fillsPart_absent (hf : f.mapping = some spec) (hg : d.get? spec.name = none) :
    m.FillsPart k d f l g ↔ l = k ∧ g = f := by
  refine ⟨fun h => ?_, fun ⟨hl, hg'⟩ => ?_⟩
  · cases h with
    | absent => exact ⟨rfl, rfl⟩
    | present hf' hg' _ =>
      rw [hf] at hf'
      cases hf'
      simp [hg] at hg'
  · subst hl hg'
    exact .absent hf hg

theorem fillsPart_present (hf : f.mapping = some spec) (hg : d.get? spec.name = some v) :
    m.FillsPart k d f l g ↔ m.Fills (k + 1) f.ty v l g := by
  refine ⟨fun h => ?_, .present hf hg⟩
  cases h with
  | absent hf' hg' =>
    rw [hf] at hf'
    cases hf'
    simp [hg] at hg'
  | present hf' hg' h =>
    rw [hf] at hf'
    cases hf'
    rw [hg] at hg'
    cases hg'
    exact h

end

/-- A kind of object below so many entities that goes through options, boxes, sequences and entities
and tells nothing of anything else. What an entity skips is as by default in all that is read. -/
structure Hereditary (m : Mapper) (A : Nat → Datum → Prop) : Prop where
  atom : ∀ k a, A k (.atom a)
  document : ∀ k d, A k (.document d)
  variant : ∀ k name v, A k (.variant name v)
  none : ∀ k t, A k (.none t)
  some : ∀ k x, m.types.isNull x = false → (A k (.some x) ↔ A k x)
  boxed : ∀ k x, A k (.boxed x) ↔ A k x
  seq : ∀ k t xs, A k (.seq t xs) ↔ ∀ x ∈ xs, A k x
  entity : ∀ k name decl xs, m.types.find? name = Option.some (.entity decl) →
    k ≤ m.settings.maxDepth →
    (∀ f x, (f, x) ∈ decl.fields.zip xs → f.mapping = Option.none → x = f.default) →
    (A k (.record name xs) ↔
      ∀ f x, (f, x) ∈ decl.fields.zip xs → f.mapping.isSome → A (k + 1) x)

namespace Hereditary
variable {A : Nat → Datum → Prop}

mutual

theorem iff_fills (hA : m.Hereditary A) {k : Nat} {t : Ty} {v : Value} {x : Datum} :
    m.Matches k t v x → (A k x ↔ ∀ l g, m.Fills k t v l g → A (l + 1) g.default)
  | .atom _ => iff_of_true (hA.atom _ _) nofun
  | .document _ => iff_of_true (hA.document _ _) nofun
  | .variant hd _ _ => by
    refine iff_of_true (hA.variant _ _ _) fun l g h => ?_
    cases h with | field hd' _ _ => simp [hd] at hd'
  | .none t => by
    refine iff_of_true (hA.none _ _) fun l g h => ?_
    cases h with | option hn _ => exact absurd rfl hn
  | .some hn h => by
    -- what was read of something else than null is stored, so the option is of the kind with it
    rw [hA.some _ _ (h.isNull_eq_false hn), iff_fills hA h]
    simp only [fills_option hn]
  | .boxed h => by
    rw [hA.boxed, iff_fills hA h]
    simp only [fills_box]
  | .seq h => by
    rw [hA.seq, iff_fills_items hA h]
    simp only [fills_seq]
    exact ⟨fun hv l g ⟨v, hm, hf⟩ => hv v hm l g hf, fun hf v hm l g hv => hf l g ⟨v, hm, hv⟩⟩
  | .entity hd hk h => by
    rw [hA.entity _ _ _ _ hd hk fun f x => h.skipped, iff_fills_parts hA h]
    simp only [fills_entity hd]
    exact ⟨fun hp l g ⟨f, hm, hf⟩ => hp f hm l g hf, fun hf f hm l g hp => hf l g ⟨f, hm, hp⟩⟩

theorem iff_fills_items (hA : m.Hereditary A) {k : Nat} {t : Ty} {vs : List Value}
    {xs : List Datum} : m.MatchesItems k t vs xs →
      ((∀ x ∈ xs, A k x) ↔ ∀ v ∈ vs, ∀ l g, m.Fills k t v l g → A (l + 1) g.default)
  | .nil => by simp
  | .cons h hrest => by
    rw [List.forall_mem_cons, List.forall_mem_cons, iff_fills hA h, iff_fills_items hA hrest]

theorem iff_fills_part (hA : m.Hereditary A) {k : Nat} {d : Document} {f : FieldDecl} {x : Datum} :
    m.MatchesPart k d f x →
      ((f.mapping.isSome → A (k + 1) x) ↔ ∀ l g, m.FillsPart k d f l g → A (l + 1) g.default)
  | .skipped hf => by
    refine iff_of_true (by simp [hf]) fun l g h => ?_
    cases h with | absent hs _ | present hs _ _ => simp [hf] at hs
  | .absent hf _ hg => by simp [fillsPart_absent hf hg, hf]
  | .present hf hg h => by simp only [fillsPart_present hf hg, hf, ← iff_fills hA h]; simp

theorem iff_fills_parts (hA : m.Hereditary A) {k : Nat} {d : Document} {fields : List FieldDecl}
    {xs : List Datum} : m.MatchesParts k d fields xs →
      ((∀ f x, (f, x) ∈ fields.zip xs → f.mapping.isSome → A (k + 1) x) ↔
        ∀ f ∈ fields, ∀ l g, m.FillsPart k d f l g → A (l + 1) g.default)
  | .nil => by simp
  | .cons h hrest => by
    rw [List.forall_mem_cons, ← iff_fills_part hA h, ← iff_fills_parts hA hrest]
    refine ⟨fun hp => ⟨hp _ _ List.mem_cons_self, fun g y hg => hp g y (List.mem_cons_of_mem _ hg)⟩,
      fun ⟨hp, hps⟩ g y hg => ?_⟩
    rcases List.mem_cons.1 hg with he | hg
    · cases he
      exact hp
    · exact hps g y hg

end

end Hereditary

/-! ## Two kinds -/

theorem hereditary_height (m : Mapper) :
    m.Hereditary fun k x => m.types.height x ≤ m.settings.maxDepth + 1 - k where
  atom _ _ := Nat.zero_le _
  document _ _ := Nat.zero_le _
  variant _ _ _ := Nat.zero_le _
  none _ _ := Nat.zero_le _
  some _ _ _ := Iff.rfl
  boxed _ _ := Iff.rfl
  seq _ _ _ := Catalogue.heightItems_le_iff
  entity k name decl xs hd hk _ := by
    rw [← Catalogue.heightParts_le_iff]
    simp only [Catalogue.height, hd]
    omega

theorem hereditary_intact (h : m.Bare) : m.Hereditary fun _ x => m.Throughout m.Intact x where
  atom _ _ _ _ hy := by
    cases hy
    trivial
  document _ _ _ _ hy := by
    cases hy
    trivial
  variant _ _ _ _ _ hy := by
    cases hy
    trivial
  none _ _ := .of_none trivial
  some _ x hn := ⟨fun hx => hx.some hn, .of_some hn⟩
  boxed _ x := ⟨.boxed, .of_boxed trivial⟩
  seq _ t xs := ⟨.items, .of_seq trivial⟩
  entity k name decl xs hd _ hs := by
    refine ⟨fun hx => hx.parts hd (h.hasConverter _), fun hp p y hy => ?_⟩
    cases hy with
    | here =>
      intro d hd' _ f x hfx hf
      rw [hd] at hd'
      cases hd'
      exact hs f x hfx hf
    | field hd' _ hfx hf hy =>
      rw [hd] at hd'
      cases hd'
      exact hp _ _ hfx (by simp [hf]) _ _ hy

/-! ## What is read back -/

mutual

theorem stored_restored (x : Datum) :
    m.types.stored (m.restored x) = m.types.stored x ∧
      m.types.height (m.restored x) = m.types.height x := by
  match x with
  | .seq t items =>
    have hitems := storedItems_restored items
    simp only [restored, Catalogue.stored, Catalogue.height, hitems, and_self]
  | .some inner =>
    have hinner := stored_restored inner
    rw [restored]
    split
    next hn =>
      simp only [Catalogue.stored, Catalogue.height, Catalogue.stored_of_isNull hn,
        Catalogue.height_of_isNull hn, and_self]
    next => simp only [Catalogue.stored, Catalogue.height, hinner, and_self]
  | .boxed inner =>
    have hinner := stored_restored inner
    simp only [restored, Catalogue.stored, Catalogue.height, hinner, and_self]
  | .record name parts =>
    rw [restored]
    split
    · exact ⟨rfl, rfl⟩
    · split
      next decl hd =>
        have hparts := storedParts_restored decl.fields parts
        simp only [Catalogue.stored, Catalogue.height, hd, hparts, and_self]
      next => exact ⟨rfl, rfl⟩
  | .unit | .atom _ | .document _ | .none _ | .variant _ _ => exact ⟨rfl, rfl⟩

theorem storedItems_restored (xs : List Datum) :
    m.types.storedItems (m.restoredItems xs) = m.types.storedItems xs ∧
      m.types.heightItems (m.restoredItems xs) = m.types.heightItems xs := by
  match xs with
  | [] => exact ⟨rfl, rfl⟩
  | x :: rest =>
    have hx := stored_restored x
    have hrest := storedItems_restored rest
    simp only [restoredItems, Catalogue.storedItems, Catalogue.heightItems, hx, hrest, and_self]

theorem storedParts_restored (fields : List FieldDecl) (parts : List Datum) :
    m.types.storedParts fields (m.restoredParts fields parts) = m.types.storedParts fields parts ∧
      m.types.heightParts fields (m.restoredParts fields parts) =
        m.types.heightParts fields parts := by
  match fields, parts with
  | [], _ | _ :: _, [] => simp [restoredParts, Catalogue.storedParts, Catalogue.heightParts]
  | f :: fields, x :: parts =>
    have hx := stored_restored x
    have hrest := storedParts_restored fields parts
    rw [restoredParts, Catalogue.storedParts, Catalogue.storedParts, Catalogue.heightParts,
      Catalogue.heightParts, hrest.1, hrest.2]
    cases hf : f.mapping with
    | none => exact ⟨rfl, rfl⟩
    | some spec => simp only [Option.isSome_some, if_true, hx, and_self]

end

theorem mem_of_restoredItems {xs : List Datum} (h : m.restoredItems xs = xs) :
    ∀ x ∈ xs, m.restored x = x := by
  induction xs with
  | nil => simp
  | cons x xs ih =>
    simp only [restoredItems, List.cons.injEq] at h
    exact List.forall_mem_cons.2 ⟨h.1, ih h.2⟩

theorem mem_of_restoredParts {fields : List FieldDecl} {parts : List Datum}
    (h : m.restoredParts fields parts = parts) {f : FieldDecl} {x : Datum}
    (hfx : (f, x) ∈ fields.zip parts) :
    x = if f.mapping.isSome then m.restored x else f.default := by
  induction fields generalizing parts with
  | nil => simp at hfx
  | cons g fields ih =>
    cases parts with
    | nil => simp at hfx
    | cons y parts =>
      simp only [restoredParts, List.cons.injEq] at h
      rcases List.mem_cons.1 hfx with he | hfx
      · cases he
        exact h.1.symm
      · exact ih h.2 hfx

theorem Holds.restored_eq {x y : Datum} {p : List Step} (hy : m.Holds x p y)
    (h : m.restored x = x) : m.restored y = y := by
  induction hy with
  | here x => exact h
  | some hn _ ih =>
    rw [restored, hn] at h
    exact ih (Datum.some.inj h)
  | boxed _ ih =>
    rw [restored] at h
    exact ih (Datum.boxed.inj h)
  | item hi _ ih =>
    rw [restored] at h
    exact ih (mem_of_restoredItems (Datum.seq.inj h).2 _ (List.mem_of_getElem? hi))
  | field hd hc hfx hf _ ih =>
    rw [restored, hc, hd] at h
    have hpart := mem_of_restoredParts (Datum.record.inj h).2 hfx
    rw [hf] at hpart
    exact ih hpart.symm

theorem restored_eq_self_iff {x : Datum} {t : Ty} (ht : m.types.HasType x t) :
    m.restored x = x ↔ m.Throughout m.Intact x := by
  refine ⟨fun h p y hy => ?_, restored_eq_self ht⟩
  have hself := hy.restored_eq h
  cases y with
  | some inner =>
    cases hn : m.types.isNull inner with
    | false => exact hn
    | true => simp [restored, hn] at hself
  | record name parts =>
    intro decl hd hc f z hfz hf
    rw [restored, hc, hd] at hself
    have hpart := mem_of_restoredParts (Datum.record.inj hself).2 hfz
    rw [hf] at hpart
    exact hpart
  | _ => trivial

/-! ## Whole conversions -/

section
variable {name : String} {decl : EntityDecl}

theorem matches_of_fromDocument (h : m.Bare) (hd : m.types.find? name = some (.entity decl))
    (hm : m.Maps (.named name)) {d : Document} {x : Datum}
    (hx : (m.fromDocument (.named name) d).result = .ok x) :
    m.Matches 0 (.named name) (.document d) x := by
  have hk : 0 + (m.settings.maxDepth + 1) = m.settings.maxDepth + 1 := Nat.zero_add _
  have hg := readValue_gives h.converters h.regular.documents hk hm (.document d)
  rw [fromDocument_eq_readValue (.inl ⟨decl, hd⟩)] at hx
  rwa [Traced.Gives, hx] at hg

theorem toDocument_of_height_le (h : m.Bare) (hd : m.types.find? name = some (.entity decl))
    (hm : m.Maps (.named name)) {x : Datum} (ht : m.types.HasType x (.named name))
    (hle : m.types.height x ≤ m.settings.maxDepth + 1) :
    ∃ e, m.types.stored x = .document e ∧ (m.toDocument x).result = .ok e := by
  obtain ⟨parts, rfl⟩ := eq_record (.inl ⟨decl, hd⟩) ht
  obtain ⟨e, he, rfl⟩ := (toDocument_fits h hd hm ht).exists_ok hle
  exact ⟨_, by simp only [Catalogue.stored, hd], he⟩

/-- Whether there is room for every default in what is read of a document. -/
def DefaultsFit (m : Mapper) (name : String) (d : Document) : Prop :=
  ∀ l f, m.Fills 0 (.named name) (.document d) l f →
    m.types.height f.default ≤ m.settings.maxDepth - l

/-- Whether every default in what is read of a document is read back as it is. -/
def DefaultsIntact (m : Mapper) (name : String) (d : Document) : Prop :=
  ∀ l f, m.Fills 0 (.named name) (.document d) l f → m.Throughout m.Intact f.default

/-- What was read is stored again exactly if there is room for the defaults in it, and passes the
limit of nesting otherwise. What is stored is then read and stored once more as the same document,
and it is read as the same object exactly if the defaults are. -/
theorem toDocument_fromDocument (h : m.Bare) (hΓ : m.types.DefaultsTyped)
    (hd : m.types.find? name = some (.entity decl)) (hm : m.Maps (.named name)) {d : Document}
    {x : Datum} (hx : (m.fromDocument (.named name) d).result = .ok x) :
    m.Deepest x (m.types.nest x) ∧
    (m.types.nest x ≤ m.settings.maxDepth ↔ m.DefaultsFit name d) ∧
    (m.DefaultsFit name d → ∃ e y, (m.toDocument x).result = .ok e ∧
      (m.fromDocument (.named name) e).result = .ok y ∧ (m.toDocument y).result = .ok e ∧
      (y = x ↔ m.DefaultsIntact name d)) ∧
    (¬ m.DefaultsFit name d → ∃ p, (m.toDocument x).result =
      .error (.structural p (.depthExceeded m.settings.maxDepth))) := by
  have hmatch := matches_of_fromDocument h hd hm hx
  have ht := hmatch.hasType hΓ
  obtain ⟨parts, rfl⟩ := eq_record (.inl ⟨decl, hd⟩) ht
  have hdeep : m.Deepest (.record name parts) (m.types.nest (.record name parts)) :=
    deepest_nest h hd
  have hheight : m.types.height (.record name parts) =
      m.types.nest (.record name parts) + 1 := by
    simp [Catalogue.nest, Catalogue.height, hd]
  have hfit : m.types.nest (.record name parts) ≤ m.settings.maxDepth ↔ m.DefaultsFit name d := by
    have hroom := (hereditary_height m).iff_fills hmatch
    simp only [Nat.add_sub_add_right, Nat.sub_zero, hheight, Nat.add_le_add_iff_right] at hroom
    exact hroom
  refine ⟨hdeep, hfit, fun hf => ?_, fun hf => ?_⟩
  · have hle : m.types.height (.record name parts) ≤ m.settings.maxDepth + 1 := by
      rw [hheight]
      exact Nat.succ_le_succ (hfit.2 hf)
    obtain ⟨e, hs, he⟩ := toDocument_of_height_le h hd hm ht hle
    have hback := h.restores hd hm ht he
    -- what is read back is as high and stored as what was read first
    obtain ⟨hs', hheight'⟩ := stored_restored (m := m) (.record name parts)
    have ht' := (matches_of_fromDocument h hd hm hback).hasType hΓ
    have hle' := Nat.le_trans (Nat.le_of_eq hheight') hle
    obtain ⟨e', hse, he'⟩ := toDocument_of_height_le h hd hm ht' hle'
    rw [hs', hs] at hse
    cases hse
    have hintact := (hereditary_intact h).iff_fills hmatch
    exact ⟨e, _, he, hback, he', (restored_eq_self_iff ht).trans hintact⟩
  · have hlt : m.settings.maxDepth + 1 < m.types.height (.record name parts) := by
      rw [hheight]
      exact Nat.succ_lt_succ (Nat.lt_of_not_le fun hle => hf (hfit.1 hle))
    exact (toDocument_fits h hd hm ht).exists_error hlt

end

/-! A room has a lamp, which is there by default and on; whether a lamp is on is not stored, and a
lamp by itself is off. -/

def lampDecl : EntityDecl where
  fields :=
    [⟨"watts", .atom (.integer .u32), some ⟨"watts", "u32", false⟩,
        .atom (.integer (.zero .u32))⟩,
      ⟨"on", .atom .bool, none, .atom (.bool false)⟩]
  keys_nodup := by decide

def lamp (on : Bool) : Datum :=
  .record "Lamp" [.atom (.integer (.zero .u32)), .atom (.bool on)]

def roomDecl : EntityDecl where
  fields := [⟨"lamp", .named "Lamp", some ⟨"lamp", "Lamp", false⟩, lamp true⟩]
  keys_nodup := by decide

def roomTypes : Catalogue := ⟨[("Room", .entity roomDecl), ("Lamp", .entity lampDecl)], .quiet⟩

def roomMapper (limit : Nat) : Mapper := ⟨roomTypes, .extended [], .empty, ⟨limit, true⟩⟩

def room (on : Bool) : Datum := .record "Room" [lamp on]

def roomStored : Document :=
  ⟨[("lamp", .document ⟨[("watts", .uint64 (.zero .u64))]⟩)]⟩

theorem find?_room {name : String} {decl : EntityDecl}
    (hd : roomTypes.find? name = some (.entity decl)) :
    (name = "Room" ∧ decl = roomDecl) ∨ (name = "Lamp" ∧ decl = lampDecl) := by
  by_cases hr : name = "Room"
  · subst hr
    cases hd
    exact .inl ⟨rfl, rfl⟩
  by_cases hl : name = "Lamp"
  · subst hl
    cases hd
    exact .inr ⟨rfl, rfl⟩
  simp [roomTypes, Catalogue.find?, List.lookup_cons, beq_eq_false_iff_ne.2 hr,
    beq_eq_false_iff_ne.2 hl] at hd

theorem maps_room (limit : Nat) : (roomMapper limit).Maps (.named "Room") := by
  refine Maps.of_closed (S := fun t => t ∈ [.named "Room", .named "Lamp", .atom (.integer .u32)])
    ?handles ?seq ?option ?box ?field (by simp)
  case handles =>
    intro t ht
    simp only [List.mem_cons, List.not_mem_nil, or_false] at ht
    rcases ht with rfl | rfl | rfl
    · exact .inl ⟨roomDecl, rfl⟩
    · exact .inl ⟨lampDecl, rfl⟩
    · trivial
  case seq | option | box => simp
  case field =>
    intro name d f _ hd hf hm
    rcases find?_room hd with ⟨rfl, rfl⟩ | ⟨rfl, rfl⟩
    · simp only [roomDecl, List.mem_singleton] at hf
      subst hf
      simp
    · simp only [lampDecl, List.mem_cons, List.not_mem_nil, or_false] at hf
      rcases hf with rfl | rfl <;> simp_all

theorem hasType_lamp (on : Bool) : roomTypes.HasType (lamp on) (.named "Lamp") :=
  .entity (d := lampDecl) rfl
    (.cons (.atom (.integer (.zero .u32))) (.cons (.atom (.bool on)) .nil))

theorem defaultsTyped_room : roomTypes.DefaultsTyped := by
  intro name decl hd f hf
  rcases find?_room hd with ⟨-, rfl⟩ | ⟨-, rfl⟩
  · obtain rfl := List.mem_singleton.1 hf
    exact hasType_lamp _
  · simp only [lampDecl, List.mem_cons, List.not_mem_nil, or_false] at hf
    rcases hf with rfl | rfl
    · exact .atom (.integer (.zero .u32))
    · exact .atom (.bool false)

/-- A room without a lamp in its document is not stored where no nesting is allowed, and its lamp
is read back as off where some is. -/
theorem defaults_not_stored :
    (∀ limit, (roomMapper limit).Bare ∧ (roomMapper limit).Maps (.named "Room")) ∧
      roomTypes.DefaultsTyped ∧
      ((roomMapper 0).fromDocument (.named "Room") .empty).result = .ok (room true) ∧
      ((roomMapper 0).toDocument (room true)).result =
        .error (.structural ["lamp"] (.depthExceeded 0)) ∧
      ((roomMapper 1).fromDocument (.named "Room") .empty).result = .ok (room true) ∧
      ((roomMapper 1).toDocument (room true)).result = .ok roomStored ∧
      ((roomMapper 1).fromDocument (.named "Room") roomStored).result = .ok (room false) ∧
      room false ≠ room true :=
  ⟨fun limit => ⟨⟨rfl, rfl⟩, maps_room limit⟩, defaultsTyped_room, rfl, rfl, rfl, rfl, rfl,
    by decide⟩

theorem toDocument_fromDocument_room :
    (∃ p, ((roomMapper 0).toDocument (room true)).result =
      .error (.structural p (.depthExceeded 0))) ∧
    ∃ e y, ((roomMapper 1).toDocument (room true)).result = .ok e ∧
      ((roomMapper 1).fromDocument (.named "Room") e).result = .ok y ∧
      ((roomMapper 1).toDocument y).result = .ok e ∧
      (y = room true ↔ (roomMapper 1).DefaultsIntact "Room" .empty) := by
  have hnest : roomTypes.nest (room true) = 1 := rfl
  have hread (limit : Nat) : ((roomMapper limit).fromDocument (.named "Room") .empty).result =
      .ok (room true) := rfl
  have hroom (limit : Nat) := toDocument_fromDocument (m := roomMapper limit) ⟨rfl, rfl⟩
    defaultsTyped_room rfl (maps_room limit) (hread limit)
  obtain ⟨-, hzero, -, hdeep⟩ := hroom 0
  obtain ⟨-, hone, hstore, -⟩ := hroom 1
  refine ⟨hdeep fun hf => ?_, hstore (hone.1 (Nat.le_of_eq hnest))⟩
  have hle : roomTypes.nest (room true) ≤ 0 := hzero.2 hf
  rw [hnest] at hle
  cases hle

end Mapper
end ObjectDocument
