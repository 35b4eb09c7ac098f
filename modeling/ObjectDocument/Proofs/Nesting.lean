import ObjectDocument.Proofs.Bare

/-!
# How deep objects are nested

The height of an object is the number of entities that are stored in it one inside the other. A
mapper without converters stores and reads an object exactly if its height is no greater than the
number of levels that are left (`encodeValue_fits`, `readValue_fits`), and passes the limit
otherwise. What is stored does not depend on the levels.
-/

namespace ObjectDocument

namespace Catalogue
variable (Γ : Catalogue)

mutual

/-- How many entities are stored in an object one inside the other. -/
def height : Datum → Nat
  | .seq _ items => heightItems items
  | .some inner => height inner
  | .boxed inner => height inner
  | .record name parts =>
    match Γ.find? name with
    | some (.entity d) => heightParts d.fields parts + 1
    | _ => 0
  | _ => 0

def heightItems : List Datum → Nat
  | [] => 0
  | x :: items => max (height x) (heightItems items)

def heightParts : List FieldDecl → List Datum → Nat
  | f :: fields, x :: parts =>
    if f.mapping.isSome then max (height x) (heightParts fields parts) else heightParts fields parts
  | _, _ => 0

end

def nest (x : Datum) : Nat := Γ.height x - 1

variable {Γ}

theorem height_of_isNull {x : Datum} (h : Γ.isNull x = true) : Γ.height x = 0 := by
  induction x using Datum.present.induct with
  | case1 inner ih => exact ih h
  | case2 inner ih => exact ih h
  | case3 x h1 h2 =>
    cases x with
    | some inner => exact absurd rfl (h1 inner)
    | boxed inner => exact absurd rfl (h2 inner)
    | record name parts =>
      simp only [isNull] at h
      split at h
      next hd => simp [height, hd]
      next => cases h
    | seq => cases h
    | _ => rfl

theorem height_le_heightItems {items : List Datum} {x : Datum} (h : x ∈ items) :
    Γ.height x ≤ Γ.heightItems items := by
  induction items with
  | nil => cases h
  | cons y items ih =>
    rw [heightItems]
    rcases List.mem_cons.1 h with rfl | h
    · exact Nat.le_max_left _ _
    · exact Nat.le_trans (ih h) (Nat.le_max_right _ _)

theorem height_le_heightParts {fields : List FieldDecl} {parts : List Datum} {f : FieldDecl}
    {x : Datum} (h : (f, x) ∈ fields.zip parts) (hf : f.mapping.isSome) :
    Γ.height x ≤ Γ.heightParts fields parts := by
  induction fields generalizing parts with
  | nil => simp at h
  | cons g fields ih =>
    cases parts with
    | nil => simp at h
    | cons y parts =>
      rw [heightParts]
      rcases List.mem_cons.1 h with he | h
      · cases he
        rw [if_pos hf]
        exact Nat.le_max_left _ _
      · have hle := ih h
        split <;> omega

theorem heightItems_le_iff {items : List Datum} {n : Nat} :
    Γ.heightItems items ≤ n ↔ ∀ x ∈ items, Γ.height x ≤ n := by
  induction items with
  | nil => simp [heightItems]
  | cons x items ih => rw [heightItems, Nat.max_le, ih, List.forall_mem_cons]

theorem heightParts_le_iff {fields : List FieldDecl} {parts : List Datum} {n : Nat} :
    Γ.heightParts fields parts ≤ n ↔
      ∀ f x, (f, x) ∈ fields.zip parts → f.mapping.isSome → Γ.height x ≤ n := by
  refine ⟨fun h f x hx hf => Nat.le_trans (height_le_heightParts hx hf) h, fun h => ?_⟩
  induction fields generalizing parts with
  | nil => simp [heightParts]
  | cons f fields ih =>
    cases parts with
    | nil => simp [heightParts]
    | cons x parts =>
      have hrest := ih fun g y hy => h g y (List.mem_cons_of_mem _ hy)
      rw [heightParts]
      split
      next hf => exact Nat.max_le.2 ⟨h f x List.mem_cons_self hf, hrest⟩
      next => exact hrest

end Catalogue

def Failure.PassesLimit (limit : Nat) (e : Failure) : Prop :=
  ∃ p, e = .structural p (.depthExceeded limit)

namespace Traced
variable {α β : Type}

/-- Whether a computation that needs so many levels succeeds where there is room for them, with
something of a kind, and passes the limit where there is not. -/
def Fits (limit room needed : Nat) (P : α → Prop) (x : Traced α) : Prop :=
  x.Gives (fun a => needed ≤ room ∧ P a) fun e => room < needed ∧ e.PassesLimit limit

namespace Fits
variable {limit room n k : Nat} {P : α → Prop} {Q : β → Prop} {x : Traced α}

theorem ok {a : α} (h : P a) : (ok a).Fits limit room 0 P := ⟨Nat.zero_le _, h⟩

theorem bind {f : α → Traced β} (h : x.Fits limit room n P)
    (hf : ∀ a, P a → (f a).Fits limit room k Q) : (x >>= f).Fits limit room (max n k) Q := by
  have hx : x.Gives (fun a => n ≤ room ∧ P a) fun e => room < max n k ∧ e.PassesLimit limit :=
    Gives.imp h (fun _ ha => ha) fun _ he => ⟨by omega, he.2⟩
  refine hx.bind fun a ⟨hn, ha⟩ => Gives.imp (hf a ha) ?_ ?_
  · rintro b ⟨hk, hb⟩
    exact ⟨by omega, hb⟩
  · rintro e ⟨hk, he⟩
    exact ⟨by omega, he⟩

theorem imp {R : α → Prop} (h : x.Fits limit room n P) (hr : ∀ a, P a → R a) :
    x.Fits limit room n R :=
  Gives.imp h (fun a ha => ⟨ha.1, hr a ha.2⟩) fun _ he => he

theorem map {f : α → β} (h : x.Fits limit room n P) (hf : ∀ a, P a → Q (f a)) :
    (x >>= fun a => .ok (f a)).Fits limit room n Q := by
  have hb := h.bind (k := 0) fun a ha => Fits.ok (hf a ha)
  rwa [Nat.max_zero] at hb

theorem under {segment : String} (h : x.Fits limit room n P) :
    (x.under segment).Fits limit room n P := by
  refine Gives.under h ?_
  rintro e ⟨hn, p, rfl⟩
  exact ⟨hn, segment :: p, rfl⟩

theorem succ (h : x.Fits limit room n P) : x.Fits limit (room + 1) (n + 1) P := by
  refine Gives.imp h ?_ ?_
  · rintro a ⟨hn, ha⟩
    exact ⟨by omega, ha⟩
  · rintro e ⟨hn, he⟩
    exact ⟨by omega, he⟩

theorem of_map {f : α → β} (h : (x >>= fun a => .ok (f a)).Fits limit room n Q) :
    x.Fits limit room n fun a => Q (f a) := by
  obtain ⟨events, result⟩ := x
  cases result <;> exact h

theorem exists_ok (h : x.Fits limit room n P) (hn : n ≤ room) : ∃ a, x.result = .ok a ∧ P a := by
  obtain ⟨events, result⟩ := x
  cases result with
  | ok a => exact ⟨a, rfl, h.2⟩
  | error e => exact absurd h.1 (Nat.not_lt.2 hn)

theorem exists_error (h : x.Fits limit room n P) (hn : room < n) :
    ∃ p, x.result = .error (.structural p (.depthExceeded limit)) := by
  obtain ⟨events, result⟩ := x
  cases result with
  | ok a => exact absurd h.1 (Nat.not_le.2 hn)
  | error e =>
    obtain ⟨-, p, rfl⟩ := h
    exact ⟨p, rfl⟩

theorem of_result_eq {y : Traced α} (h : x.Fits limit room n P) (he : y.result = x.result) :
    y.Fits limit room n P := by
  rw [Fits, Gives, he]
  exact h

end Fits

end Traced

namespace Mapper
variable {m : Mapper}

/-! ## What is stored, and where -/

mutual

theorem encodeValue_fits (h : m.Bare) (room : Nat) {x : Datum} {t : Ty} (ht : m.types.HasType x t)
    (hm : m.Maps t) :
    (m.encodeValue (m.stage room) x).Fits m.settings.maxDepth room (m.types.height x)
      (· = m.types.stored x) := by
  match x, ht with
  | .unit, .unit => exact hm.handles.elim
  | .atom a, .atom _ =>
    rw [h.regular.encodeValue_atom]
    exact .ok rfl
  | .document d, .document _ =>
    rw [h.encodeValue_document]
    exact .ok rfl
  | .seq t items, .seq hi =>
    have hitems := encodeItems_fits h room 0 hi hm.seq
    rw [h.encodeValue_seq, Catalogue.height, Catalogue.stored]
    refine hitems.map ?_
    rintro vs rfl
    rfl
  | .none t, .none _ =>
    rw [encodeValue_isNull rfl]
    exact .ok rfl
  | .some inner, .some hi =>
    rw [encodeValue_some, Catalogue.height, Catalogue.stored]
    exact encodeValue_fits h room hi hm.option
  | .boxed inner, .boxed hi =>
    rw [encodeValue_boxed, Catalogue.height, Catalogue.stored]
    exact encodeValue_fits h room hi hm.box
  | .variant name variant, .variant hd hv =>
    rw [h.encodeValue_variant hd hv]
    exact .ok rfl
  | .record name parts, ht' =>
    obtain rfl : t = .named name := ht'.ty_eq.symm
    obtain ⟨decl, hd⟩ := h.handles_record ht' hm
    simp only [h.encodeValue_entity hd, Catalogue.height, Catalogue.stored, hd]
    cases room with
    | zero =>
      have hdeep : (m.stage 0).encode (.record name parts) = m.tooDeep := h.encode_none hd parts
      rw [hdeep]
      exact ⟨Nat.succ_pos _, [], rfl⟩
    | succ room =>
      have hparts := ht'.parts hd
      have hstore := storeParts_fits h room hparts fun f hf hs =>
        hm.field hd (h.hasConverter _) hf hs
      have hstage : (m.stage (room + 1)).encode (.record name parts) =
          m.storeParts (m.stage room) decl.fields parts >>= fun entries => .ok ⟨entries⟩ :=
        encode_entity hd (h.find?_eq_none _) hparts.length_eq
      rw [hstage, Traced.bind_assoc]
      simp only [Traced.ok_bind]
      refine hstore.succ.map ?_
      rintro entries rfl
      rfl

theorem encodeItems_fits (h : m.Bare) (room start : Nat) {items : List Datum} {t : Ty}
    (ht : m.types.HasItems t items) (hm : m.Maps t) :
    (m.encodeItems (m.stage room) start items).Fits m.settings.maxDepth room
      (m.types.heightItems items) (· = m.types.storedItems items) := by
  match items, ht with
  | [], _ => exact .ok rfl
  | x :: rest, .cons hx hrest =>
    have hfirst := encodeValue_fits h room hx hm
    have hothers := encodeItems_fits h room (start + 1) hrest hm
    rw [encodeItems, Catalogue.heightItems, Catalogue.storedItems]
    refine hfirst.under.bind ?_
    rintro v rfl
    refine hothers.map ?_
    rintro vs rfl
    rfl

theorem storeParts_fits (h : m.Bare) (room : Nat) {fields : List FieldDecl} {parts : List Datum}
    (ht : m.types.HasParts fields parts) (hm : ∀ f ∈ fields, f.mapping.isSome → m.Maps f.ty) :
    (m.storeParts (m.stage room) fields parts).Fits m.settings.maxDepth room
      (m.types.heightParts fields parts) (· = m.types.storedParts fields parts) := by
  match fields, parts, ht with
  | [], [], _ => exact .ok rfl
  | f :: fields, x :: parts, .cons hx hrest =>
    have hothers := storeParts_fits h room hrest fun g hg => hm g (by simp [hg])
    rw [storeParts, Catalogue.heightParts, Catalogue.storedParts]
    cases hf : f.mapping with
    | none => exact hothers
    | some spec =>
      have hfirst := encodeValue_fits h room hx (hm f (by simp) (by simp [hf]))
      refine hfirst.under.bind ?_
      rintro v rfl
      refine hothers.map ?_
      rintro entries rfl
      rfl

end

/-! ## Reading what was stored -/

theorem isNull_of_stored_null (h : m.Bare) {x : Datum} {t : Ty} (ht : m.types.HasType x t)
    (hm : m.Maps t) (hs : m.types.stored x = .null) : m.types.isNull x = true := by
  induction x using Datum.present.induct generalizing t with
  | case1 inner ih =>
    cases ht with
    | some hi =>
      rw [Catalogue.stored] at hs
      exact ih hi hm.option hs
  | case2 inner ih =>
    cases ht with
    | boxed hi =>
      rw [Catalogue.stored] at hs
      exact ih hi hm.box hs
  | case3 x h1 h2 =>
    cases x with
    | unit => cases ht with | unit => exact hm.handles.elim
    | atom a =>
      rw [Catalogue.stored] at hs
      exact (a.toValue_ne_null hs).elim
    | none => rfl
    | some inner => exact (h1 inner rfl).elim
    | boxed inner => exact (h2 inner rfl).elim
    | variant name variant =>
      cases ht with
      | variant hd hv =>
        obtain ⟨s, hn⟩ := EnumDecl.exists_nameOf? hv
        simp [Catalogue.stored_variant hd hn] at hs
    | record name parts =>
      obtain ⟨decl, hd⟩ := h.handles_record ht hm
      simp [Catalogue.stored, hd] at hs
    | document d => simp [Catalogue.stored] at hs
    | seq t items => simp [Catalogue.stored] at hs

theorem height_of_stored_null (h : m.Bare) {x : Datum} {t : Ty} (ht : m.types.HasType x t)
    (hm : m.Maps t) (hs : m.types.stored x = .null) : m.types.height x = 0 :=
  Catalogue.height_of_isNull (isNull_of_stored_null h ht hm hs)

mutual

theorem readValue_fits (h : m.Bare) (room : Nat) {x : Datum} {t : Ty} (ht : m.types.HasType x t)
    (hm : m.Maps t) :
    (m.readValue (m.stage room) t (m.types.stored x)).Fits m.settings.maxDepth room
      (m.types.height x) fun _ => True := by
  match x, ht with
  | .unit, .unit => exact hm.handles.elim
  | .atom a, .atom _ =>
    rw [Catalogue.stored, readValue_atom, a.ofValue?_toValue]
    exact .ok trivial
  | .document d, .document _ =>
    rw [Catalogue.stored, readValue_document]
    exact .ok trivial
  | .seq t items, .seq hi =>
    have hitems := readItems_fits h room 0 hi hm.seq
    rw [Catalogue.stored, readValue_seq, Catalogue.height]
    exact hitems.map fun _ _ => trivial
  | .none t, .none _ =>
    rw [Catalogue.stored, readValue_option, if_pos rfl]
    exact .ok trivial
  | .some inner, .some hi =>
    have hinner := readValue_fits h room hi hm.option
    rw [Catalogue.stored, readValue_option, Catalogue.height]
    split
    next hs =>
      rw [height_of_stored_null h hi hm.option hs]
      exact .ok trivial
    next => exact hinner.map fun _ _ => trivial
  | .boxed inner, .boxed hi =>
    have hinner := readValue_fits h room hi hm.box
    rw [Catalogue.stored, readValue_box, Catalogue.height]
    exact hinner.map fun _ _ => trivial
  | .variant name variant, .variant hd hv =>
    obtain ⟨s, hs⟩ := EnumDecl.exists_nameOf? hv
    rw [Catalogue.stored_variant hd hs]
    simp only [readValue_enum hd, Value.asName?, EnumDecl.variant?_nameOf? hs]
    exact .ok trivial
  | .record name parts, ht' =>
    obtain rfl : t = .named name := ht'.ty_eq.symm
    obtain ⟨decl, hd⟩ := h.handles_record ht' hm
    simp only [Catalogue.height, Catalogue.stored, hd]
    cases room with
    | zero =>
      rw [Traced.Fits, Traced.Gives, readValue_entity_zero h.regular.documents hd]
      exact ⟨Nat.succ_pos _, [], rfl⟩
    | succ room =>
      have hparts := ht'.parts hd
      have hnodup : (⟨m.types.storedParts decl.fields parts⟩ : Document).keys.Nodup := by
        show ((m.types.storedParts decl.fields parts).map Prod.fst).Nodup
        rw [Catalogue.storedParts_keys hparts.length_eq]
        exact decl.keys_nodup
      have hread := readParts_fits h room name hparts
        (fun f hf hs => hm.field hd (h.hasConverter _) hf hs) fun _ _ => Document.get?_of_mem hnodup
      refine (hread.succ.map (f := Datum.record name) fun _ _ => trivial).of_result_eq ?_
      rw [readValue_entity_succ h.regular.documents hd (h.find?_eq_none _), Traced.bind_result]
      rfl

theorem readItems_fits (h : m.Bare) (room start : Nat) {items : List Datum} {t : Ty}
    (ht : m.types.HasItems t items) (hm : m.Maps t) :
    (m.readItems (m.stage room) t start (m.types.storedItems items)).Fits m.settings.maxDepth room
      (m.types.heightItems items) fun _ => True := by
  match items, ht with
  | [], _ => exact .ok trivial
  | x :: rest, .cons hx hrest =>
    have hfirst := readValue_fits h room hx hm
    have hothers := readItems_fits h room (start + 1) hrest hm
    rw [Catalogue.storedItems, readItems, Catalogue.heightItems]
    exact hfirst.under.bind fun _ _ => hothers.map fun _ _ => trivial

theorem readParts_fits (h : m.Bare) (room : Nat) (name : String) {d : Document}
    {fields : List FieldDecl} {parts : List Datum} (ht : m.types.HasParts fields parts)
    (hm : ∀ f ∈ fields, f.mapping.isSome → m.Maps f.ty)
    (hget : ∀ k v, (k, v) ∈ m.types.storedParts fields parts → d.get? k = some v) :
    (m.readParts (m.stage room) name d fields).Fits m.settings.maxDepth room
      (m.types.heightParts fields parts) fun _ => True := by
  match fields, parts, ht with
  | [], [], _ => exact .ok trivial
  | f :: fields, x :: parts, .cons hx hrest =>
    have hmore := fun g hg => hm g (List.mem_cons_of_mem f hg)
    rw [readParts, readPart, Catalogue.heightParts]
    rw [Catalogue.storedParts] at hget
    cases hf : f.mapping with
    | none =>
      simp only [hf] at hget
      have hothers := readParts_fits h room name hrest hmore hget
      simp only [Traced.ok_bind]
      exact hothers.map fun _ _ => trivial
    | some spec =>
      simp only [hf] at hget
      have hothers := readParts_fits h room name hrest hmore
        fun k v hk => hget k v (List.mem_cons_of_mem _ hk)
      have hfirst := readValue_fits h room hx (hm f (by simp) (by simp [hf]))
      simp only [hget spec.name _ List.mem_cons_self]
      exact hfirst.under.bind fun _ _ => hothers.map fun _ _ => trivial

end

/-! ## The deepest entity -/

/-- `n` is the greatest number of entities above an entity that is stored of an object. -/
def Deepest (m : Mapper) (x : Datum) (n : Nat) : Prop :=
  (∃ p name decl parts, m.types.find? name = some (.entity decl) ∧
    m.Holds x p (.record name parts) ∧ levels p = n) ∧
  ∀ p name decl parts, m.types.find? name = some (.entity decl) →
    m.Holds x p (.record name parts) → levels p ≤ n

theorem Holds.height_le {x y : Datum} {p : List Step} (h : m.Holds x p y) :
    levels p + m.types.height y ≤ m.types.height x := by
  induction h with
  | here x => simp [levels]
  | some _ _ ih => exact ih
  | boxed _ ih => exact ih
  | item hi _ ih =>
    have hle := Catalogue.height_le_heightItems (Γ := m.types) (List.mem_of_getElem? hi)
    simp only [levels, Catalogue.height]
    omega
  | field hd _ hfx hf _ ih =>
    have hle := Catalogue.height_le_heightParts (Γ := m.types) hfx (by simp [hf])
    simp only [levels, Catalogue.height, hd]
    omega

mutual

theorem exists_holds_entity (h : m.Bare) {x : Datum} {n : Nat} (hn : m.types.height x = n + 1) :
    ∃ p name decl parts, m.types.find? name = some (.entity decl) ∧
      m.Holds x p (.record name parts) ∧ levels p = n := by
  match x, hn with
  | .seq t items, hn =>
    rw [Catalogue.height] at hn
    obtain ⟨i, x, hi, p, name, decl, parts, hd, hx, hp⟩ := exists_item_holds_entity h hn
    exact ⟨.index i :: p, name, decl, parts, hd, .item hi hx, hp⟩
  | .some inner, hn =>
    rw [Catalogue.height] at hn
    obtain ⟨p, name, decl, parts, hd, hx, hp⟩ := exists_holds_entity h hn
    cases hnull : m.types.isNull inner with
    | true =>
      rw [Catalogue.height_of_isNull hnull] at hn
      cases hn
    | false => exact ⟨p, name, decl, parts, hd, .some hnull hx, hp⟩
  | .boxed inner, hn =>
    rw [Catalogue.height] at hn
    obtain ⟨p, name, decl, parts, hd, hx, hp⟩ := exists_holds_entity h hn
    exact ⟨p, name, decl, parts, hd, .boxed hx, hp⟩
  | .record name parts, hn =>
    rw [Catalogue.height] at hn
    split at hn
    next decl hd =>
      cases n with
      | zero => exact ⟨[], name, decl, parts, hd, .here _, rfl⟩
      | succ n =>
        obtain ⟨f, spec, x, hfx, hf, p, name', decl', parts', hd', hx, hp⟩ :=
          exists_part_holds_entity h (Nat.succ.inj hn)
        refine ⟨.key spec.name :: p, name', decl', parts', hd', ?_, by simp [levels, hp]⟩
        exact .field hd (h.hasConverter _) hfx hf hx
    next => cases hn
  | .unit, hn | .atom _, hn | .document _, hn | .none _, hn | .variant _ _, hn =>
    cases hn

theorem exists_item_holds_entity (h : m.Bare) {items : List Datum} {n : Nat}
    (hn : m.types.heightItems items = n + 1) :
    ∃ (i : Nat) (x : Datum), items[i]? = some x ∧
      ∃ p name decl parts, m.types.find? name = some (.entity decl) ∧
        m.Holds x p (.record name parts) ∧ levels p = n := by
  match items, hn with
  | [], hn => simp [Catalogue.heightItems] at hn
  | x :: rest, hn =>
    rw [Catalogue.heightItems] at hn
    by_cases hx : m.types.height x = n + 1
    · exact ⟨0, x, rfl, exists_holds_entity h hx⟩
    · have hrest : m.types.heightItems rest = n + 1 := by omega
      obtain ⟨i, y, hi, hy⟩ := exists_item_holds_entity h hrest
      exact ⟨i + 1, y, hi, hy⟩

theorem exists_part_holds_entity (h : m.Bare) {fields : List FieldDecl} {parts : List Datum}
    {n : Nat} (hn : m.types.heightParts fields parts = n + 1) :
    ∃ f spec x, (f, x) ∈ fields.zip parts ∧ f.mapping = some spec ∧
      ∃ p name decl parts, m.types.find? name = some (.entity decl) ∧
        m.Holds x p (.record name parts) ∧ levels p = n := by
  match fields, parts, hn with
  | [], _, hn | _ :: _, [], hn => simp [Catalogue.heightParts] at hn
  | f :: fields, x :: parts, hn =>
    rw [Catalogue.heightParts] at hn
    cases hf : f.mapping with
    | none =>
      simp only [hf, Option.isSome_none, Bool.false_eq_true, if_false] at hn
      obtain ⟨g, spec, y, hgy, hg, hy⟩ := exists_part_holds_entity h hn
      exact ⟨g, spec, y, List.mem_cons_of_mem _ hgy, hg, hy⟩
    | some spec =>
      simp only [hf, Option.isSome_some, if_true] at hn
      by_cases hx : m.types.height x = n + 1
      · exact ⟨f, spec, x, List.mem_cons_self, hf, exists_holds_entity h hx⟩
      · have hrest : m.types.heightParts fields parts = n + 1 := by omega
        obtain ⟨g, spec', y, hgy, hg, hy⟩ := exists_part_holds_entity h hrest
        exact ⟨g, spec', y, List.mem_cons_of_mem _ hgy, hg, hy⟩

end

theorem deepest_nest (h : m.Bare) {name : String} {decl : EntityDecl} {parts : List Datum}
    (hd : m.types.find? name = some (.entity decl)) :
    m.Deepest (.record name parts) (m.types.nest (.record name parts)) := by
  have hheight : m.types.height (.record name parts) =
      m.types.nest (.record name parts) + 1 := by
    simp [Catalogue.nest, Catalogue.height, hd]
  refine ⟨exists_holds_entity h hheight, fun p name' decl' parts' hd' hp => ?_⟩
  have hle := hp.height_le
  have hpos : 1 ≤ m.types.height (.record name' parts') := by simp [Catalogue.height, hd']
  omega

/-! ## Whole conversions -/

section
variable {name : String} {decl : EntityDecl} {parts : List Datum}

theorem toDocument_fits (h : m.Bare) (hd : m.types.find? name = some (.entity decl))
    (hm : m.Maps (.named name)) (ht : m.types.HasType (.record name parts) (.named name)) :
    (m.toDocument (.record name parts)).Fits m.settings.maxDepth (m.settings.maxDepth + 1)
      (m.types.height (.record name parts)) (· = ⟨m.types.storedParts decl.fields parts⟩) := by
  have hv := encodeValue_fits h (m.settings.maxDepth + 1) ht hm
  rw [h.encodeValue_entity hd] at hv
  refine (hv.of_map.imp ?_).of_result_eq (h.run_toDocument hd parts)
  intro d he
  simpa [Catalogue.stored, hd] using he

theorem fromDocument_fits (h : m.Bare) (hd : m.types.find? name = some (.entity decl))
    (hm : m.Maps (.named name)) (ht : m.types.HasType (.record name parts) (.named name)) :
    (m.fromDocument (.named name) ⟨m.types.storedParts decl.fields parts⟩).Fits
      m.settings.maxDepth (m.settings.maxDepth + 1) (m.types.height (.record name parts))
      fun _ => True := by
  have hv := readValue_fits h (m.settings.maxDepth + 1) ht hm
  have hstored : m.types.stored (.record name parts) =
      .document ⟨m.types.storedParts decl.fields parts⟩ := by simp [Catalogue.stored, hd]
  rw [hstored] at hv
  rwa [fromDocument_eq_readValue (.inl ⟨decl, hd⟩)]

end

def limited (m : Mapper) (limit : Nat) : Mapper :=
  { m with settings := { m.settings with maxDepth := limit } }

theorem Bare.limited (h : m.Bare) (limit : Nat) : (m.limited limit).Bare :=
  ⟨h.converters, h.valueTypes⟩

theorem Maps.limited {t : Ty} (h : m.Maps t) (limit : Nat) : (m.limited limit).Maps t := by
  intro u hu
  induction hu with
  | refl t => exact h.handles
  | seq _ ih => exact ih h.seq
  | option _ ih => exact ih h.option
  | box _ ih => exact ih h.box
  | field hd hc hf hm _ ih => exact ih (h.field hd hc hf hm)

/-- The limit of nesting is exact and the same in both directions: an entity is stored, and what is
stored of it is read, exactly if no entity in it is below more entities than the limit allows. What
is stored does not depend on the limit, and a conversion that fails names it. -/
theorem depth_limit_exact (h : m.Bare) {name : String} {decl : EntityDecl}
    (hd : m.types.find? name = some (.entity decl)) (hm : m.Maps (.named name)) {x : Datum}
    (ht : m.types.HasType x (.named name)) :
    m.Deepest x (m.types.nest x) ∧ ∃ d, ∀ limit,
      (m.types.nest x ≤ limit →
        ((m.limited limit).toDocument x).result = .ok d ∧
          ∃ y, ((m.limited limit).fromDocument (.named name) d).result = .ok y) ∧
      (limit < m.types.nest x →
        (∃ p, ((m.limited limit).toDocument x).result =
          .error (.structural p (.depthExceeded limit))) ∧
          ∃ p, ((m.limited limit).fromDocument (.named name) d).result =
            .error (.structural p (.depthExceeded limit))) := by
  obtain ⟨parts, rfl⟩ := eq_record (.inl ⟨decl, hd⟩) ht
  refine ⟨deepest_nest h hd, ⟨m.types.storedParts decl.fields parts⟩, fun limit => ?_⟩
  -- an entity is one level higher than it nests, and one level more is left than the limit says
  have hheight : m.types.height (.record name parts) =
      m.types.nest (.record name parts) + 1 := by
    simp [Catalogue.nest, Catalogue.height, hd]
  have hto := toDocument_fits (h.limited limit) hd (hm.limited limit) ht
  have hfrom := fromDocument_fits (h.limited limit) hd (hm.limited limit) ht
  change Traced.Fits limit (limit + 1) (m.types.height _) _ _ at hto
  change Traced.Fits limit (limit + 1) (m.types.height _) _ _ at hfrom
  rw [hheight] at hto hfrom
  constructor
  · intro hn
    obtain ⟨d, hd, rfl⟩ := hto.exists_ok (Nat.succ_le_succ hn)
    obtain ⟨y, hy, -⟩ := hfrom.exists_ok (Nat.succ_le_succ hn)
    exact ⟨hd, y, hy⟩
  · intro hn
    exact ⟨hto.exists_error (Nat.succ_lt_succ hn), hfrom.exists_error (Nat.succ_lt_succ hn)⟩

def deepFolder : Datum :=
  folder (.zero .u32) (.none (.box (.option (.atom .text)))) [nestedFolder] (.zero .i64)

theorem depth_limit_exact_folder :
    folderMapper.Deepest deepFolder 2 ∧ ∃ d,
      (((folderMapper.limited 2).toDocument deepFolder).result = .ok d ∧
        ∃ y, ((folderMapper.limited 2).fromDocument (.named "Folder") d).result = .ok y) ∧
      (∃ p, ((folderMapper.limited 1).toDocument deepFolder).result =
        .error (.structural p (.depthExceeded 1))) ∧
      ∃ p, ((folderMapper.limited 1).fromDocument (.named "Folder") d).result =
        .error (.structural p (.depthExceeded 1)) := by
  have ht : folderTypes.HasType deepFolder (.named "Folder") :=
    hasType_folder (.none _) (.cons hasType_nestedFolder .nil)
  have hnest : folderTypes.nest deepFolder = 2 := rfl
  obtain ⟨hdeep, d, hlimit⟩ := depth_limit_exact (m := folderMapper) ⟨rfl, rfl⟩ rfl maps_folder ht
  have hfits := (hlimit 2).1 (Nat.le_of_eq hnest)
  have hexceeds := (hlimit 1).2 (Nat.lt_of_lt_of_eq (Nat.lt_succ_self 1) hnest.symm)
  exact ⟨hdeep, d, hfits, hexceeds⟩

end Mapper

end ObjectDocument
