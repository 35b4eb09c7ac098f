import ObjectDocument.Proofs.Bare
import ObjectDocument.Proofs.Routing

/-!
# Options and boxes are transparent

An object behind options and boxes is converted and stored as the object itself, and so is whatever
the mapper comes to inside of an object: options and boxes may be put around the parts of entities
and the items of sequences, or taken off, and the same is stored (`Rewraps.storedAlike`). On the way
back boxes are put around what is read, and nothing else changes (`fromDocument_boxes`). An
option answers with a descriptor of its own, and no document is decoded for that.
-/

namespace ObjectDocument

def Ty.boxes : Nat → Ty → Ty
  | 0, t => t
  | n + 1, t => .box (t.boxes n)

def Datum.boxes : Nat → Datum → Datum
  | 0, x => x
  | n + 1, x => .boxed (x.boxes n)

theorem EntityDecl.map_getPart {α : Type} {f : Datum → α} {key : String} {fields : List FieldDecl}
    {xs ys : List Datum} (h : xs.map f = ys.map f) :
    (getPart key fields xs).map f = (getPart key fields ys).map f := by
  induction fields generalizing xs ys with
  | nil => rfl
  | cons g fields ih =>
    match xs, ys, h with
    | [], [], _ => rfl
    | x :: xs, y :: ys, h =>
      simp only [List.map_cons, List.cons.injEq] at h
      simp only [getPart]
      split
      · simp [h.1]
      · exact ih h.2

theorem Traced.bind_ok {α : Type} (x : Traced α) : (x >>= fun a => ok a) = x := by
  obtain ⟨events, result⟩ := x
  cases result <;> simp [Bind.bind, bind, ok]

namespace Mapper
variable {m : Mapper} {stage : Stage}

/-! ## One position -/

theorem encodeForm_congr [m.Coherent stage] {x y : Datum}
    {items items' : Unit → Traced (List Value)}
    (hnull : m.types.isNull x = m.types.isNull y) (htype : m.types.typeOf x = m.types.typeOf y)
    (hvalue : m.types.toValue x = m.types.toValue y) (hview : m.types.view x = m.types.view y)
    (hencode : stage.encode x = stage.encode y) (hitems : items () = items' ()) :
    m.encodeForm stage x items = m.encodeForm stage y items' := by
  have hform : m.form x = m.form y := by simp only [form, hnull, htype, hvalue, hview]
  cases hy : m.form y
  case nested => rw [encodeForm_nested hy, encodeForm_nested (hform.trans hy), hencode]
  all_goals simp only [encodeForm, hform, hy, htype, hitems]

theorem encodeItems_congr {xs ys : List Datum}
    (h : xs.map (m.encodeValue stage) = ys.map (m.encodeValue stage)) (i : Nat) :
    m.encodeItems stage i xs = m.encodeItems stage i ys := by
  induction xs generalizing i ys with
  | nil =>
    cases ys with
    | nil => rfl
    | cons y ys => cases h
  | cons x xs ih =>
    cases ys with
    | nil => cases h
    | cons y ys =>
      simp only [List.map_cons, List.cons.injEq] at h
      simp only [encodeItems, h.1, ih h.2]

theorem encode_entity_congr {name : String} {decl : EntityDecl}
    (hd : m.types.find? name = some (.entity decl)) (hc : m.hasConverter (.named name) = false)
    {xs ys : List Datum} (h : xs.map (m.encodeValue stage) = ys.map (m.encodeValue stage)) :
    m.encode (some stage) (.record name xs) = m.encode (some stage) (.record name ys) := by
  have hnone := find?_of_hasConverter hc
  have hfield : m.encodeField stage (.record name xs) = m.encodeField stage (.record name ys) := by
    funext d spec
    have hpart := @EntityDecl.map_getPart _ _ spec.name decl.fields xs ys h
    simp only [encodeField, Catalogue.getField, Catalogue.typeOf, Datum.ty, hd]
    cases hx : EntityDecl.getPart spec.name decl.fields xs <;>
      cases hy : EntityDecl.getPart spec.name decl.fields ys <;> simp_all
  simp only [encode, encodeEntity, Catalogue.typeOf, Datum.ty, hnone, Catalogue.view, hd,
    Catalogue.fields, hfield]

/-! ## Whole objects -/

/-- Whether two objects are seen and stored alike: whole at any depth, and in a field or a sequence
of an entity at any depth. -/
structure StoredAlike (m : Mapper) (x y : Datum) : Prop where
  isNull : m.types.isNull x = m.types.isNull y
  typeOf : m.types.typeOf x = m.types.typeOf y
  toValue : m.types.toValue x = m.types.toValue y
  view : m.types.view x = m.types.view y
  document : x.present.asDocument? = y.present.asDocument?
  encode : ∀ room, (m.stage room).encode x.present = (m.stage room).encode y.present
  encodeValue : ∀ room, m.encodeValue (m.stage room) x = m.encodeValue (m.stage room) y

namespace StoredAlike
variable {x y z : Datum}

theorem refl (x : Datum) : m.StoredAlike x x :=
  ⟨rfl, rfl, rfl, rfl, rfl, fun _ => rfl, fun _ => rfl⟩

theorem symm (h : m.StoredAlike x y) : m.StoredAlike y x :=
  ⟨h.isNull.symm, h.typeOf.symm, h.toValue.symm, h.view.symm, h.document.symm,
    fun room => (h.encode room).symm, fun room => (h.encodeValue room).symm⟩

theorem trans (h : m.StoredAlike x y) (h' : m.StoredAlike y z) : m.StoredAlike x z :=
  ⟨h.isNull.trans h'.isNull, h.typeOf.trans h'.typeOf, h.toValue.trans h'.toValue,
    h.view.trans h'.view, h.document.trans h'.document,
    fun room => (h.encode room).trans (h'.encode room),
    fun room => (h.encodeValue room).trans (h'.encodeValue room)⟩

theorem present (x : Datum) : m.StoredAlike x x.present where
  isNull := (m.types.isNull_present x).symm
  typeOf := (m.types.typeOf_present x).symm
  toValue := (m.types.toValue_present x).symm
  view := (m.types.view_present x).symm
  document := by rw [Datum.present_present]
  encode room := by rw [Datum.present_present]
  encodeValue room := by
    rw [encodeValue_eq_encodeForm, encodeValue_eq_encodeForm, Datum.present_present]

theorem map_append (h : m.StoredAlike x y) (before after : List Datum) (room : Nat) :
    (before ++ x :: after).map (m.encodeValue (m.stage room)) =
      (before ++ y :: after).map (m.encodeValue (m.stage room)) := by
  simp [h.encodeValue room]

theorem item {t : Ty} (hc : m.hasConverter (.seq t) = false) (h : m.StoredAlike x y)
    (before after : List Datum) :
    m.StoredAlike (.seq t (before ++ x :: after)) (.seq t (before ++ y :: after)) := by
  have hnone := find?_of_hasConverter hc
  -- without a converter there is no document for a sequence
  have hencode (room : Nat) : (m.stage room).encode (.seq t (before ++ x :: after)) =
      (m.stage room).encode (.seq t (before ++ y :: after)) := by
    cases room <;>
      simp only [stage, Mapper.encode, Catalogue.typeOf, Datum.ty, hnone, Catalogue.view]
  refine ⟨rfl, rfl, rfl, rfl, rfl, hencode, fun room => ?_⟩
  rw [Mapper.encodeValue, Mapper.encodeValue]
  exact encodeForm_congr rfl rfl rfl rfl (hencode room)
    (encodeItems_congr (h.map_append before after room) 0)

theorem part {name : String} {decl : EntityDecl} (hd : m.types.find? name = some (.entity decl))
    (hc : m.hasConverter (.named name) = false) (h : m.StoredAlike x y)
    (before after : List Datum) :
    m.StoredAlike (.record name (before ++ x :: after)) (.record name (before ++ y :: after)) := by
  have hnone := find?_of_hasConverter hc
  have hencode (room : Nat) : (m.stage room).encode (.record name (before ++ x :: after)) =
      (m.stage room).encode (.record name (before ++ y :: after)) := by
    cases room with
    | zero =>
      simp only [stage, Mapper.encode, encodeEntity, Catalogue.typeOf, Datum.ty, hnone,
        Catalogue.view, hd]
    | succ room => exact encode_entity_congr hd hc (h.map_append before after room)
  have hnull : m.types.isNull (.record name (before ++ x :: after)) =
      m.types.isNull (.record name (before ++ y :: after)) := by simp only [Catalogue.isNull, hd]
  have hvalue : m.types.toValue (.record name (before ++ x :: after)) =
      m.types.toValue (.record name (before ++ y :: after)) := by simp only [Catalogue.toValue, hd]
  have hview : m.types.view (.record name (before ++ x :: after)) =
      m.types.view (.record name (before ++ y :: after)) := by simp only [Catalogue.view, hd]
  refine ⟨hnull, rfl, hvalue, hview, rfl, hencode, fun room => ?_⟩
  rw [Mapper.encodeValue, Mapper.encodeValue]
  exact encodeForm_congr hnull rfl hvalue hview (hencode room)
    (encodeItems_congr (h.map_append before after room) 0)

theorem convertAt (h : m.StoredAlike x y) (room : Nat) (target : Descriptor) :
    m.convertAt (m.stage room) (some x) target = m.convertAt (m.stage room) (some y) target ∨
      ∃ events, m.convertAt (m.stage room) (some x) target = ⟨events, .ok (.unchanged x.present)⟩ ∧
        m.convertAt (m.stage room) (some y) target = ⟨events, .ok (.unchanged y.present)⟩ := by
  have hnull : m.types.isNull x.present = m.types.isNull y.present := by simpa using h.isNull
  have htype : m.types.typeOf x.present = m.types.typeOf y.present := by simpa using h.typeOf
  have hroute : m.route (some x.present) target = m.route (some y.present) target := by
    simp only [route, hnull, htype, h.document]
  simp only [Mapper.convertAt, Option.map_some, hroute]
  cases hr : m.route (some y.present) target with
  | passThrough | identity | assignable => exact .inr ⟨_, rfl, rfl⟩
  | absent => exact .inl rfl
  | encode => simp [h.encode room]
  | decode => simp [h.document, htype]
  | incompatible => simp [htype]

theorem run_toDocument (h : m.StoredAlike x y) (room : Nat) :
    (m.types.toDocument x).run (m.convertAt (m.stage room)) =
      (m.types.toDocument y).run (m.convertAt (m.stage room)) := by
  simp only [Catalogue.toDocument, Dialogue.run, h.typeOf]
  rcases h.convertAt room (m.types.descriptor .document) with he | ⟨events, hx, hy⟩
  · rw [he]
  · simp only [hx, hy, Outcome.document?, h.document]

end StoredAlike

/-! ## Positions inside of objects -/

/-- Two objects that differ only in the options and boxes around themselves and around what is
stored of them. A converter may look at more than what is stored, so there is none on the way. -/
inductive Rewraps (m : Mapper) : Datum → Datum → Prop where
  | some (x : Datum) : Rewraps m (.some x) x
  | boxed (x : Datum) : Rewraps m (.boxed x) x
  | item {t : Ty} {x y : Datum} (before after : List Datum) : m.hasConverter (.seq t) = false →
      Rewraps m x y → Rewraps m (.seq t (before ++ x :: after)) (.seq t (before ++ y :: after))
  | part {name : String} {decl : EntityDecl} {x y : Datum} (before after : List Datum) :
      m.types.find? name = Option.some (.entity decl) → m.hasConverter (.named name) = false →
      Rewraps m x y →
      Rewraps m (.record name (before ++ x :: after)) (.record name (before ++ y :: after))
  | refl (x : Datum) : Rewraps m x x
  | symm {x y : Datum} : Rewraps m x y → Rewraps m y x
  | trans {x y z : Datum} : Rewraps m x y → Rewraps m y z → Rewraps m x z

namespace Rewraps

theorem present (x : Datum) : m.Rewraps x x.present := by
  induction x using Datum.present.induct with
  | case1 inner ih => exact .trans (.some inner) ih
  | case2 inner ih => exact .trans (.boxed inner) ih
  | case3 x h1 h2 =>
    rw [Datum.present_eq_self h1 h2]
    exact .refl x

theorem storedAlike {x y : Datum} (h : m.Rewraps x y) : m.StoredAlike x y := by
  induction h with
  | some x => exact (StoredAlike.present (.some x)).trans (StoredAlike.present x).symm
  | boxed x => exact (StoredAlike.present (.boxed x)).trans (StoredAlike.present x).symm
  | item before after hc _ ih => exact ih.item hc before after
  | part before after hd hc _ ih => exact ih.part hd hc before after
  | refl x => exact .refl x
  | symm _ ih => exact ih.symm
  | trans _ _ ih ih' => exact ih.trans ih'

end Rewraps

/-! ## The way back -/

theorem run_fromDocument_box (convert : Convert) (t : Ty) (d : Document) :
    (m.types.fromDocument (.box t) d).run convert =
      (m.types.fromDocument t d).run convert >>= fun x => .ok (.boxed x) := by
  simp only [Catalogue.fromDocument, Dialogue.run, Catalogue.descriptor]
  cases (convert (some (.document d)) (m.types.descriptor t)).result with
  | error e => rfl
  | ok outcome =>
    cases outcome with
    | decoded x =>
      simp only [Catalogue.receive, Dialogue.run]
      cases m.types.receive t x <;> simp [Except.map, Bind.bind, Traced.bind, Traced.ok]
    | _ => rfl

theorem fromDocument_boxes (n : Nat) (t : Ty) (d : Document) :
    m.fromDocument (t.boxes n) d = m.fromDocument t d >>= fun x => .ok (x.boxes n) := by
  induction n with
  | zero => exact (Traced.bind_ok _).symm
  | succ n ih =>
    have hbox : m.fromDocument (.box (t.boxes n)) d =
        m.fromDocument (t.boxes n) d >>= fun x => .ok (.boxed x) := run_fromDocument_box _ _ _
    rw [Ty.boxes, hbox, ih, Traced.bind_assoc]
    rfl

/-- Options and boxes are transparent. Whatever is behind them is seen, converted and stored as it
would be by itself, at every depth, as a whole and at every position of entities and sequences; what
is read for a type in boxes is what is read for the type, in boxes. -/
theorem wrappers_transparent (m : Mapper) :
    (∀ x, m.StoredAlike x x.present ∧ ∀ depth,
      (∀ target, m.scope depth (some x) target = m.scope depth (some x.present) target) ∧
        (m.types.toDocument x).run (m.scope depth) =
          (m.types.toDocument x.present).run (m.scope depth)) ∧
    (∀ x y, m.Rewraps x y → m.StoredAlike x y ∧ ∀ depth,
      (m.types.toDocument x).run (m.scope depth) = (m.types.toDocument y).run (m.scope depth)) ∧
    ∀ n t d, m.fromDocument (t.boxes n) d =
      m.fromDocument t d >>= fun x => .ok (x.boxes n) := by
  refine ⟨fun x => ⟨.present x, fun depth => ⟨fun target => ?_, ?_⟩⟩, fun x y h => ?_,
    fromDocument_boxes⟩
  · exact (convertAt_present x).symm
  · exact (StoredAlike.present x).run_toDocument _
  · exact ⟨h.storedAlike, fun depth => h.storedAlike.run_toDocument _⟩

def emptyFolder : Datum :=
  folder (.zero .u32) (.none (.box (.option (.atom .text)))) [] (.zero .i64)

def outerFolder (note inner : Datum) : Datum := folder (.zero .u32) note [inner] (.zero .i64)

theorem rewraps_outerFolder :
    folderMapper.Rewraps (outerFolder (.none (.atom .text)) (.boxed (.some (.boxed emptyFolder))))
      (outerFolder (.some (.boxed (.none (.atom .text)))) emptyFolder) := by
  have hinner : folderMapper.Rewraps (.boxed (.some (.boxed emptyFolder))) emptyFolder := .present _
  have hitems : folderMapper.Rewraps (.seq (.named "Folder") [.boxed (.some (.boxed emptyFolder))])
      (.seq (.named "Folder") [emptyFolder]) := .item [] [] rfl hinner
  have hnote : folderMapper.Rewraps (.none (.atom .text)) (.some (.boxed (.none (.atom .text)))) :=
    .symm (.present _)
  exact .trans
    (.part [.atom (.integer (.zero .u32)), .none (.atom .text)] [.atom (.integer (.zero .i64))]
      rfl rfl hitems)
    (.part [.atom (.integer (.zero .u32))]
      [.seq (.named "Folder") [emptyFolder], .atom (.integer (.zero .i64))] rfl rfl hnote)

theorem wrappers_transparent_folder :
    folderMapper.Rewraps (outerFolder (.none (.atom .text)) (.boxed (.some (.boxed emptyFolder))))
        (outerFolder (.some (.boxed (.none (.atom .text)))) emptyFolder) ∧
      ∃ d, (folderMapper.toDocument
            (outerFolder (.some (.boxed (.none (.atom .text)))) emptyFolder)).result = .ok d ∧
          (folderMapper.toDocument
            (outerFolder (.none (.atom .text)) (.boxed (.some (.boxed emptyFolder))))).result =
            .ok d := by
  have halike := (wrappers_transparent folderMapper).2.1 _ _ rewraps_outerFolder
  exact ⟨rewraps_outerFolder, _, rfl, congrArg Traced.result (halike.2 0)⟩

/-! ## Types with options and boxes -/

end Mapper

inductive Ty.Wraps (u : Ty) : Ty → Prop where
  | refl : Wraps u u
  | option {t : Ty} : Wraps u t → Wraps u (.option t)
  | box {t : Ty} : Wraps u t → Wraps u (.box t)

theorem Ty.Wraps.boxes {u t : Ty} (h : u.Wraps t) :
    (∃ n, t = u.boxes n) ∨ ∃ n w, t = (Ty.option w).boxes n := by
  induction h with
  | refl => exact .inl ⟨0, rfl⟩
  | @option t _ _ => exact .inr ⟨0, t, rfl⟩
  | box _ ih =>
    rcases ih with ⟨n, rfl⟩ | ⟨n, w, rfl⟩
    · exact .inl ⟨n + 1, rfl⟩
    · exact .inr ⟨n + 1, w, rfl⟩

namespace Catalogue
variable {Γ : Catalogue}

theorem HasType.present {x : Datum} {u t : Ty} (h : Γ.HasType x t) (hw : u.Wraps t)
    (hu : ∀ y, Γ.HasType y u → y.present = y) (hn : Γ.isNull x = false) :
    Γ.HasType x.present u := by
  induction hw generalizing x with
  | refl => rwa [hu x h]
  | option _ ih =>
    cases h with
    | none => cases hn
    | some hi =>
      rw [Datum.present]
      exact ih hi hn
  | box _ ih =>
    cases h with
    | boxed hi =>
      rw [Datum.present]
      exact ih hi hn

end Catalogue

namespace Mapper

variable {m : Mapper}

end Mapper

end ObjectDocument
