import ObjectDocument.Proofs.Bare
import ObjectDocument.Proofs.Transparency

/-!
# What storing tells apart

Storing sees nothing of skipped fields, and of a null not how deep it is wrapped. Two objects that
differ only so are `Alike`; they are stored as the same, and fail alike (`toDocument_alike`).
Nothing else is lost: the document alone tells what is read back of an object, and only of alike
objects is the same read back (`alike_of_restored_eq`).
-/

namespace ObjectDocument

namespace Catalogue
variable (Γ : Catalogue)

mutual

/-- Two objects that differ only in skipped fields and in how deep a null is wrapped. -/
inductive Alike : Datum → Datum → Prop where
  | null {x y : Datum} : Γ.isNull x = true → Γ.isNull y = true → Alike x y
  | unit : Alike .unit .unit
  | atom (a : Atom) : Alike (.atom a) (.atom a)
  | document (d : Document) : Alike (.document d) (.document d)
  | variant (name variant : String) : Alike (.variant name variant) (.variant name variant)
  | seq (t : Ty) {xs ys : List Datum} : AlikeItems xs ys → Alike (.seq t xs) (.seq t ys)
  | some {x y : Datum} : Alike x y → Alike (.some x) (.some y)
  | boxed {x y : Datum} : Alike x y → Alike (.boxed x) (.boxed y)
  | entity {name : String} {decl : EntityDecl} {xs ys : List Datum} :
      Γ.find? name = some (.entity decl) → AlikeParts decl.fields xs ys →
      Alike (.record name xs) (.record name ys)

inductive AlikeItems : List Datum → List Datum → Prop where
  | nil : AlikeItems [] []
  | cons {x y : Datum} {xs ys : List Datum} :
      Alike x y → AlikeItems xs ys → AlikeItems (x :: xs) (y :: ys)

inductive AlikeParts : List FieldDecl → List Datum → List Datum → Prop where
  | nil : AlikeParts [] [] []
  | skipped {f : FieldDecl} {fields : List FieldDecl} {x y : Datum} {xs ys : List Datum} :
      f.mapping = none → AlikeParts fields xs ys → AlikeParts (f :: fields) (x :: xs) (y :: ys)
  | mapped {f : FieldDecl} {fields : List FieldDecl} {x y : Datum} {xs ys : List Datum} :
      f.mapping.isSome → Alike x y → AlikeParts fields xs ys →
      AlikeParts (f :: fields) (x :: xs) (y :: ys)

end

variable {Γ}

theorem AlikeParts.length_eq {fields : List FieldDecl} {xs ys : List Datum}
    (h : Γ.AlikeParts fields xs ys) :
    xs.length = fields.length ∧ ys.length = fields.length := by
  induction fields generalizing xs ys with
  | nil =>
    cases h
    exact ⟨rfl, rfl⟩
  | cons f fields ih =>
    cases h with
    | skipped _ hrest | mapped _ _ hrest => simp [ih hrest]

end Catalogue

namespace Mapper
variable {m : Mapper}

open Catalogue (Alike AlikeItems AlikeParts)

/-! ## Alike objects are stored as the same -/

def EncodesAlike (m : Mapper) (stage : Stage) : Prop :=
  ∀ name decl xs ys, m.types.find? name = some (.entity decl) →
    m.types.AlikeParts decl.fields xs ys →
    stage.encode (.record name xs) = stage.encode (.record name ys)

section
variable {stage : Stage}

mutual

theorem encodeValue_alike [m.Coherent stage] (h : m.Bare) (hs : m.EncodesAlike stage)
    {x y : Datum} :
    m.types.Alike x y → m.encodeValue stage x = m.encodeValue stage y
  | .null hx hy => by rw [encodeValue_isNull hx, encodeValue_isNull hy]
  | .unit | .atom _ | .document _ | .variant _ _ => rfl
  | .seq t hi => by
    rw [h.encodeValue_seq, h.encodeValue_seq, encodeItems_congr (map_encodeValue_alike h hs hi)]
  | .some hi => by
    rw [encodeValue_some, encodeValue_some]
    exact encodeValue_alike h hs hi
  | .boxed hi => by
    rw [encodeValue_boxed, encodeValue_boxed]
    exact encodeValue_alike h hs hi
  | .entity hd hp => by
    rw [h.encodeValue_entity hd, h.encodeValue_entity hd, hs _ _ _ _ hd hp]

theorem map_encodeValue_alike [m.Coherent stage] (h : m.Bare) (hs : m.EncodesAlike stage)
    {xs ys : List Datum} :
    m.types.AlikeItems xs ys → xs.map (m.encodeValue stage) = ys.map (m.encodeValue stage)
  | .nil => rfl
  | .cons hx hrest => by
    rw [List.map_cons, List.map_cons, encodeValue_alike h hs hx, map_encodeValue_alike h hs hrest]

end

theorem storeParts_alike [m.Coherent stage] (h : m.Bare) (hs : m.EncodesAlike stage)
    {fields : List FieldDecl}
    {xs ys : List Datum} (hp : m.types.AlikeParts fields xs ys) :
    m.storeParts stage fields xs = m.storeParts stage fields ys := by
  induction fields generalizing xs ys with
  | nil =>
    cases hp
    rfl
  | cons f fields ih =>
    cases hp with
    | skipped hf hrest => simp only [storeParts, hf, ih hrest]
    | mapped _ hx hrest => simp only [storeParts, encodeValue_alike h hs hx, ih hrest]

end

theorem stage_encodesAlike (h : m.Bare) (room : Nat) : m.EncodesAlike (m.stage room) := by
  intro name decl xs ys hd hp
  induction room generalizing name decl xs ys with
  | zero => simp only [stage, h.encode_none hd]
  | succ room ih =>
    obtain ⟨hx, hy⟩ := hp.length_eq
    have hnone := h.find?_eq_none
    simp only [stage, encode_entity hd (hnone _) hx, encode_entity hd (hnone _) hy,
      storeParts_alike h ih hp]

theorem toDocument_alike (h : m.Bare) {name : String} {decl : EntityDecl}
    (hd : m.types.find? name = some (.entity decl)) {xs ys : List Datum}
    (hp : m.types.AlikeParts decl.fields xs ys) :
    m.toDocument (.record name xs) = m.toDocument (.record name ys) := by
  have hroute (parts : List Datum) :
      m.route (some (.record name parts)) (m.types.descriptor .document) = .encode := by
    have hnull : m.types.isNull (.record name parts) = false := by simp [Catalogue.isNull, hd]
    simp only [route, hnull, Catalogue.typeOf, Datum.ty, h.covers_entity hd]
    rfl
  have hencode := stage_encodesAlike h (m.settings.maxDepth + 1) name decl xs ys hd hp
  simp only [toDocument, Catalogue.toDocument, Dialogue.run, convert, scope, Nat.sub_zero,
    convertAt, Option.map_some, Datum.present, hroute, hencode, Catalogue.typeOf, Datum.ty]

/-! ## Only alike objects are read back as the same -/

theorem restored_entity (h : m.Bare) {name : String} {decl : EntityDecl}
    (hd : m.types.find? name = some (.entity decl)) (parts : List Datum) :
    m.restored (.record name parts) = .record name (m.restoredParts decl.fields parts) := by
  simp [restored, h.hasConverter, hd]

mutual

theorem alike_of_restored_eq (h : m.Bare) {x y : Datum} {t : Ty} (hx : m.types.HasType x t)
    (hy : m.types.HasType y t) (hm : m.Maps t) (he : m.restored x = m.restored y) :
    m.types.Alike x y := by
  match x, hx with
  | .unit, .unit => exact hm.handles.elim
  | .atom a, .atom _ =>
    have hty := hy.ty_eq
    cases y with
    | atom b =>
      cases he
      exact .atom a
    | _ => simp [Datum.ty] at hty
  | .document d, .document _ =>
    cases hy
    cases he
    exact .document d
  | .seq t items, .seq hi =>
    cases hy with
    | seq hi' =>
      simp only [restored, Datum.seq.injEq, true_and] at he
      exact .seq t (alikeItems_of_restored_eq h hi hi' hm.seq he)
  | .none t, .none _ =>
    cases hy with
    | none => exact .null rfl rfl
    | @some _ inner hi' =>
      -- nothing is read back as none but what is null
      cases hn : m.types.isNull inner with
      | true => exact .null rfl hn
      | false => simp [restored, hn] at he
  | .some inner, .some hi =>
    cases hy with
    | none =>
      cases hn : m.types.isNull inner with
      | true => exact .null hn rfl
      | false => simp [restored, hn] at he
    | @some _ inner' hi' =>
      cases hn : m.types.isNull inner <;> cases hn' : m.types.isNull inner' <;>
        simp only [restored, hn, hn', if_true, Bool.false_eq_true, if_false, reduceCtorEq,
          Datum.some.injEq] at he
      · exact .some (alike_of_restored_eq h hi hi' hm.option he)
      · exact .null hn hn'
  | .boxed inner, .boxed hi =>
    cases hy with
    | boxed hi' =>
      simp only [restored, Datum.boxed.injEq] at he
      exact .boxed (alike_of_restored_eq h hi hi' hm.box he)
  | .variant name variant, .variant hd hv =>
    cases hy with
    | variant =>
      cases he
      exact .variant name variant
    | entity hd' => simp [hd] at hd'
    | host hd' => simp [hd] at hd'
    | unknown hd' => simp [hd] at hd'
  | .record name parts, hx =>
    obtain rfl : t = .named name := hx.ty_eq.symm
    obtain ⟨decl, hd⟩ := h.handles_record hx hm
    obtain ⟨parts', rfl⟩ := eq_record (.inl ⟨decl, hd⟩) hy
    rw [restored_entity h hd, restored_entity h hd, Datum.record.injEq] at he
    exact .entity hd (alikeParts_of_restored_eq h (hx.parts hd) (hy.parts hd)
      (fun f hf hm' => hm.field hd (h.hasConverter _) hf hm') he.2)

theorem alikeItems_of_restored_eq (h : m.Bare) {xs ys : List Datum} {t : Ty}
    (hx : m.types.HasItems t xs) (hy : m.types.HasItems t ys) (hm : m.Maps t)
    (he : m.restoredItems xs = m.restoredItems ys) : m.types.AlikeItems xs ys := by
  match xs, ys, hx, hy with
  | [], [], _, _ => exact .nil
  | [], y :: ys, _, _ => simp [restoredItems] at he
  | x :: xs, [], _, _ => simp [restoredItems] at he
  | x :: xs, y :: ys, .cons hx hxs, .cons hy hys =>
    simp only [restoredItems, List.cons.injEq] at he
    exact .cons (alike_of_restored_eq h hx hy hm he.1)
      (alikeItems_of_restored_eq h hxs hys hm he.2)

theorem alikeParts_of_restored_eq (h : m.Bare) {fields : List FieldDecl} {xs ys : List Datum}
    (hx : m.types.HasParts fields xs) (hy : m.types.HasParts fields ys)
    (hm : ∀ f ∈ fields, f.mapping.isSome → m.Maps f.ty)
    (he : m.restoredParts fields xs = m.restoredParts fields ys) :
    m.types.AlikeParts fields xs ys := by
  match fields, xs, ys, hx, hy with
  | [], [], [], _, _ => exact .nil
  | f :: fields, x :: xs, y :: ys, .cons hx hxs, .cons hy hys =>
    simp only [restoredParts, List.cons.injEq] at he
    have hrest := alikeParts_of_restored_eq h hxs hys (fun g hg => hm g (by simp [hg])) he.2
    cases hf : f.mapping with
    | none => exact .skipped hf hrest
    | some spec =>
      have hsome : f.mapping.isSome := by simp [hf]
      simp only [hsome, if_true] at he
      exact .mapped hsome (alike_of_restored_eq h hx hy (hm f (by simp) hsome) he.1) hrest

end

/-- Skipped fields and the depth of nulls are all that storing does not see: objects that differ
only so are stored as the same or fail alike, and of two objects that are stored as the same
document nothing else differs. -/
theorem toDocument_kernel (h : m.Bare) {name : String} {decl : EntityDecl}
    (hd : m.types.find? name = some (.entity decl)) (hm : m.Maps (.named name)) {x y : Datum}
    (hx : m.types.HasType x (.named name)) (hy : m.types.HasType y (.named name)) :
    (m.types.Alike x y → m.toDocument x = m.toDocument y) ∧
      ∀ d, (m.toDocument x).result = .ok d → (m.toDocument y).result = .ok d →
        m.types.Alike x y := by
  constructor
  · intro ha
    obtain ⟨xs, rfl⟩ := eq_record (.inl ⟨decl, hd⟩) hx
    obtain ⟨ys, rfl⟩ := eq_record (.inl ⟨decl, hd⟩) hy
    cases ha with
    | null hn => simp [Catalogue.isNull, hd] at hn
    | entity hd' hp => exact toDocument_alike h hd' hp
  · intro d hdx hdy
    have hrx := h.restores hd hm hx hdx
    have hry := h.restores hd hm hy hdy
    exact alike_of_restored_eq h hx hy hm (Except.ok.inj (hrx.symm.trans hry))

theorem alike_folder {id : Integer .u32} {note note' : Datum} {folders folders' : List Datum}
    {opened opened' : Integer .i64} (hn : folderTypes.Alike note note')
    (hf : folderTypes.AlikeItems folders folders') :
    folderTypes.Alike (folder id note folders opened) (folder id note' folders' opened') :=
  .entity (show folderTypes.find? "Folder" = some (.entity folderDecl) from rfl)
    (.mapped rfl (.atom _) (.mapped rfl hn (.mapped rfl (.seq _ hf) (.skipped rfl .nil))))

theorem toDocument_kernel_folder :
    (folderMapper.toDocument nestedFolder).result = .ok nestedFolderStored ∧
      folderMapper.toDocument nestedFolder = folderMapper.toDocument nestedFolderBack ∧
      folderTypes.Alike nestedFolder nestedFolderBack := by
  have ht : folderTypes.HasType nestedFolderBack (.named "Folder") :=
    hasType_folder (.none _) (.cons (hasType_folder (.none _) .nil) .nil)
  obtain ⟨hsame, halike⟩ := toDocument_kernel (m := folderMapper) ⟨rfl, rfl⟩ rfl maps_folder
    hasType_nestedFolder ht
  have hstored : (folderMapper.toDocument nestedFolder).result = .ok nestedFolderStored := rfl
  refine ⟨hstored, hsame ?_, halike _ hstored rfl⟩
  exact alike_folder (.null rfl rfl) (.cons (alike_folder (.null rfl rfl) .nil) .nil)

end Mapper

end ObjectDocument
