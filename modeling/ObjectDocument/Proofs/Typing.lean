import ObjectDocument.Mapper

/-!
# Typed objects and mapped types

An object has a type when all that it holds has the type that is declared for it there. A type is
mapped by a mapper when only scalars, value enums, documents, entities and types with a converter
occur in it, through sequences, options and boxes. What an entity with a converter is made of does
not occur in it: the converter alone sees it. Types may be recursive, so occurrence is a relation
and not a list.
-/

namespace ObjectDocument

namespace Catalogue
variable (Γ : Catalogue)

mutual

inductive HasType : Datum → Ty → Prop where
  | unit : HasType .unit .unit
  | atom (a : Atom) : HasType (.atom a) (.atom a.type)
  | document (d : Document) : HasType (.document d) .document
  | seq {t : Ty} {items : List Datum} :
      HasItems t items → HasType (.seq t items) (.seq t)
  | none (t : Ty) : HasType (.none t) (.option t)
  | some {t : Ty} {x : Datum} : HasType x t → HasType (.some x) (.option t)
  | boxed {t : Ty} {x : Datum} : HasType x t → HasType (.boxed x) (.box t)
  | variant {name variant : String} {d : EnumDecl} : Γ.find? name = some (.enum d) →
      variant ∈ d.variants.map Prod.fst → HasType (.variant name variant) (.named name)
  | entity {name : String} {d : EntityDecl} {parts : List Datum} :
      Γ.find? name = some (.entity d) → HasParts d.fields parts →
      HasType (.record name parts) (.named name)
  | host {name : String} {h : HostDecl} {parts : List Datum} :
      Γ.find? name = some (.host h) → HasType (.record name parts) (.named name)
  /-- A type that nothing is known of, as that of a skipped field may be. -/
  | unknown {name : String} {parts : List Datum} :
      Γ.find? name = none → HasType (.record name parts) (.named name)

inductive HasItems : Ty → List Datum → Prop where
  | nil {t : Ty} : HasItems t []
  | cons {t : Ty} {x : Datum} {items : List Datum} :
      HasType x t → HasItems t items → HasItems t (x :: items)

inductive HasParts : List FieldDecl → List Datum → Prop where
  | nil : HasParts [] []
  | cons {f : FieldDecl} {x : Datum} {fields : List FieldDecl} {parts : List Datum} :
      HasType x f.ty → HasParts fields parts → HasParts (f :: fields) (x :: parts)

end

variable {Γ}

theorem HasType.ty_eq {x : Datum} {t : Ty} : Γ.HasType x t → x.ty = t
  | .unit | .atom _ | .document _ | .seq _ | .none _ | .variant _ _ | .entity _ _ | .host _
  | .unknown _ => rfl
  | .some h => by rw [Datum.ty, h.ty_eq]
  | .boxed h => by rw [Datum.ty, h.ty_eq]

theorem HasType.parts {name : String} {d : EntityDecl} {parts : List Datum} {t : Ty}
    (hd : Γ.find? name = Option.some (.entity d)) (h : Γ.HasType (.record name parts) t) :
    Γ.HasParts d.fields parts := by
  cases h with
  | entity hd' hp =>
    rw [hd] at hd'
    cases hd'
    exact hp
  | host hd' => simp [hd] at hd'
  | unknown hd' => simp [hd] at hd'

theorem HasParts.length_eq {fields : List FieldDecl} {parts : List Datum}
    (h : Γ.HasParts fields parts) : parts.length = fields.length := by
  induction fields generalizing parts with
  | nil => cases h; rfl
  | cons f fields ih => cases h with | cons _ hr => simp [ih hr]

theorem HasItems.of_mem {t : Ty} {items : List Datum} {x : Datum} (h : Γ.HasItems t items)
    (hx : x ∈ items) : Γ.HasType x t := by
  induction items with
  | nil => simp at hx
  | cons y rest ih =>
    cases h with
    | cons hy hr =>
      rcases List.mem_cons.1 hx with rfl | hx
      · exact hy
      · exact ih hr hx

theorem HasParts.of_mem_zip {fields : List FieldDecl} {parts : List Datum} {f : FieldDecl}
    {x : Datum} (h : Γ.HasParts fields parts) (hx : (f, x) ∈ fields.zip parts) :
    Γ.HasType x f.ty := by
  induction fields generalizing parts with
  | nil => simp at hx
  | cons g fields ih =>
    cases h with
    | cons hy hr =>
      rcases List.mem_cons.1 hx with he | hx
      · cases he
        exact hy
      · exact ih hr hx

end Catalogue

namespace Mapper
variable (m : Mapper)

def hasConverter (t : Ty) : Bool := (m.converters.find? (m.types.descriptor t)).isSome

/-- Objects of the first type are mapped through objects of the second. -/
inductive Occurs : Ty → Ty → Prop where
  | refl (t : Ty) : Occurs t t
  | seq {t u : Ty} : Occurs t u → Occurs (.seq t) u
  | option {t u : Ty} : Occurs t u → Occurs (.option t) u
  | box {t u : Ty} : Occurs t u → Occurs (.box t) u
  | field {name : String} {d : EntityDecl} {f : FieldDecl} {u : Ty} :
      m.types.find? name = some (.entity d) → m.hasConverter (.named name) = false →
      f ∈ d.fields → f.mapping.isSome → Occurs f.ty u → Occurs (.named name) u

def ConverterMapped (t : Ty) : Prop := ∃ e ∈ m.converters.entries, e.2.entity = t

def Handles : Ty → Prop
  | .unit | .anyEnum => False
  | .named name => (∃ d, m.types.find? name = some (.entity d)) ∨
      (∃ d, m.types.find? name = some (.enum d)) ∨ m.ConverterMapped (.named name)
  | _ => True

/-- Whether a mapper maps objects of a type, with all that they are made of. -/
def Maps (t : Ty) : Prop := ∀ u, m.Occurs t u → m.Handles u

variable {m}

theorem find?_of_hasConverter {t : Ty} (h : m.hasConverter t = false) :
    m.converters.find? (m.types.descriptor t) = none := by
  simpa [hasConverter] using h

theorem find?_of_empty (h : m.converters = .empty) (target : Descriptor) :
    m.converters.find? target = none := by
  rw [h]
  rfl

theorem hasConverter_of_empty (h : m.converters = .empty) (t : Ty) : m.hasConverter t = false := by
  rw [hasConverter, find?_of_empty h]
  rfl

theorem Occurs.trans {t u v : Ty} (h : m.Occurs t u) (hv : m.Occurs u v) : m.Occurs t v := by
  induction h with
  | refl t => exact hv
  | seq _ ih => exact .seq (ih hv)
  | option _ ih => exact .option (ih hv)
  | box _ ih => exact .box (ih hv)
  | field hd hc hf hm _ ih => exact .field hd hc hf hm (ih hv)

theorem Occurs.part {name : String} {d : EntityDecl} {f : FieldDecl} (h : m.converters = .empty)
    (hd : m.types.find? name = some (.entity d)) (hf : f ∈ d.fields) (hm : f.mapping.isSome) :
    m.Occurs (.named name) f.ty :=
  .field hd (hasConverter_of_empty h _) hf hm (.refl _)

theorem Maps.handles {t : Ty} (h : m.Maps t) : m.Handles t := h t (.refl t)

theorem Occurs.of_closed {S : Ty → Prop} (seq : ∀ t, S (.seq t) → S t)
    (option : ∀ t, S (.option t) → S t) (box : ∀ t, S (.box t) → S t)
    (field : ∀ name d f, S (.named name) → m.types.find? name = some (.entity d) → f ∈ d.fields →
      f.mapping.isSome → S f.ty)
    {t u : Ty} (ht : S t) (hu : m.Occurs t u) : S u := by
  induction hu with
  | refl t => exact ht
  | seq _ ih => exact ih (seq _ ht)
  | option _ ih => exact ih (option _ ht)
  | box _ ih => exact ih (box _ ht)
  | field hd _ hf hm _ ih => exact ih (field _ _ _ ht hd hf hm)

theorem Maps.of_closed {S : Ty → Prop} (handles : ∀ t, S t → m.Handles t)
    (seq : ∀ t, S (.seq t) → S t) (option : ∀ t, S (.option t) → S t) (box : ∀ t, S (.box t) → S t)
    (field : ∀ name d f, S (.named name) → m.types.find? name = some (.entity d) → f ∈ d.fields →
      f.mapping.isSome → S f.ty)
    {t : Ty} (ht : S t) : m.Maps t :=
  fun u hu => handles u (hu.of_closed seq option box field ht)

theorem Maps.seq {t : Ty} (h : m.Maps (.seq t)) : m.Maps t := fun u hu => h u (.seq hu)

theorem Maps.option {t : Ty} (h : m.Maps (.option t)) : m.Maps t := fun u hu => h u (.option hu)

theorem Maps.box {t : Ty} (h : m.Maps (.box t)) : m.Maps t := fun u hu => h u (.box hu)

theorem Maps.field {name : String} {d : EntityDecl} {f : FieldDecl} (h : m.Maps (.named name))
    (hd : m.types.find? name = some (.entity d)) (hc : m.hasConverter (.named name) = false)
    (hf : f ∈ d.fields) (hm : f.mapping.isSome) : m.Maps f.ty :=
  fun u hu => h u (.field hd hc hf hm hu)

end Mapper

end ObjectDocument
