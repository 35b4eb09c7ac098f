import ObjectDocument.Proofs.Items
import ObjectDocument.Proofs.Stages

/-!
# Value enums and their names

An item declares a value enum if nothing is wrong with it, check by check as for entities. The
variants of a value enum and their names in documents stand for each other: a variant is stored as
its name, and a name is read as the one variant that has it (`valueEnum_names`).
-/

namespace ObjectDocument

namespace Deriving

def Word.variantFaults : Word → List Fault :=
  Word.faultsBy fun name rest =>
    if name = "rename" then Word.stringFaults rest else [.unknownVariantWord]

theorem Word.variantFaults_eq_nil {w : Word} : w.variantFaults = [] ↔ w.Renames := by
  obtain ⟨first, rest⟩ := w
  cases first with
  | name n =>
    simp only [variantFaults, faultsBy, Renames, Piece.name.injEq]
    split
    next h => simp [h, stringFaults_eq_nil]
    next h => simp [h]
  | _ => simp [variantFaults, faultsBy, Renames]

theorem judged_addVariantWord (before : List Word) (marks : Marks) (w : Word) :
    Judged w.variantFaults
      (fun marks => marks.rename = ((before ++ [w]).filterMap Word.rename?).getLast?)
      (marks.addVariantWord w) := by
  refine w.judged_name fun name hname => ?_
  obtain ⟨first, rest⟩ := w
  cases hname
  by_cases hrename : name = "rename"
  · subst hrename
    rw [if_pos rfl, if_pos rfl]
    refine (Word.judged_string rest).map fun s hs => ?_
    simp [Word.rename?_of_gives hs]
  · rw [if_neg hrename, if_neg hrename]
    rfl

namespace Member

def variantName (member : Member) : String := member.key "value"

def variant (member : Member) : String × String := (member.name, member.variantName)

def variantFaults (member : Member) : List Fault :=
  (if member.shape = .unit then [] else [.variantWithFields]) ++
    (member.marked "value").flatMap (Attribute.faultsBy Word.variantFaults)

theorem variantFaults_eq_nil {member : Member} : member.variantFaults = [] ↔
    member.shape = .unit ∧ ∀ a ∈ member.marked "value", a.Lists Word.Renames := by
  simp [variantFaults, Attribute.faultsBy_eq_nil fun w => Word.variantFaults_eq_nil]

theorem judged_variantMarks (member : Member) :
    Judged ((member.marked "value").flatMap (Attribute.faultsBy Word.variantFaults))
      (fun marks => marks.rename = member.rename? "value")
      (member.marks "value" Marks.addVariantWord) :=
  judged_marks (P := fun words (marks : Marks) =>
      marks.rename = (words.filterMap Word.rename?).getLast?) _ member rfl
    fun before w marks _ => judged_addVariantWord before marks w

end Member

/-! ## Declaring value enums -/

theorem judged_addVariant {d : EnumDecl} {before : List Member}
    (hd : d.variants = before.map Member.variant) (member : Member) :
    Judged (Member.faultsBeside Member.variantFaults (some ∘ Member.variantName) .duplicateVariant
        before member)
      (fun e => e.variants = (before ++ [member]).map Member.variant) (addVariant d member) := by
  have hnames : d.variants.map Prod.snd = before.filterMap (some ∘ Member.variantName) := by
    rw [hd, List.map_map, List.filterMap_eq_map]
    rfl
  rw [Member.faultsBeside, Member.variantFaults, addVariant]
  by_cases hunit : member.shape = .unit
  case neg =>
    rw [if_neg hunit, if_neg hunit]
    rfl
  case pos =>
    simp only [hunit, if_true, List.nil_append]
    refine member.judged_variantMarks.bind ?_
    rintro ⟨_, required, skip⟩ rfl
    have hname : (some ∘ Member.variantName) member =
        some ((member.rename? "value").getD member.name) := rfl
    simp only [hname, ← hnames]
    by_cases hold : (member.rename? "value").getD member.name ∈ d.variants.map Prod.snd
    · rw [if_pos hold, dif_pos hold]
      rfl
    · rw [if_neg hold, dif_neg hold]
      refine ⟨rfl, ?_⟩
      rw [List.map_append, ← hd]
      rfl

def Item.enumFaults (item : Item) : List Fault :=
  (if item.isGeneric then [.genericEnum] else []) ++
    (if item.kind = .enum then [] else [.notEnum]) ++
    faultsAfter
      (Member.faultsBeside Member.variantFaults (some ∘ Member.variantName) .duplicateVariant) []
      item.members

structure Item.DeclaresEnum (item : Item) : Prop where
  plain : item.isGeneric = false
  enum : item.kind = .enum
  units : ∀ member ∈ item.members, member.shape = .unit
  lists : ∀ member ∈ item.members, ∀ a ∈ member.marked "value", a.Lists Word.Renames
  names : (item.members.map Member.variantName).Nodup

theorem Item.enumFaults_eq_nil {item : Item} : item.enumFaults = [] ↔ item.DeclaresEnum := by
  have hmembers := @Member.faultsAfter_beside_eq_nil Member.variantFaults
    (some ∘ Member.variantName) .duplicateVariant [] item.members .nil
  simp only [enumFaults, List.append_eq_nil_iff, hmembers, Member.variantFaults_eq_nil,
    List.nil_append, List.filterMap_eq_map]
  constructor
  · rintro ⟨⟨hplain, henum⟩, hmembers, hnames⟩
    exact ⟨by simpa using hplain, by simpa using henum, fun member hm => (hmembers member hm).1,
      fun member hm => (hmembers member hm).2, hnames⟩
  · intro h
    exact ⟨⟨by simp [h.plain], by simp [h.enum]⟩,
      fun member hm => ⟨h.units member hm, h.lists member hm⟩, h.names⟩

theorem valueEnum_judged (item : Item) :
    Judged item.enumFaults (fun d => d.variants = item.members.map Member.variant)
      (valueEnum item) := by
  rw [valueEnum, Item.enumFaults]
  cases item.isGeneric with
  | true => rfl
  | false =>
    cases item.kind with
    | enum =>
      exact Judged.foldlM (P := fun before (d : EnumDecl) => d.variants = before.map Member.variant)
        rfl fun before member d hd => judged_addVariant hd member
    | _ => rfl

end Deriving

/-! ## Names in documents -/

theorem EnumDecl.nameOf?_eq_some_iff {d : EnumDecl} (hd : (d.variants.map Prod.fst).Nodup)
    {variant s : String} : d.nameOf? variant = some s ↔ (variant, s) ∈ d.variants := by
  rw [nameOf?, List.lookup_eq_some_iff]
  constructor
  · rintro ⟨before, after, hv, -⟩
    simp [hv]
  · intro h
    obtain ⟨before, after, hv⟩ := List.append_of_mem h
    refine ⟨before, after, hv, fun v hb => ?_⟩
    rw [hv, List.map_append, List.nodup_append] at hd
    have hne := hd.2.2 v.1 (List.mem_map_of_mem hb) variant (by simp)
    simpa using hne.symm

namespace Catalogue
variable {Γ : Catalogue} {name : String} {d : EnumDecl}

theorem toValue_variant (hd : Γ.find? name = some (.enum d)) (variant : String) :
    Γ.toValue (.variant name variant) = (d.nameOf? variant).map Value.enum := by
  simp only [toValue, hd]

end Catalogue

namespace Deriving

/-- The items that declare value enums, and what variants and names are to each other: each variant
is stored as its name and read back from it, as a variant or as a text, and nothing else is read. -/
theorem valueEnum_names (item : Item) :
    ((∃ d, valueEnum item = .ok d) ↔ item.DeclaresEnum) ∧
      (∀ e, valueEnum item = .error e ↔ item.enumFaults.head? = some e) ∧
      ∀ d, valueEnum item = .ok d → ∀ (Γ : Catalogue) (name : String),
        Γ.find? name = some (.enum d) →
        ((item.members.map Member.name).Nodup → ∀ member ∈ item.members,
          Γ.toValue (.variant name member.name) = some (.enum member.variantName)) ∧
        (∀ member ∈ item.members, Γ.fromValue (.named name) (.enum member.variantName) =
          .ok (.variant name member.name)) ∧
        (∀ s, Γ.fromValue (.named name) (.string s) = Γ.fromValue (.named name) (.enum s)) ∧
        (∀ s, s ∉ item.members.map Member.variantName → Γ.fromValue (.named name) (.enum s) =
          .fail (.typeMismatch name ("unknown variant '" ++ s ++ "'"))) ∧
        ∀ v, (∀ s, v ≠ .enum s ∧ v ≠ .string s) → Γ.fromValue (.named name) v =
          .fail (.typeMismatch name v.kindName) := by
  have hjudged := valueEnum_judged item
  refine ⟨hjudged.ok_iff.trans Item.enumFaults_eq_nil, hjudged.error_iff, ?_⟩
  intro d hok Γ name hd
  have hvariants := hjudged.right_of_ok hok
  have hmem {member : Member} (hm : member ∈ item.members) :
      (member.name, member.variantName) ∈ d.variants := by
    rw [hvariants]
    exact List.mem_map_of_mem hm
  refine ⟨fun hdistinct member hm => ?stored, fun member hm => ?read, fun s => ?alike,
    fun s hs => ?unknown, fun v hv => ?other⟩
  case stored =>
    -- the look-up by variant finds the first entry, so no two may be of one variant
    have hfst : (d.variants.map Prod.fst).Nodup := by
      rw [hvariants, List.map_map]
      exact hdistinct
    rw [Catalogue.toValue_variant hd, (EnumDecl.nameOf?_eq_some_iff hfst).2 (hmem hm)]
    rfl
  case read =>
    rw [Catalogue.fromValue_enum hd]
    simp only [Value.asName?, EnumDecl.variant?_eq_some_iff.2 (hmem hm)]
  case alike => rw [Catalogue.fromValue_enum hd, Catalogue.fromValue_enum hd]; rfl
  case unknown =>
    have hnone : d.variant? s = none := by
      rw [EnumDecl.variant?_eq_none_iff, hvariants, List.map_map]
      exact hs
    rw [Catalogue.fromValue_enum hd]
    simp only [Value.asName?, hnone]
  case other => rw [Catalogue.fromValue_enum hd, Value.asName?_eq_none.2 hv]

/-! Two variants go by each other's names, and a third by none. -/

def variantMember (name document : String) : Member :=
  ⟨name, "", .unit, [⟨"value", .list (renamed document)⟩]⟩

def gearItem : Item :=
  ⟨.enum, false, [variantMember "Off" "", variantMember "Low" "High", variantMember "High" "Low"]⟩

def gearTypes (d : EnumDecl) : Catalogue := ⟨[("Gear", .enum d)], .quiet⟩

theorem valueEnum_names_gear :
    ∃ d, valueEnum gearItem = .ok d ∧
      (gearTypes d).toValue (.variant "Gear" "Low") = some (.enum "High") ∧
      (gearTypes d).fromValue (.named "Gear") (.string "High") = .ok (.variant "Gear" "Low") ∧
      (gearTypes d).fromValue (.named "Gear") (.enum "Off") =
        .fail (.typeMismatch "Gear" "unknown variant 'Off'") ∧
      (gearTypes d).fromValue (.named "Gear") .null = .fail (.typeMismatch "Gear" "Null") := by
  obtain ⟨-, -, hnames⟩ := valueEnum_names gearItem
  have haccepted : ∃ d, valueEnum gearItem = .ok d := ⟨_, rfl⟩
  obtain ⟨d, hd⟩ := haccepted
  obtain ⟨hstored, hread, halike, hunknown, hother⟩ :=
    hnames d hd (gearTypes d) "Gear" rfl
  have hlow : gearItem.members[1] ∈ gearItem.members := List.getElem_mem _
  exact ⟨d, hd, hstored (by decide) _ hlow, (halike _).trans (hread _ hlow),
    hunknown "Off" (by decide), hother .null fun s => ⟨nofun, nofun⟩⟩

def hollowItem : Item := ⟨.enum, false, [⟨"A", "", .tuple 0, []⟩, ⟨"B", "", .named 0, []⟩]⟩

/-- A variant with an empty list of fields has no fields, and is refused all the same. -/
theorem valueEnum_hollow :
    (∀ member ∈ hollowItem.members, member.shape.arity = 0 ∧ member.attributes = []) ∧
      (hollowItem.members.map Member.variantName).Nodup ∧
      valueEnum hollowItem = .error .variantWithFields :=
  ⟨by decide, by decide, rfl⟩

end Deriving

end ObjectDocument
