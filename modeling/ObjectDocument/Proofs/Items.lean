import Mathlib.Data.List.Nodup
import ObjectDocument.Deriving

/-!
# Items that declare entities

What is wrong with an item is told by its text alone: with the item itself, then with its members
one after the other, and with a member by its words, then by how they go together, and last by its
key, which none of the members before may have. An item with no fault declares an entity; of any
other the first fault is told (`entity_judged`).
-/

namespace ObjectDocument.Deriving

/-! ## Judging -/

/-- Whether a result is what a list of faults leads to: the first of them, or, if there is none,
something right. -/
def Judged {α : Type} (faults : List Fault) (right : α → Prop) : Except Fault α → Prop
  | .ok a => faults = [] ∧ right a
  | .error e => faults.head? = some e

def faultsAfter {ι : Type} (faults : List ι → ι → List Fault) (before : List ι) :
    List ι → List Fault
  | [] => []
  | x :: rest => faults before x ++ faultsAfter faults (before ++ [x]) rest

theorem faultsAfter_const {ι : Type} (faults : ι → List Fault) (before l : List ι) :
    faultsAfter (fun _ => faults) before l = l.flatMap faults := by
  induction l generalizing before with
  | nil => rfl
  | cons x l ih => rw [faultsAfter, ih, List.flatMap_cons]

namespace Judged
variable {α β ι : Type} {faults more : List Fault} {right : α → Prop} {last : β → Prop}

theorem bind {x : Except Fault α} {f : α → Except Fault β} (hx : Judged faults right x)
    (hf : ∀ a, right a → Judged more last (f a)) : Judged (faults ++ more) last (x >>= f) := by
  cases x with
  | error e =>
    change (faults ++ more).head? = some e
    rw [List.head?_append, show faults.head? = some e from hx, Option.some_or]
  | ok a =>
    obtain ⟨rfl, ha⟩ := hx
    exact hf a ha

theorem map {x : Except Fault α} {f : α → β} (hx : Judged faults right x)
    (hf : ∀ a, right a → last (f a)) : Judged faults last (x.map f) := by
  cases x with
  | error e => exact hx
  | ok a => exact ⟨hx.1, hf a hx.2⟩

theorem foldlM {f : α → ι → Except Fault α} {F : List ι → ι → List Fault}
    {P : List ι → α → Prop} {before l : List ι} {a : α} (ha : P before a)
    (h : ∀ before x a, P before a → Judged (F before x) (P (before ++ [x])) (f a x)) :
    Judged (faultsAfter F before l) (P (before ++ l)) (l.foldlM f a) := by
  induction l generalizing before a with
  | nil =>
    rw [List.append_nil]
    exact ⟨rfl, ha⟩
  | cons x l ih =>
    rw [List.foldlM_cons, faultsAfter]
    refine (h before x a ha).bind fun b hb => ?_
    have hl := ih hb
    rwa [List.append_assoc] at hl

theorem ok_iff {x : Except Fault α} (h : Judged faults right x) :
    (∃ a, x = .ok a) ↔ faults = [] := by
  cases x with
  | ok a => exact ⟨fun _ => h.1, fun _ => ⟨a, rfl⟩⟩
  | error e =>
    constructor
    · rintro ⟨a, ha⟩
      cases ha
    · rintro rfl
      cases h

theorem right_of_ok {x : Except Fault α} (h : Judged faults right x) {a : α} (ha : x = .ok a) :
    right a := by
  subst ha
  exact h.2

theorem error_iff {x : Except Fault α} (h : Judged faults right x) (e : Fault) :
    x = .error e ↔ faults.head? = some e := by
  cases x with
  | ok a =>
    rw [show faults = [] from h.1]
    exact ⟨nofun, nofun⟩
  | error e' =>
    rw [show faults.head? = some e' from h, Option.some.injEq, Except.error.injEq]

end Judged

/-! ## Words -/

namespace Word

def Ends (rest : List Piece) : Prop := rest = [] ∨ rest = [.comma]

instance (rest : List Piece) : Decidable (Ends rest) := inferInstanceAs (Decidable (_ ∨ _))

def Gives (rest : List Piece) (s : String) : Prop :=
  ∃ tail, rest = .equals :: .literal (.string s) :: tail ∧ Ends tail

def Renames (w : Word) : Prop := w.first = .name "rename" ∧ ∃ s, Gives w.rest s

def FitsField (w : Word) : Prop :=
  w.Renames ∨ (w.first = .name "required" ∨ w.first = .name "skip") ∧ Ends w.rest

def rename? (w : Word) : Option String :=
  match w.first, w.rest with
  | .name "rename", .equals :: .literal (.string s) :: _ => some s
  | _, _ => none

def closeFaults (rest : List Piece) : List Fault := if Ends rest then [] else [.commaExpected]

def stringFaults : List Piece → List Fault
  | .equals :: .literal (.string _) :: rest => closeFaults rest
  | [.equals] => [.stringMissing]
  | .equals :: _ => [.stringExpected]
  | _ => [.equalsExpected]

def faultsBy (named : String → List Piece → List Fault) (w : Word) : List Fault :=
  match w.first with
  | .name n => named n w.rest
  | .literal _ => [.literalForWord]
  | _ => [.tokenForWord]

def fieldFaults : Word → List Fault :=
  faultsBy fun name rest =>
    if name = "rename" then stringFaults rest
    else if name = "required" ∨ name = "skip" then closeFaults rest
    else [.unknownFieldWord]

theorem closeFaults_eq_nil {rest : List Piece} : closeFaults rest = [] ↔ Ends rest := by
  simp [closeFaults]

theorem judged_close (rest : List Piece) :
    Judged (closeFaults rest) (fun _ => Ends rest) (close rest) := by
  rw [close.eq_def]
  split
  next => exact ⟨rfl, .inl rfl⟩
  next => exact ⟨rfl, .inr rfl⟩
  next h h' => exact congrArg List.head? (if_neg fun hends => hends.elim h h')

theorem stringFaults_eq_nil {rest : List Piece} :
    stringFaults rest = [] ↔ ∃ s, Gives rest s := by
  rw [stringFaults.eq_def]
  split
  next s tail =>
    rw [closeFaults_eq_nil]
    constructor
    · intro h
      exact ⟨s, tail, rfl, h⟩
    · rintro ⟨_, _, h, hends⟩
      cases h
      exact hends
  all_goals simp_all [Gives]

theorem judged_string (rest : List Piece) :
    Judged (stringFaults rest) (Gives rest) (string rest) := by
  fun_cases string rest with
  | case1 s tail => exact (judged_close tail).map fun _ h => ⟨tail, rfl, h⟩
  | case2 => rfl
  | case3 => simp_all [stringFaults, Judged]
  | case4 => simp_all [stringFaults, Judged]

theorem judged_name (w : Word) {more : String → List Piece → List Fault} {α : Type}
    {right : α → Prop} {f : String → Except Fault α}
    (h : ∀ n, w.first = .name n → Judged (more n w.rest) right (f n)) :
    Judged (w.faultsBy more) right (w.name >>= f) := by
  obtain ⟨first, rest⟩ := w
  cases first with
  | name n => exact h n rfl
  | _ => rfl

theorem fieldFaults_eq_nil {w : Word} : w.fieldFaults = [] ↔ w.FitsField := by
  obtain ⟨first, rest⟩ := w
  cases first with
  | name n =>
    simp only [fieldFaults, faultsBy, FitsField, Renames, Piece.name.injEq]
    split
    next h => simp [h, stringFaults_eq_nil]
    next h => split <;> simp_all [closeFaults_eq_nil]
  | _ => simp [fieldFaults, faultsBy, FitsField, Renames]

theorem rename?_of_gives {rest : List Piece} {s : String} (h : Gives rest s) :
    rename? ⟨.name "rename", rest⟩ = some s := by
  obtain ⟨tail, rfl, -⟩ := h
  rfl

theorem rename?_of_ne {w : Word} (h : w.first ≠ .name "rename") : w.rename? = none := by
  rw [rename?.eq_def]
  split
  next hfirst _ => exact absurd hfirst h
  next => rfl

end Word

def Marks.ofWords (words : List Word) : Marks where
  rename := (words.filterMap Word.rename?).getLast?
  required := words.any (·.first == .name "required")
  skip := words.any (·.first == .name "skip")

theorem Marks.ofWords_concat (words : List Word) (w : Word) :
    Marks.ofWords (words ++ [w]) =
      ⟨w.rename?.or (ofWords words).rename,
        (ofWords words).required || w.first == .name "required",
        (ofWords words).skip || w.first == .name "skip"⟩ := by
  simp [ofWords, List.getLast?_append]

theorem judged_addFieldWord (before : List Word) (w : Word) :
    Judged w.fieldFaults (· = Marks.ofWords (before ++ [w]))
      ((Marks.ofWords before).addFieldWord w) := by
  refine w.judged_name fun name hname => ?_
  obtain ⟨first, rest⟩ := w
  cases hname
  rw [Marks.ofWords_concat]
  dsimp only
  by_cases hrename : name = "rename"
  · subst hrename
    rw [if_pos rfl, if_pos rfl]
    refine (Word.judged_string rest).map fun s hs => ?_
    simp [Word.rename?_of_gives hs]
  have hnone : Word.rename? ⟨.name name, rest⟩ = none :=
    Word.rename?_of_ne fun h => hrename (Piece.name.inj h)
  rw [if_neg hrename, if_neg hrename, hnone]
  by_cases hrequired : name = "required"
  · subst hrequired
    exact (Word.judged_close rest).map fun _ _ => by simp
  by_cases hskip : name = "skip"
  · subst hskip
    exact (Word.judged_close rest).map fun _ _ => by simp
  simp only [hrequired, hskip, or_self, if_false]
  rfl

/-! ## Attributes -/

namespace Attribute

def words (a : Attribute) : List Word :=
  match a.arguments with
  | .list pieces => Piece.words pieces
  | _ => []

def faultsBy (alone : Word → List Fault) (a : Attribute) : List Fault :=
  match a.arguments with
  | .none => [.listMissing a.path]
  | .value => [.valueForList a.path]
  | .list pieces => (Piece.words pieces).flatMap alone

/-- An attribute that lists only words which fit. -/
def Lists (fits : Word → Prop) (a : Attribute) : Prop :=
  ∃ pieces, a.arguments = .list pieces ∧ ∀ w ∈ Piece.words pieces, fits w

theorem faultsBy_eq_nil {alone : Word → List Fault} {fits : Word → Prop}
    (h : ∀ w, alone w = [] ↔ fits w) {a : Attribute} : a.faultsBy alone = [] ↔ a.Lists fits := by
  obtain ⟨path, arguments⟩ := a
  cases arguments <;> simp [faultsBy, Lists, h]

end Attribute

/-! ## Members -/

namespace Member

def words (path : String) (member : Member) : List Word :=
  (member.marked path).flatMap Attribute.words

def rename? (path : String) (member : Member) : Option String :=
  ((member.words path).filterMap Word.rename?).getLast?

def key (path : String) (member : Member) : String := (member.rename? path).getD member.name

def isSkipped (member : Member) : Bool := (member.words "entity").any (·.first == .name "skip")

def isRequired (member : Member) : Bool :=
  (member.words "entity").any (·.first == .name "required")

def fieldKey? (member : Member) : Option String :=
  if member.isSkipped then none else some (member.key "entity")

def spec (member : Member) : FieldSpec :=
  ⟨member.key "entity", member.typeName, member.isRequired⟩

def plan (member : Member) : FieldPlan :=
  ⟨member.name, if member.isSkipped then none else some member.spec⟩

def fieldFaults (member : Member) : List Fault :=
  (member.marked "entity").flatMap (Attribute.faultsBy Word.fieldFaults) ++
    if member.isSkipped ∧ (member.isRequired ∨ (member.rename? "entity").isSome) then
      [.skipCombined] else []

/-- What is wrong with a member after others: what is wrong with it by itself, and then a key that
one of them has. -/
def faultsBeside (alone : Member → List Fault) (key? : Member → Option String)
    (repeated : String → Fault) (before : List Member) (member : Member) : List Fault :=
  alone member ++
    match key? member with
    | some k => if k ∈ before.filterMap key? then [repeated k] else []
    | none => []

theorem faultsBeside_eq_nil {alone : Member → List Fault} {key? : Member → Option String}
    {repeated : String → Fault} {before : List Member} {member : Member}
    (hbefore : (before.filterMap key?).Nodup) :
    faultsBeside alone key? repeated before member = [] ↔
      alone member = [] ∧ ((before ++ [member]).filterMap key?).Nodup := by
  rw [faultsBeside, List.append_eq_nil_iff]
  refine and_congr_right fun _ => ?_
  cases hk : key? member with
  | none => simp [hk, hbefore]
  | some k =>
    have hkeys : (before ++ [member]).filterMap key? = before.filterMap key? ++ [k] := by
      simp [hk]
    rw [hkeys]
    generalize before.filterMap key? = taken at hbefore ⊢
    have hnew : (taken ++ [k]).Nodup ↔ k ∉ taken ∧ taken.Nodup :=
      List.nodup_append_comm.trans List.nodup_cons
    rw [hnew]
    by_cases h : k ∈ taken <;> simp [h, hbefore]

theorem faultsAfter_beside_eq_nil {alone : Member → List Fault} {key? : Member → Option String}
    {repeated : String → Fault} {before members : List Member}
    (hbefore : (before.filterMap key?).Nodup) :
    faultsAfter (faultsBeside alone key? repeated) before members = [] ↔
      (∀ member ∈ members, alone member = []) ∧ ((before ++ members).filterMap key?).Nodup := by
  induction members generalizing before with
  | nil => simpa [faultsAfter] using hbefore
  | cons member members ih =>
    have hsplit : before ++ member :: members = before ++ [member] ++ members :=
      List.append_cons before member members
    rw [faultsAfter, List.append_eq_nil_iff, faultsBeside_eq_nil hbefore, List.forall_mem_cons,
      and_assoc, and_assoc, hsplit]
    refine and_congr_right fun _ => ?_
    constructor
    · rintro ⟨hnodup, hrest⟩
      exact (ih hnodup).1 hrest
    · rintro ⟨hall, hnodup⟩
      have hmember : ((before ++ [member]).filterMap key?).Nodup := by
        rw [List.filterMap_append] at hnodup
        exact (List.nodup_append.1 hnodup).1
      exact ⟨hmember, (ih hmember).2 ⟨hall, hnodup⟩⟩

theorem key?_plan (member : Member) : member.plan.key? = member.fieldKey? := by
  cases h : member.isSkipped <;> simp [plan, FieldPlan.key?, fieldKey?, h, spec]

theorem judged_marks {add : Marks → Word → Except Fault Marks} {alone : Word → List Fault}
    {P : List Word → Marks → Prop} (path : String) (member : Member) (hnone : P [] Marks.none)
    (h : ∀ before w marks, P before marks →
      Judged (alone w) (P (before ++ [w])) (add marks w)) :
    Judged ((member.marked path).flatMap (Attribute.faultsBy alone)) (P (member.words path))
      (member.marks path add) := by
  rw [← faultsAfter_const _ []]
  refine Judged.foldlM (P := fun before marks => P (before.flatMap Attribute.words) marks) hnone ?_
  rintro before ⟨_, _ | _ | pieces⟩ marks hmarks
  · rfl
  · rfl
  · rw [List.flatMap_append, List.flatMap_singleton]
    change Judged ((Piece.words pieces).flatMap alone) _ _
    rw [← faultsAfter_const _ (before.flatMap Attribute.words)]
    exact Judged.foldlM hmarks h

theorem judged_fieldMarks (member : Member) :
    Judged ((member.marked "entity").flatMap (Attribute.faultsBy Word.fieldFaults))
      (· = ⟨member.rename? "entity", member.isRequired, member.isSkipped⟩)
      (member.marks "entity" Marks.addFieldWord) := by
  refine judged_marks (P := fun words marks => marks = Marks.ofWords words) _ member rfl ?_
  rintro before w _ rfl
  exact judged_addFieldWord before w

end Member

/-! ## Entities -/

namespace EntityPlan
variable {p : EntityPlan} {before : List Member}

theorem keys_eq (hp : p.fields = before.map Member.plan) :
    p.keys = before.filterMap Member.fieldKey? := by
  rw [keys, hp, List.filterMap_map]
  exact List.filterMap_congr fun member _ => member.key?_plan

theorem judged_addMapped (p : EntityPlan) (ident : String) (info : FieldSpec) :
    Judged (if info.name ∈ p.keys then [.duplicateKey info.name] else [])
      (fun q => q.fields = p.fields ++ [⟨ident, some info⟩]) (p.addMapped ident info) := by
  rw [addMapped]
  split <;> simp [Judged]

theorem judged_addMember (hp : p.fields = before.map Member.plan) (member : Member) :
    Judged (Member.faultsBeside Member.fieldFaults Member.fieldKey? .duplicateKey before member)
      (fun q => q.fields = (before ++ [member]).map Member.plan) (p.addMember member) := by
  rw [Member.faultsBeside, Member.fieldFaults, List.append_assoc]
  refine member.judged_fieldMarks.bind ?_
  rintro _ rfl
  dsimp only
  cases hskip : member.isSkipped with
  | true =>
    have hkey : member.fieldKey? = none := if_pos hskip
    by_cases hmore : member.isRequired ∨ (member.rename? "entity").isSome
    · simp only [hmore, if_true, and_self]
      rfl
    · simp only [hmore, if_true, if_false, and_false, hkey]
      exact ⟨rfl, by simp [addSkipped, hp, Member.plan, hskip]⟩
  | false =>
    have hkey : member.fieldKey? = some (member.key "entity") := if_neg (by simp [hskip])
    have hplan : member.plan = ⟨member.name, some member.spec⟩ := by simp [Member.plan, hskip]
    have hmapped := judged_addMapped p member.name member.spec
    simp only [hkey, List.map_append, List.map_singleton, hplan, ← hp, ← keys_eq hp]
    exact hmapped

end EntityPlan

def ItemKind.entityFaults : ItemKind → List Fault
  | .namedStruct => []
  | .tupleStruct | .unitStruct => [.unnamedFields]
  | .enum | .union => [.notStruct]

/-- All that is wrong with an item that is to declare an entity, in the order of the text. -/
def Item.entityFaults (item : Item) : List Fault :=
  (if item.isGeneric then [.genericStruct] else []) ++ item.kind.entityFaults ++
    faultsAfter (Member.faultsBeside Member.fieldFaults Member.fieldKey? .duplicateKey) []
      item.members

structure Item.DeclaresEntity (item : Item) : Prop where
  plain : item.isGeneric = false
  struct : item.kind = .namedStruct
  lists : ∀ member ∈ item.members, ∀ a ∈ member.marked "entity", a.Lists Word.FitsField
  skips : ∀ member ∈ item.members, member.isSkipped = true →
    member.isRequired = false ∧ member.rename? "entity" = none
  keys : (item.members.filterMap Member.fieldKey?).Nodup

theorem Member.fieldFaults_eq_nil {member : Member} : member.fieldFaults = [] ↔
    (∀ a ∈ member.marked "entity", a.Lists Word.FitsField) ∧
      (member.isSkipped = true → member.isRequired = false ∧ member.rename? "entity" = none) := by
  simp [fieldFaults, Attribute.faultsBy_eq_nil fun w => Word.fieldFaults_eq_nil]

theorem Item.entityFaults_eq_nil {item : Item} : item.entityFaults = [] ↔ item.DeclaresEntity := by
  have hmembers := @Member.faultsAfter_beside_eq_nil Member.fieldFaults Member.fieldKey?
    .duplicateKey [] item.members .nil
  have hkind : item.kind.entityFaults = [] ↔ item.kind = .namedStruct := by
    cases item.kind <;> simp [ItemKind.entityFaults]
  simp only [entityFaults, List.append_eq_nil_iff, hmembers, hkind, Member.fieldFaults_eq_nil,
    List.nil_append]
  constructor
  · rintro ⟨⟨hplain, hstruct⟩, hmembers, hkeys⟩
    exact ⟨by simpa using hplain, hstruct, fun member hm => (hmembers member hm).1,
      fun member hm => (hmembers member hm).2, hkeys⟩
  · intro h
    exact ⟨⟨by simp [h.plain], h.struct⟩, fun member hm => ⟨h.lists member hm, h.skips member hm⟩,
      h.keys⟩

theorem entity_judged (item : Item) :
    Judged item.entityFaults (fun p => p.fields = item.members.map Member.plan) (entity item) := by
  rw [entity, Item.entityFaults]
  cases item.isGeneric with
  | true => rfl
  | false =>
    cases hkind : item.kind with
    | namedStruct =>
      exact Judged.foldlM
        (P := fun before (p : EntityPlan) => p.fields = before.map Member.plan) rfl
        fun before member p hp => EntityPlan.judged_addMember hp member
    | _ => rfl

theorem EntityPlan.specs_eq {p : EntityPlan} {members : List Member}
    (hp : p.fields = members.map Member.plan) :
    p.specs = (members.filter fun member => !member.isSkipped).map Member.spec := by
  rw [specs, hp, List.filterMap_map]
  clear hp
  induction members with
  | nil => rfl
  | cons member members ih => cases h : member.isSkipped <;> simp [Member.plan, h, ih]

theorem Item.DeclaresEntity.rename_skipped {item : Item} {before after : List Member}
    {skipped : Member} (h : item.DeclaresEntity) (hm : item.members = before ++ skipped :: after)
    (hs : skipped.isSkipped = true) (name : String) :
    { item with members := before ++ { skipped with name } :: after }.DeclaresEntity := by
  obtain ⟨hplain, hstruct, hlists, hskips, hkeys⟩ := h
  have hkey : skipped.fieldKey? = none := if_pos hs
  have hkey' : { skipped with name }.fieldKey? = none := if_pos hs
  rw [hm] at hlists hskips hkeys
  refine ⟨hplain, hstruct, ?_, ?_, ?_⟩
  · simp only [List.forall_mem_append, List.forall_mem_cons] at hlists ⊢
    exact hlists
  · simp only [List.forall_mem_append, List.forall_mem_cons] at hskips ⊢
    exact hskips
  · rw [List.filterMap_append, List.filterMap_cons_none hkey] at hkeys
    rwa [List.filterMap_append, List.filterMap_cons_none hkey']

/-- The items that declare entities, the fields they declare, and what is told of the others: the
first fault in the order of the text. -/
theorem entity_accepts (item : Item) :
    ((∃ p, entity item = .ok p) ↔ item.DeclaresEntity) ∧
      (∀ p, entity item = .ok p → p.fields = item.members.map Member.plan ∧
        p.specs = (item.members.filter fun member => !member.isSkipped).map Member.spec) ∧
      (∀ before skipped after, item.members = before ++ skipped :: after →
        skipped.isSkipped = true → ∀ name,
        ((∃ p, entity { item with members := before ++ { skipped with name } :: after } = .ok p) ↔
          ∃ p, entity item = .ok p)) ∧
      ∀ e, entity item = .error e ↔ item.entityFaults.head? = some e := by
  have hok (item : Item) : (∃ p, entity item = .ok p) ↔ item.DeclaresEntity :=
    (entity_judged item).ok_iff.trans Item.entityFaults_eq_nil
  refine ⟨hok item, fun p hp => ?_, fun before skipped after hm hs name => ?_,
    (entity_judged item).error_iff⟩
  · have hfields := (entity_judged item).right_of_ok hp
    exact ⟨hfields, EntityPlan.specs_eq hfields⟩
  · rw [hok, hok]
    refine ⟨fun h => ?_, fun h => h.rename_skipped hm hs name⟩
    -- the old item is the new one with the field renamed once more
    have hback := h.rename_skipped rfl hs skipped.name
    rwa [← hm] at hback

/-! Two fields of a note go by each other's names, and a third by that of one that is skipped. -/

def renamed (name : String) : List Piece := [.name "rename", .equals, .literal (.string name)]

def fieldMember (name typeName : String) (attributes : List Attribute) : Member :=
  ⟨name, typeName, .unit, attributes⟩

def noteMembers (skipped : String) : List Member :=
  [fieldMember "text" "String"
      [⟨"entity", .list (renamed "words" ++ [.comma] ++ renamed "draft" ++ [.comma])⟩],
    fieldMember "draft" "Option<String>" [⟨"entity", .list [.name "required"]⟩, ⟨"doc", .value⟩,
      ⟨"entity", .list (renamed "text")⟩],
    fieldMember skipped "bool" [⟨"entity", .list [.name "skip"]⟩],
    fieldMember "read" "bool" [⟨"entity", .list (renamed "seen")⟩]]

def noteItem : Item := ⟨.namedStruct, false, noteMembers "seen"⟩

/-- A last field whose attribute has no list is refused for that, and not for the word after it. -/
theorem entity_accepts_note :
    (∃ p, entity noteItem = .ok p ∧ p.specs = [⟨"draft", "String", false⟩,
        ⟨"text", "Option<String>", true⟩, ⟨"seen", "bool", false⟩]) ∧
      (∃ p, entity { noteItem with members := noteMembers "text" } = .ok p) ∧
      entity { noteItem with members := noteMembers "seen" ++ [fieldMember "text" "u8"
        [⟨"entity", .none⟩, ⟨"entity", .list [.name "size"]⟩]] } =
        .error (.listMissing "entity") := by
  obtain ⟨-, hfields, hskipped, -⟩ := entity_accepts noteItem
  have hnote : ∃ p, entity noteItem = .ok p := ⟨_, rfl⟩
  obtain ⟨p, hp⟩ := hnote
  obtain ⟨-, hspecs⟩ := hfields p hp
  have hrenamed := hskipped ((noteMembers "seen").take 2) _ ((noteMembers "seen").drop 3) rfl rfl
    "text"
  obtain ⟨-, -, -, herror⟩ := entity_accepts { noteItem with members := noteMembers "seen" ++
    [fieldMember "text" "u8" [⟨"entity", .none⟩, ⟨"entity", .list [.name "size"]⟩]] }
  exact ⟨⟨p, hp, hspecs.trans (by decide)⟩, hrenamed.2 ⟨p, hp⟩, (herror _).2 (by decide)⟩

end ObjectDocument.Deriving
