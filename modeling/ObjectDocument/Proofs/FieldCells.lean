import ObjectDocument.Proofs.Items
import ObjectDocument.Proofs.Stages

/-!
# The fields of an entity as cells

A derived entity has one cell for each key that it declares. Setting a field reads the value as the
type of that field and replaces its part alone; when that fails the entity stays as it was
(`SetsCell`). So failures leave no trace in a run of assignments, assignments to two keys may change
places, and a cell is told by the assignments to its own key (`fields_are_cells`).
-/

namespace ObjectDocument

theorem exists_split_of_getElem? {α : Type} {l : List α} {i : Nat} {a : α} (h : l[i]? = some a) :
    ∃ before after, l = before ++ a :: after ∧ before.length = i := by
  obtain ⟨hi, rfl⟩ := List.getElem?_eq_some_iff.1 h
  refine ⟨l.take i, l.drop (i + 1), ?_, List.length_take_of_le (Nat.le_of_lt hi)⟩
  rw [List.getElem_cons_drop, List.take_append_drop]

namespace EntityDecl
variable {d : EntityDecl} {key : String} {i : Nat} {f : FieldDecl} {parts : List Datum}

structure At (d : EntityDecl) (key : String) (i : Nat) (f : FieldDecl) : Prop where
  field : d.fields[i]? = some f
  key : f.key? = some key

theorem mem_specs_iff : key ∈ d.specs.map FieldSpec.name ↔ ∃ i f, d.At key i f := by
  rw [specs, List.map_filterMap, List.mem_filterMap]
  constructor
  · rintro ⟨f, hf, hkey⟩
    obtain ⟨i, hi⟩ := List.getElem?_of_mem hf
    exact ⟨i, f, hi, hkey⟩
  · rintro ⟨i, f, hat⟩
    exact ⟨f, List.mem_of_getElem? hat.field, hat.key⟩

theorem At.lt (h : d.At key i f) : i < d.fields.length :=
  (List.getElem?_eq_some_iff.1 h.field).1

theorem At.ne {key' : String} {j : Nat} {g : FieldDecl} (h : d.At key i f) (h' : d.At key' j g)
    (hne : key ≠ key') : i ≠ j := by
  rintro rfl
  cases h.field.symm.trans h'.field
  exact hne (Option.some.inj (h.key.symm.trans h'.key))

theorem At.split (h : d.At key i f) : ∃ before after spec, d.fields = before ++ f :: after ∧
    before.length = i ∧ f.mapping = some spec ∧ spec.name = key := by
  obtain ⟨before, after, hfields, hlen⟩ := exists_split_of_getElem? h.field
  obtain ⟨spec, hm, hname⟩ := Option.map_eq_some_iff.1 h.key
  exact ⟨before, after, spec, hfields, hlen, hm, hname⟩

theorem At.field? (h : d.At key i f) : d.field? key = some f := by
  obtain ⟨before, after, spec, hfields, -, hm, rfl⟩ := h.split
  exact field?_eq hfields hm

theorem At.exists_parts (h : d.At key i f) (hlen : parts.length = d.fields.length) :
    ∃ ys x xs, parts = ys ++ x :: xs ∧ ys.length = i := by
  have hi : i < parts.length := hlen ▸ h.lt
  obtain ⟨ys, xs, hparts, hys⟩ := exists_split_of_getElem? (List.getElem?_eq_getElem hi)
  exact ⟨ys, parts[i], xs, hparts, hys⟩

theorem At.getPart (h : d.At key i f) (hlen : parts.length = d.fields.length) :
    getPart key d.fields parts = parts[i]? := by
  obtain ⟨ys, x, xs, rfl, rfl⟩ := h.exists_parts hlen
  obtain ⟨before, after, spec, hfields, hbefore, hm, rfl⟩ := h.split
  rw [hfields, getPart_append hbefore.symm (key?_ne hfields hm) h.key]
  simp

theorem At.setPart (h : d.At key i f) (hlen : parts.length = d.fields.length) (y : Datum) :
    setPart key y d.fields parts = parts.set i y := by
  obtain ⟨ys, x, xs, rfl, rfl⟩ := h.exists_parts hlen
  obtain ⟨before, after, spec, hfields, hbefore, hm, rfl⟩ := h.split
  rw [hfields, setPart_append hbefore.symm (key?_ne hfields hm) h.key]
  simp

theorem ne_of_undeclared (h : key ∉ d.specs.map FieldSpec.name) :
    ∀ f ∈ d.fields, f.key? ≠ some key := by
  intro f hf hkey
  obtain ⟨i, hi⟩ := List.getElem?_of_mem hf
  exact h (mem_specs_iff.2 ⟨i, f, hi, hkey⟩)

theorem field?_eq_none (h : key ∉ d.specs.map FieldSpec.name) : d.field? key = none := by
  rw [EntityDecl.field?, List.find?_eq_none]
  simpa using ne_of_undeclared h

theorem getPart_eq_none (h : key ∉ d.specs.map FieldSpec.name) (parts : List Datum) :
    EntityDecl.getPart key d.fields parts = none := by
  have hne := ne_of_undeclared h
  generalize d.fields = fields at hne
  induction fields generalizing parts with
  | nil => rfl
  | cons f fields ih =>
    rw [List.forall_mem_cons] at hne
    cases parts with
    | nil => rfl
    | cons x parts => rw [EntityDecl.getPart, if_neg hne.1, ih parts hne.2]

end EntityDecl

namespace Catalogue

/-- A value for a field, with the mapper that is asked while it is read. -/
structure Assignment where
  key : String
  value : Value
  convert : Convert

variable (Γ : Catalogue)

def readFor (a : Assignment) (t : Ty) : Traced Datum := (Γ.fromValue t a.value).run a.convert

def put? (key : String) (t : Ty) (a : Assignment) : Option Datum :=
  if a.key = key then (Γ.readFor a t).result.toOption else none

def apply (x : Datum) (a : Assignment) : Traced Unit × Datum := Γ.assign a.convert x a.key a.value

def applyAll (x : Datum) : List Assignment → List (Traced Unit) × Datum
  | [] => ([], x)
  | a :: rest =>
    let (answer, y) := Γ.apply x a
    let (answers, z) := applyAll y rest
    (answer :: answers, z)

def succeeding (x : Datum) (as : List Assignment) : List Assignment :=
  ((as.zip (Γ.applyAll x as).1).filter fun p => p.2.result.isOk).map Prod.fst

variable {Γ} {name : String} {decl : EntityDecl} {parts : List Datum}

/-! ## One assignment -/

theorem apply_at (hd : Γ.find? name = some (.entity decl))
    (hlen : parts.length = decl.fields.length)
    {a : Assignment} {i : Nat} {f : FieldDecl} (hat : decl.At a.key i f) :
    Γ.apply (.record name parts) a = (Γ.readFor a f.ty >>= fun _ => .ok (),
      match (Γ.readFor a f.ty).result with
      | .ok y => .record name (parts.set i y)
      | .error _ => .record name parts) := by
  have hset : (Γ.setField (.record name parts) a.key a.value).run a.convert =
      Γ.readFor a f.ty >>= fun y => .ok (.record name (parts.set i y)) := by
    simp only [setField, hd, hat.field?, Dialogue.run_bind, hat.setPart hlen]
    rfl
  rw [apply, assign, hset, Traced.bind_assoc]
  obtain ⟨events, result⟩ := Γ.readFor a f.ty
  cases result <;> rfl

theorem apply_unknown (hd : Γ.find? name = some (.entity decl)) {a : Assignment}
    (hkey : a.key ∉ decl.specs.map FieldSpec.name) :
    Γ.apply (.record name parts) a =
      (.fail (.unknownField name a.key), .record name parts) := by
  simp only [apply, assign, setField, hd, EntityDecl.field?_eq_none hkey]
  rfl

theorem exists_answer (hd : Γ.find? name = some (.entity decl)) (a : Assignment) :
    ∃ answer : Traced Unit,
      (∃ i f y, decl.At a.key i f ∧ (Γ.readFor a f.ty).result = .ok y ∧ answer.result = .ok () ∧
        ∀ parts : List Datum, parts.length = decl.fields.length →
          Γ.apply (.record name parts) a = (answer, .record name (parts.set i y))) ∨
      ∃ e, answer.result = .error e ∧
        ∀ parts : List Datum, parts.length = decl.fields.length →
          Γ.apply (.record name parts) a = (answer, .record name parts) := by
  by_cases hkey : a.key ∈ decl.specs.map FieldSpec.name
  · obtain ⟨i, f, hat⟩ := EntityDecl.mem_specs_iff.1 hkey
    refine ⟨Γ.readFor a f.ty >>= fun _ => .ok (), ?_⟩
    cases hread : (Γ.readFor a f.ty).result with
    | ok y =>
      refine .inl
        ⟨i, f, y, hat, hread, Traced.bind_ok_eq_ok.2 ⟨y, hread, rfl⟩, fun parts hlen => ?_⟩
      rw [apply_at hd hlen hat, hread]
    | error e =>
      refine .inr ⟨e, by rw [Traced.bind_result, hread]; rfl, fun parts hlen => ?_⟩
      rw [apply_at hd hlen hat, hread]
  · exact ⟨_, .inr ⟨_, rfl, fun parts _ => apply_unknown hd hkey⟩⟩

theorem getField_record (hd : Γ.find? name = some (.entity decl)) (key : String) :
    Γ.getField key (.record name parts) = EntityDecl.getPart key decl.fields parts := by
  simp only [getField, hd]

theorem getField_at (hd : Γ.find? name = some (.entity decl))
    (hlen : parts.length = decl.fields.length) {key : String} {i : Nat} {f : FieldDecl}
    (hat : decl.At key i f) : Γ.getField key (.record name parts) = parts[i]? := by
  rw [getField_record hd, hat.getPart hlen]

theorem getField_unknown (hd : Γ.find? name = some (.entity decl)) {key : String}
    (hkey : key ∉ decl.specs.map FieldSpec.name) : Γ.getField key (.record name parts) = none := by
  rw [getField_record hd, EntityDecl.getPart_eq_none hkey]

theorem getField_isSome_iff (hd : Γ.find? name = some (.entity decl))
    (hlen : parts.length = decl.fields.length) (key : String) :
    (Γ.getField key (.record name parts)).isSome = true ↔
      key ∈ decl.specs.map FieldSpec.name := by
  constructor
  · intro h
    by_contra hkey
    rw [getField_unknown hd hkey] at h
    cases h
  · intro h
    obtain ⟨i, f, hat⟩ := EntityDecl.mem_specs_iff.1 h
    rw [getField_at hd hlen hat, List.getElem?_eq_getElem (hlen ▸ hat.lt)]
    rfl

/-- What an assignment does to an entity with such parts. It succeeds if the field is declared and
its type reads the value; then the part at the place of the field is what was read, and every other
part and field as before. When it fails the entity is as before. -/
structure SetsCell (Γ : Catalogue) (name : String) (decl : EntityDecl) (parts : List Datum)
    (a : Assignment) : Prop where
  ok_iff : (Γ.apply (.record name parts) a).1.result = .ok () ↔
    ∃ i f y, decl.At a.key i f ∧ (Γ.readFor a f.ty).result = .ok y
  shown : ∀ i f y, decl.At a.key i f → (Γ.readFor a f.ty).result = .ok y →
    (Γ.apply (.record name parts) a).2 = .record name (parts.set i y) ∧
      Γ.getField a.key (.record name (parts.set i y)) = some y ∧
      ∀ key, key ≠ a.key → Γ.getField key (.record name (parts.set i y)) =
        Γ.getField key (.record name parts)
  kept : ∀ e, (Γ.apply (.record name parts) a).1.result = .error e →
    (Γ.apply (.record name parts) a).2 = .record name parts
  mismatch : ∀ i f e, decl.At a.key i f → (Γ.readFor a f.ty).result = .error e →
    (Γ.apply (.record name parts) a).1.result = .error e
  unknown : a.key ∉ decl.specs.map FieldSpec.name →
    (Γ.apply (.record name parts) a).1 = .fail (.unknownField name a.key)

theorem setsCell (hd : Γ.find? name = some (.entity decl))
    (hlen : parts.length = decl.fields.length)
    (a : Assignment) : Γ.SetsCell name decl parts a where
  ok_iff := by
    constructor
    · intro hok
      obtain ⟨answer, ⟨i, f, y, hat, hread, -, -⟩ | ⟨e, hanswer, happly⟩⟩ := exists_answer hd a
      · exact ⟨i, f, y, hat, hread⟩
      · rw [happly parts hlen, hanswer] at hok
        cases hok
    · rintro ⟨i, f, y, hat, hread⟩
      rw [apply_at hd hlen hat]
      exact Traced.bind_ok_eq_ok.2 ⟨y, hread, rfl⟩
  shown i f y hat hread := by
    have hset : (parts.set i y).length = decl.fields.length := by rw [List.length_set, hlen]
    refine ⟨by rw [apply_at hd hlen hat, hread], ?_, fun key hne => ?_⟩
    · rw [getField_at hd hset hat, List.getElem?_set_self (hlen ▸ hat.lt)]
    · by_cases hkey : key ∈ decl.specs.map FieldSpec.name
      · obtain ⟨j, g, hat'⟩ := EntityDecl.mem_specs_iff.1 hkey
        rw [getField_at hd hset hat', getField_at hd hlen hat',
          List.getElem?_set_ne (hat.ne hat' hne.symm)]
      · rw [getField_unknown hd hkey, getField_unknown hd hkey]
  kept e he := by
    obtain ⟨answer, ⟨i, f, y, -, -, hanswer, happly⟩ | ⟨-, -, happly⟩⟩ := exists_answer hd a
    · rw [happly parts hlen, hanswer] at he
      cases he
    · rw [happly parts hlen]
  mismatch i f e hat hread := by rw [apply_at hd hlen hat, Traced.bind_result, hread]; rfl
  unknown hkey := by rw [apply_unknown hd hkey]

/-! ## Runs -/

theorem apply_of_error {x : Datum} {a : Assignment} {e : Failure}
    (h : (Γ.apply x a).1.result = .error e) : (Γ.apply x a).2 = x := by
  rw [apply, assign, Traced.bind_result] at h
  rw [apply, assign]
  cases hset : ((Γ.setField x a.key a.value).run a.convert).result with
  | ok y =>
    rw [hset] at h
    cases h
  | error e => rfl

theorem applyAll_cons (x : Datum) (a : Assignment) (as : List Assignment) :
    Γ.applyAll x (a :: as) =
      ((Γ.apply x a).1 :: (Γ.applyAll (Γ.apply x a).2 as).1, (Γ.applyAll (Γ.apply x a).2 as).2) :=
  rfl

theorem succeeding_cons (x : Datum) (a : Assignment) (as : List Assignment) :
    Γ.succeeding x (a :: as) = if (Γ.apply x a).1.result.isOk then
      a :: Γ.succeeding (Γ.apply x a).2 as else Γ.succeeding (Γ.apply x a).2 as := by
  rw [succeeding, applyAll_cons, List.zip_cons_cons, List.filter_cons]
  split <;> rfl

theorem applyAll_succeeding (x : Datum) (as : List Assignment) :
    (Γ.applyAll x (Γ.succeeding x as)).2 = (Γ.applyAll x as).2 ∧
      ∀ answer ∈ (Γ.applyAll x (Γ.succeeding x as)).1, answer.result = .ok () := by
  induction as generalizing x with
  | nil => exact ⟨rfl, nofun⟩
  | cons a as ih =>
    rw [succeeding_cons]
    cases hresult : (Γ.apply x a).1.result with
    | ok u =>
      obtain ⟨hstate, hanswers⟩ := ih (Γ.apply x a).2
      rw [if_pos (by rfl), applyAll_cons, applyAll_cons]
      exact ⟨hstate, List.forall_mem_cons.2 ⟨hresult, hanswers⟩⟩
    | error e =>
      rw [if_neg (by simp [Except.isOk, Except.toBool]), applyAll_cons, apply_of_error hresult]
      exact ih x

theorem exists_applyAll (hd : Γ.find? name = some (.entity decl))
    (hlen : parts.length = decl.fields.length) (as : List Assignment) :
    ∃ after, (Γ.applyAll (.record name parts) as).2 = .record name after ∧
      after.length = decl.fields.length ∧
      ∀ i, (∀ a ∈ as, ∀ f, ¬ decl.At a.key i f) → after[i]? = parts[i]? := by
  induction as generalizing parts with
  | nil => exact ⟨parts, rfl, hlen, fun _ _ => rfl⟩
  | cons a as ih =>
    rw [applyAll_cons]
    obtain ⟨answer, ⟨i, f, y, hat, -, -, happly⟩ | ⟨e, -, happly⟩⟩ := exists_answer hd a
    · rw [happly parts hlen]
      obtain ⟨after, hstate, hafter, hsame⟩ := ih (List.length_set.trans hlen)
      refine ⟨after, hstate, hafter, fun j hj => ?_⟩
      rw [List.forall_mem_cons] at hj
      have hne : i ≠ j := fun h => hj.1 f (h ▸ hat)
      rw [hsame j hj.2, List.getElem?_set_ne hne]
    · rw [happly parts hlen]
      obtain ⟨after, hstate, hafter, hsame⟩ := ih hlen
      exact ⟨after, hstate, hafter, fun j hj => hsame j (List.forall_mem_cons.1 hj).2⟩

theorem applyAll_swap (hd : Γ.find? name = some (.entity decl))
    (hlen : parts.length = decl.fields.length) {a b : Assignment} (hne : a.key ≠ b.key) :
    Γ.applyAll (.record name parts) [b, a] =
      ((Γ.applyAll (.record name parts) [a, b]).1.reverse,
        (Γ.applyAll (.record name parts) [a, b]).2) := by
  have hset (i : Nat) (y : Datum) : (parts.set i y).length = decl.fields.length := by
    rw [List.length_set, hlen]
  obtain ⟨p, ⟨i, f, y, hf, -, -, ha⟩ | ⟨e, -, ha⟩⟩ := exists_answer hd a <;>
    obtain ⟨q, ⟨j, g, z, hg, -, -, hb⟩ | ⟨e', -, hb⟩⟩ := exists_answer hd b
  -- only if both succeed are there two changes, and these are at two places
  · simp only [applyAll, ha, hb, hlen, hset, List.reverse_cons, List.reverse_nil, List.nil_append,
      List.cons_append, List.set_comm y z (hf.ne hg hne)]
  all_goals
    simp only [applyAll, ha, hb, hlen, hset, List.reverse_cons, List.reverse_nil, List.nil_append,
      List.cons_append]

theorem getField_apply (hd : Γ.find? name = some (.entity decl))
    (hlen : parts.length = decl.fields.length) {key : String} {i : Nat} {f : FieldDecl}
    (hat : decl.At key i f) (a : Assignment) :
    Γ.getField key (Γ.apply (.record name parts) a).2 =
      (Γ.put? key f.ty a).or (Γ.getField key (.record name parts)) := by
  have hcell := setsCell hd hlen a
  rw [put?]
  split
  next hkey =>
    subst hkey
    cases hread : (Γ.readFor a f.ty).result with
    | ok y =>
      obtain ⟨hstate, hget, -⟩ := hcell.shown i f y hat hread
      rw [hstate, hget]
      rfl
    | error e =>
      rw [hcell.kept e (hcell.mismatch i f e hat hread)]
      rfl
  next hkey =>
    rw [Option.none_or]
    cases hresult : (Γ.apply (.record name parts) a).1.result with
    | ok u =>
      obtain ⟨j, g, y, hat', hread⟩ := hcell.ok_iff.1 hresult
      obtain ⟨hstate, -, hothers⟩ := hcell.shown j g y hat' hread
      rw [hstate, hothers key (Ne.symm hkey)]
    | error e => rw [hcell.kept e hresult]

theorem getField_applyAll (hd : Γ.find? name = some (.entity decl))
    (hlen : parts.length = decl.fields.length) {key : String} {i : Nat} {f : FieldDecl}
    (hat : decl.At key i f) (as : List Assignment) :
    Γ.getField key (Γ.applyAll (.record name parts) as).2 =
      (as.filterMap (Γ.put? key f.ty)).getLast?.or (Γ.getField key (.record name parts)) := by
  induction as generalizing parts with
  | nil => rfl
  | cons a as ih =>
    obtain ⟨between, hstate, hbetween, -⟩ := exists_applyAll hd hlen [a]
    change (Γ.apply (.record name parts) a).2 = .record name between at hstate
    have hcell := getField_apply hd hlen hat a
    rw [hstate] at hcell
    rw [applyAll_cons, hstate, ih hbetween, hcell, List.filterMap_cons]
    -- what this assignment puts is seen if none of those after it puts anything
    cases Γ.put? key f.ty a with
    | none => rw [Option.none_or]
    | some y =>
      rw [List.getLast?_cons, Option.some_or]
      cases (as.filterMap (Γ.put? key f.ty)).getLast? <;> rfl

/-! ## Derived entities -/

section Derived
open Deriving
variable {item : Item} {plan : EntityPlan} {ty : FieldPlan → Ty} {default : FieldPlan → Datum}

theorem at_declare_iff (hp : plan.fields = item.members.map Member.plan) {key : String} {i : Nat}
    {f : FieldDecl} : (plan.declare ty default).At key i f ↔
      ∃ member, item.members[i]? = some member ∧ member.fieldKey? = some key ∧
        f = ⟨member.name, ty member.plan, member.plan.mapping, default member.plan⟩ := by
  have hfield : (plan.declare ty default).fields = item.members.map fun member =>
      ⟨member.name, ty member.plan, member.plan.mapping, default member.plan⟩ := by
    show plan.fields.map _ = _
    rw [hp, List.map_map]
    rfl
  have hkey (member : Member) :
      member.plan.mapping.map FieldSpec.name = member.fieldKey? := member.key?_plan
  constructor
  · rintro ⟨hf, hk⟩
    rw [hfield, List.getElem?_map, Option.map_eq_some_iff] at hf
    obtain ⟨member, hm, rfl⟩ := hf
    exact ⟨member, hm, (hkey member).symm.trans hk, rfl⟩
  · rintro ⟨member, hm, hk, rfl⟩
    exact ⟨by rw [hfield, List.getElem?_map, hm]; rfl, (hkey member).trans hk⟩

/-- The cells of a derived entity: which there are, what one assignment does to them and what a run
does. -/
theorem fields_are_cells (hp : entity item = .ok plan)
    (hd : Γ.find? name = some (.entity (plan.declare ty default)))
    (hlen : parts.length = item.members.length) :
    (∀ key i f, (plan.declare ty default).At key i f ↔
      ∃ member, item.members[i]? = some member ∧ member.fieldKey? = some key ∧
        f = ⟨member.name, ty member.plan, member.plan.mapping, default member.plan⟩) ∧
    (∀ key, (Γ.getField key (.record name parts)).isSome = true ↔
      ∃ i f, (plan.declare ty default).At key i f) ∧
    (∀ a, Γ.SetsCell name (plan.declare ty default) parts a) ∧
    (∀ as, (Γ.applyAll (.record name parts) (Γ.succeeding (.record name parts) as)).2 =
        (Γ.applyAll (.record name parts) as).2 ∧
      ∀ answer ∈ (Γ.applyAll (.record name parts) (Γ.succeeding (.record name parts) as)).1,
        answer.result = .ok ()) ∧
    (∀ as, ∃ after, (Γ.applyAll (.record name parts) as).2 = .record name after ∧
      after.length = item.members.length ∧
      ∀ i, (∀ a ∈ as, ∀ f, ¬ (plan.declare ty default).At a.key i f) → after[i]? = parts[i]?) ∧
    (∀ as key i f, (plan.declare ty default).At key i f →
      Γ.getField key (Γ.applyAll (.record name parts) as).2 =
        (as.filterMap (Γ.put? key f.ty)).getLast?.or (Γ.getField key (.record name parts))) ∧
    ∀ a b : Assignment, a.key ≠ b.key → Γ.applyAll (.record name parts) [b, a] =
      ((Γ.applyAll (.record name parts) [a, b]).1.reverse,
        (Γ.applyAll (.record name parts) [a, b]).2) := by
  have hfields := (entity_judged item).right_of_ok hp
  have hsame : (plan.declare ty default).fields.length = item.members.length := by
    show (plan.fields.map _).length = _
    rw [List.length_map, hfields, List.length_map]
  rw [← hsame] at hlen ⊢
  refine ⟨fun key i f => at_declare_iff hfields, fun key => ?_, setsCell hd hlen,
    applyAll_succeeding _, exists_applyAll hd hlen, fun as key i f hat => ?_,
    fun a b hne => applyAll_swap hd hlen hne⟩
  · exact (getField_isSome_iff hd hlen key).trans EntityDecl.mem_specs_iff
  · exact getField_applyAll hd hlen hat as

/-! The key of the first field of a note is the name of the second, and the other way round. -/

def notePlan : EntityPlan := ⟨noteItem.members.map Member.plan, by decide⟩

def noteTypes (f : FieldPlan) : Ty :=
  if f.ident = "text" then .atom .text else if f.ident = "draft" then .option (.atom .text)
  else .atom .bool

def noteCatalogue : Catalogue :=
  ⟨[("Note", .entity (notePlan.declare noteTypes fun _ => .unit))], .quiet⟩

def plainly (key : String) (value : Value) : Assignment := ⟨key, value, fun _ _ => .ok .absent⟩

def draftNote : Datum :=
  .record "Note" [.atom (.text "a"), .none (.atom .text), .atom (.bool false), .atom (.bool true)]

def setText : Assignment := plainly "text" (.string "b")
def setDraft : Assignment := plainly "draft" (.string "c")

theorem fields_are_cells_note :
    noteCatalogue.getField "read" draftNote = none ∧
      (noteCatalogue.applyAll draftNote
        [setText, plainly "draft" (.bool true), setDraft, plainly "read" .null]).2 =
        (noteCatalogue.applyAll draftNote [setDraft, setText]).2 ∧
      noteCatalogue.getField "text" (noteCatalogue.applyAll draftNote [setDraft, setText]).2 =
        some (.some (.atom (.text "b"))) := by
  have hnote : entity noteItem = .ok notePlan := rfl
  have hd : noteCatalogue.find? "Note" =
    some (.entity (notePlan.declare noteTypes fun _ => .unit)) := rfl
  obtain ⟨hkeys, hshown, -, hrun, -, hlast, hswap⟩ := fields_are_cells hnote hd
    (show [Datum.atom (.text "a"), .none (.atom .text), .atom (.bool false),
      .atom (.bool true)].length = noteItem.members.length from rfl)
  refine ⟨Option.not_isSome_iff_eq_none.1 fun hsome => ?_, ?_, ?_⟩
  · obtain ⟨i, f, hat⟩ := (hshown "read").1 hsome
    obtain ⟨member, hm, hkey, -⟩ := (hkeys "read" i f).1 hat
    exact absurd hkey ((by decide : ∀ member ∈ noteItem.members, member.fieldKey? ≠ some "read")
      member (List.mem_of_getElem? hm))
  · have hsucceeding : noteCatalogue.succeeding draftNote
        [setText, plainly "draft" (.bool true), setDraft, plainly "read" .null] =
        [setText, setDraft] := rfl
    obtain ⟨hstate, -⟩ :=
      hrun [setText, plainly "draft" (.bool true), setDraft, plainly "read" .null]
    have hswapped := congrArg Prod.snd (hswap setText setDraft (by decide))
    exact hstate.symm.trans ((congrArg (fun as => (noteCatalogue.applyAll draftNote as).2)
      hsucceeding).trans hswapped.symm)
  · exact hlast [setDraft, setText] "text" 1 _ ((hkeys "text" 1 _).2 ⟨_, rfl, rfl, rfl⟩)

end Derived

end Catalogue

end ObjectDocument
