import ObjectDocument.Proofs.Positions
import ObjectDocument.Proofs.Setup

/-!
# Registered value types

A mapper takes an object with an atomic form for a value exactly if the descriptor that the object
answers with is covered by the value types (`treatedAsValue_iff`). What is registered is a type;
what is asked for is the identity in that descriptor, or a type that it may stand in for. An option
or a box answers with the descriptor of what it holds, so registering its type covers none of its
objects.
-/

namespace ObjectDocument

namespace Mapper
variable {m : Mapper}

/-- Whether an object is treated as a value: it is returned as it is for every target, and stored as
its atomic form in a field or a sequence of an entity at any depth. -/
structure TreatedAsValue (m : Mapper) (x : Datum) (v : Value) : Prop where
  unchanged : ∀ depth target,
    (m.scope depth (some x) target).result = .ok (.unchanged x.present)
  part : ∀ room, m.encodeValue (m.stage room) x = .ok v
  held : ∀ depth y d p, ((m.types.toDocument y).run (m.scope depth)).result = .ok d →
    m.Reaches y p x → (Value.document d).at? p = some v

theorem asDocument?_of_toValue {Γ : Catalogue} {x : Datum} {v : Value}
    (h : Γ.toValue x = some v) : x.present.asDocument? = none := by
  rw [← Catalogue.toValue_present] at h
  generalize x.present = y at h
  cases y with
  | document d => cases h
  | _ => rfl

theorem treatedAsValue_of_covers {x : Datum} {v : Value} (hn : m.types.isNull x = false)
    (hv : m.types.toValue x = some v)
    (hc : m.valueTypes.covers (m.types.typeOf x) = true) : m.TreatedAsValue x v := by
  have hpart (room : Nat) : m.encodeValue (m.stage room) x = .ok v := by
    have hform : m.form x.present = .atom v := by simp [form, hn, hc, hv]
    rw [encodeValue_eq_encodeForm, encodeForm, hform]
  refine ⟨fun depth target => ?_, hpart, fun depth y d p hy hp => ?_⟩
  · exact convertAt_passThrough (by simp [route, hn, hc])
  · -- a document holds no object, so what is given was encoded
    have hdoc : y.present.asDocument? = none := by
      cases hy : y.present with
      | document e =>
        have hx := asDocument?_of_toValue hv
        rw [hp.of_document hy] at hx
        cases hx
      | _ => rfl
    obtain ⟨r, w, -, hw, hx⟩ := hp.stored (encodeValue_of_toDocument hdoc hy)
    rw [hpart] at hx
    cases hx
    exact hw

theorem treatedAsValue_iff {x : Datum} {v : Value} (hn : m.types.isNull x = false)
    (hv : m.types.toValue x = some v) :
    m.TreatedAsValue x v ↔ m.valueTypes.covers (m.types.typeOf x) = true := by
  refine ⟨fun h => ?_, treatedAsValue_of_covers hn hv⟩
  cases hc : m.valueTypes.covers (m.types.typeOf x) with
  | true => rfl
  | false =>
    have hroute : m.route (some x.present) (m.types.descriptor .document) = .encode := by
      simp [route, hn, hc, asDocument?_of_toValue hv, Catalogue.descriptor, Descriptor.of,
        Descriptor.isDocument]
    have hunchanged := h.unchanged 0 (m.types.descriptor .document)
    rw [scope, convertAt_encode hroute] at hunchanged
    generalize ((m.stage (m.settings.maxDepth + 1 - 0)).encode x.present).result = r at hunchanged
    cases r <;> cases hunchanged

def made (Γ : Catalogue) (steps : List SetupStep) : Mapper := ((Setup.empty Γ).steps steps).2.mapper

theorem types_made (Γ : Catalogue) (steps : List SetupStep) : (made Γ steps).types = Γ :=
  Setup.steps_types (Setup.empty Γ) steps

/-- Whether the descriptor of an object names a type: as its own identity, or as a type that it may
stand in for. -/
def AnswersFor (Γ : Catalogue) (x : Datum) (t : Ty) : Prop :=
  (Γ.typeOf x).id = t ∨ t ∈ (Γ.typeOf x).supertypes

theorem covers_made_iff {Γ : Catalogue} {steps : List SetupStep} {x : Datum} :
    (made Γ steps).valueTypes.covers (Γ.typeOf x) = true ↔
      (∃ k, (Γ.typeOf x).kind = .primitive k) ∨
        ∃ t, (t ∈ ValueTypes.builtin ∨ .valueType t ∈ steps) ∧ AnswersFor Γ x t := by
  have hcontains (t : Ty) : (made Γ steps).valueTypes.contains t = true ↔
      t ∈ ValueTypes.builtin ∨ .valueType t ∈ steps := by
    rw [made, Setup.mapper, ValueTypes.contains_extended_iff, Setup.mem_steps_valueTypes]
    simp [Setup.empty]
  simp only [ValueTypes.covers, Bool.or_eq_true, hcontains, List.any_eq_true, AnswersFor]
  rw [or_assoc]
  refine or_congr (by cases (Γ.typeOf x).kind <;> simp) ⟨?_, ?_⟩
  · rintro (h | ⟨t, ht, h⟩)
    · exact ⟨_, h, .inl rfl⟩
    · exact ⟨t, h, .inr ht⟩
  · rintro ⟨t, h, rfl | ht⟩
    · exact .inl h
    · exact .inr ⟨t, ht, h⟩

theorem answersFor_self {Γ : Catalogue} {x : Datum} (hx : x.wrapped? = none)
    (hself : (Γ.descriptor x.ty).id = x.ty) : AnswersFor Γ x x.ty := by
  left
  cases x with
  | some inner => cases hx
  | boxed inner => cases hx
  | _ => exact hself

/-- Registering a type takes its objects for values if the type names itself and they hold nothing
else. In general an object is treated as a value exactly if it answers for a built-in or registered
type, or is number-like. -/
theorem registered_value_type {Γ : Catalogue} {steps : List SetupStep} {t : Ty}
    (ht : .valueType t ∈ steps) {x : Datum} (hx : x.ty = t) (hn : Γ.isNull x = false) {v : Value}
    (hv : Γ.toValue x = some v) :
    (x.wrapped? = none → (Γ.descriptor t).id = t → (made Γ steps).TreatedAsValue x v) ∧
      ((made Γ steps).TreatedAsValue x v ↔ (∃ k, (Γ.typeOf x).kind = .primitive k) ∨
        ∃ u, (u ∈ ValueTypes.builtin ∨ .valueType u ∈ steps) ∧ AnswersFor Γ x u) := by
  have hiff := @treatedAsValue_iff (made Γ steps) x v
  rw [types_made] at hiff
  have htreated := (hiff hn hv).trans covers_made_iff
  refine ⟨fun hpresent hself => ?_, htreated⟩
  subst hx
  exact htreated.2 (.inr ⟨x.ty, .inr ht, answersFor_self hpresent hself⟩)

/-! An amount of money has an atomic form; the lines of an invoice hold it in a box. -/

def moneyDecl : HostDecl :=
  { HostDecl.unstructured "Money" with
    toValue
      | [.atom cents] => some cents.toValue
      | _ => none
    reading := .direct fun
      | .int64 cents => .ok [.atom (.integer cents)]
      | v => .fail (.typeMismatch "Money" v.kindName) }

def invoiceDecl : EntityDecl where
  fields :=
    [⟨"total", .option (.named "Money"), some ⟨"total", "Option<Money>", false⟩,
        .none (.named "Money")⟩,
      ⟨"lines", .seq (.box (.named "Money")), some ⟨"lines", "Vec<Box<Money>>", false⟩,
        .seq (.box (.named "Money")) []⟩]
  keys_nodup := by decide

def invoiceTypes : Catalogue :=
  ⟨[("Money", .host moneyDecl), ("Invoice", .entity invoiceDecl)], .quiet⟩

def price : Integer .i64 := ⟨1250, by decide⟩

def money : Datum := .record "Money" [.atom (.integer price)]

def invoice : Datum :=
  .record "Invoice" [.some money, .seq (.box (.named "Money")) [.boxed money]]

def invoiceMapper (t : Ty) : Mapper := made invoiceTypes [.valueType t]

theorem registered_value_type_money :
    (invoiceMapper (.named "Money")).TreatedAsValue money (.int64 price) ∧
      ¬ (invoiceMapper (.option (.named "Money"))).TreatedAsValue (.some money)
        (.int64 price) := by
  constructor
  · exact (registered_value_type (x := money) (List.mem_singleton.2 rfl) rfl rfl rfl).1 rfl rfl
  · intro h
    rcases (registered_value_type (x := .some money) (List.mem_singleton.2 rfl) rfl rfl rfl).2.1 h
      with ⟨k, hk⟩ | ⟨t, ht, rfl | hst⟩
    · cases hk
    · rcases ht with ht | ht
      · revert ht
        decide
      · cases List.mem_singleton.1 ht
    · cases hst

/-- An option of an amount is refused as if its type had not been registered, and so is a box. -/
theorem registered_option_refused :
    ¬ (∀ Γ steps t, .valueType t ∈ steps → ∀ (x : Datum) (v : Value), x.ty = t →
        Γ.isNull x = false → Γ.toValue x = some v → (made Γ steps).TreatedAsValue x v) ∧
      ∀ t ∈ [Ty.option (.named "Money"), .box (.named "Money")],
        ((invoiceMapper t).toDocument invoice).result =
          .error (.structural ["total"] (.noStructure "Money")) := by
  constructor
  · intro h
    have htreated := h invoiceTypes [.valueType (.option (.named "Money"))] _
      (List.mem_singleton.2 rfl) (.some money) _ rfl rfl rfl
    cases htreated.part 0
  · simp only [List.forall_mem_cons, List.not_mem_nil, false_imp_iff, implies_true, and_true]
    exact ⟨rfl, rfl⟩

end Mapper

end ObjectDocument
