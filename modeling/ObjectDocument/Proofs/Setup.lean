import ObjectDocument.Mapper.Setup
import ObjectDocument.Proofs.Stages

/-!
# What setting up keeps

Whatever the steps, the scalars and value enums are value types of the mapper that is made, and
each converter is kept under the descriptor of the type whose objects it takes.
-/

namespace ObjectDocument

theorem ValueTypes.contains_extended_iff {t : Ty} {more : List Ty} :
    (extended more).contains t = true ↔ t ∈ builtin ∨ t ∈ more := by
  have hfold (members : List Ty) : t ∈ more.foldl (fun members t =>
      if t ∈ members then members else members ++ [t]) members ↔ t ∈ members ∨ t ∈ more := by
    induction more generalizing members with
    | nil => simp
    | cons u more ih =>
      rw [List.foldl_cons, ih, List.mem_cons, ← or_assoc]
      refine or_congr_left ?_
      split
      next hu => exact ⟨.inl, fun h => h.elim id fun h => h ▸ hu⟩
      next => simp
  simpa [contains, extended] using hfold builtin

namespace Converters

theorem find?_map_replace (entries : List (Descriptor × Converter)) (k : Descriptor) (c : Converter)
    (id : Ty) :
    (entries.map fun e => if e.1.id == k.id then (k, c) else e).find? (fun e => e.1.id == id) =
      (entries.find? fun e => e.1.id == id).map fun e =>
        if e.1.id == k.id then (k, c) else e := by
  rw [List.find?_map]
  refine congrArg (Option.map _) (congrArg (List.find? · entries) (funext fun e => ?_))
  by_cases he : e.1.id = k.id <;> simp [he]

theorem find?_insert (cs : Converters) (Γ : Catalogue) (c : Converter) (d : Descriptor) :
    (cs.insert Γ c).2.find? d =
      if (Γ.descriptor c.entity).id = d.id then some c else cs.find? d := by
  simp only [insert]
  generalize Γ.descriptor c.entity = k
  split
  next hany =>
    rw [find?, find?, find?_map_replace]
    cases hfind : cs.entries.find? (fun e => e.1.id == d.id) with
    | none =>
      obtain ⟨e, he, hk⟩ := List.any_eq_true.1 hany
      have hne : e.1.id ≠ d.id := by simpa using List.find?_eq_none.1 hfind e he
      rw [beq_iff_eq.1 hk] at hne
      simp [hne]
    | some e =>
      have he : e.1.id = d.id := by simpa using List.find?_some hfind
      by_cases hk : k.id = d.id
      · simp [he, hk]
      · simp [he, hk, Ne.symm hk]
  next hnew =>
    rw [find?, find?, List.find?_append]
    by_cases hk : k.id = d.id
    · have hnone : cs.entries.find? (fun e => e.1.id == d.id) = none := by
        rw [← hk]
        simpa using hnew
      simp [hnone, hk]
    · simp [hk]

end Converters

namespace Setup
variable {u : Setup}

/-- Each converter is kept under the descriptor of its type. -/
def Keyed (u : Setup) : Prop :=
  ∀ e ∈ u.converters.entries, e.1 = u.types.descriptor e.2.entity

theorem keyed_empty (Γ : Catalogue) : (empty Γ).Keyed := nofun

theorem step_keyed (h : u.Keyed) (s : SetupStep) : (u.step s).2.Keyed := by
  cases s with
  | valueType t => exact h
  | settings s => exact h
  | converter c =>
    intro e he
    change e ∈ (u.converters.insert u.types c).2.entries at he
    change e.1 = u.types.descriptor e.2.entity
    simp only [Converters.insert] at he
    split at he
    · obtain ⟨old, hold, rfl⟩ := List.mem_map.1 he
      split
      · rfl
      · exact h old hold
    · rcases List.mem_append.1 he with he | he
      · exact h e he
      · rw [List.mem_singleton.1 he]

theorem steps_keyed (h : u.Keyed) (steps : List SetupStep) : (u.steps steps).2.Keyed := by
  induction steps generalizing u with
  | nil => exact h
  | cons s steps ih => exact ih (step_keyed h s)

theorem mem_step_valueTypes {s : SetupStep} {t : Ty} :
    t ∈ (u.step s).2.valueTypes ↔ t ∈ u.valueTypes ∨ s = .valueType t := by
  cases s with
  | valueType t' => simp [step, eq_comm]
  | converter c => simp [step]
  | settings s => simp [step]

theorem mem_steps_valueTypes {steps : List SetupStep} {t : Ty} :
    t ∈ (u.steps steps).2.valueTypes ↔ t ∈ u.valueTypes ∨ .valueType t ∈ steps := by
  induction steps generalizing u with
  | nil => simp [Setup.steps]
  | cons s rest ih =>
    have hrest := @ih (u.step s).2
    simp only [Setup.steps, hrest, mem_step_valueTypes, List.mem_cons, or_assoc,
      eq_comm (a := s)]

theorem step_types (u : Setup) (s : SetupStep) : (u.step s).2.types = u.types := by
  cases s <;> rfl

theorem steps_types (u : Setup) (steps : List SetupStep) :
    (u.steps steps).2.types = u.types := by
  induction steps generalizing u with
  | nil => rfl
  | cons s rest ih => exact (ih (u.step s).2).trans (u.step_types s)

end Setup

namespace Mapper

def Made (m : Mapper) : Prop := ∃ Γ steps, m = ((Setup.empty Γ).steps steps).2.mapper

variable {m : Mapper}

theorem Made.registered (h : m.Made) :
    ∀ e ∈ m.converters.entries, e.1 = m.types.descriptor e.2.entity := by
  obtain ⟨Γ, steps, rfl⟩ := h
  exact Setup.steps_keyed (Setup.keyed_empty Γ) steps

theorem Made.builtin (h : m.Made) : ∀ t ∈ ValueTypes.builtin, m.valueTypes.contains t = true := by
  obtain ⟨Γ, steps, rfl⟩ := h
  exact fun t ht => ValueTypes.contains_extended_iff.2 (.inl ht)

end Mapper

end ObjectDocument
