import Mathlib.Data.Finset.Card
import ObjectDocument.Proofs.Registration

/-!
# The order in which a mapper is set up

Of the steps in which a mapper is set up there count the value types that are registered, the last
converter for each identity and the last settings. Each step is told by what was registered before
it (`Tracks.step`), and so are the converters that are kept, how many they are, and the events
(`made_determined`). Mappers for which the same counts convert alike.
-/

namespace ObjectDocument

namespace SetupStep

def converter? : SetupStep → Option Converter
  | .converter c => some c
  | _ => none

def settings? : SetupStep → Option Settings
  | .settings s => some s
  | _ => none

end SetupStep

def Converters.identities (cs : Converters) : List Ty := cs.entries.map fun e => e.1.id

theorem Converters.insert_fst (cs : Converters) (Γ : Catalogue) (c : Converter) :
    (cs.insert Γ c).1 = if (Γ.descriptor c.entity).id ∈ cs.identities then
      [.converterReplaced (Γ.descriptor c.entity).name] else [] := by
  simp only [insert, identities, List.any_eq_true, List.mem_map, beq_iff_eq]
  split <;> rfl

theorem Converters.identities_insert (cs : Converters) (Γ : Catalogue) (c : Converter) :
    (cs.insert Γ c).2.identities = if (Γ.descriptor c.entity).id ∈ cs.identities then cs.identities
      else cs.identities ++ [(Γ.descriptor c.entity).id] := by
  simp only [insert, identities, List.any_eq_true, List.mem_map, beq_iff_eq]
  split
  · simp only [List.map_map]
    refine List.map_congr_left fun e _ => ?_
    simp only [Function.comp_apply]
    split
    next he => exact he.symm
    next => rfl
  · simp

namespace Setup
variable {Γ : Catalogue} {u : Setup} {taken : List SetupStep}

def registered (taken : List SetupStep) : List Converter := taken.filterMap SetupStep.converter?

def identities (Γ : Catalogue) (taken : List SetupStep) : List Ty :=
  (registered taken).map fun c => (Γ.descriptor c.entity).id

def lastConverter? (Γ : Catalogue) (taken : List SetupStep) (id : Ty) : Option Converter :=
  (registered taken).reverse.find? fun c => (Γ.descriptor c.entity).id == id

def lastSettings (taken : List SetupStep) : Settings :=
  (taken.filterMap SetupStep.settings?).getLastD .standard

def replacement (Γ : Catalogue) (taken : List SetupStep) : SetupStep → List Event
  | .converter c =>
    if (Γ.descriptor c.entity).id ∈ identities Γ taken then
      [.converterReplaced (Γ.descriptor c.entity).name]
    else []
  | _ => []

theorem registered_concat (taken : List SetupStep) (s : SetupStep) :
    registered (taken ++ [s]) = registered taken ++ s.converter?.toList := by
  rw [registered, List.filterMap_append]
  cases s <;> rfl

theorem lastConverter?_concat {s : SetupStep} {c : Converter} (hs : s.converter? = some c)
    (id : Ty) :
    lastConverter? Γ (taken ++ [s]) id =
      if (Γ.descriptor c.entity).id = id then some c else lastConverter? Γ taken id := by
  by_cases h : (Γ.descriptor c.entity).id = id <;>
    simp [lastConverter?, registered_concat, hs, h]

theorem identities_concat {s : SetupStep} {c : Converter} (hs : s.converter? = some c) :
    identities Γ (taken ++ [s]) = identities Γ taken ++ [(Γ.descriptor c.entity).id] := by
  simp [identities, registered_concat, hs]

theorem lastSettings_concat (taken : List SetupStep) (s : SetupStep) :
    lastSettings (taken ++ [s]) = s.settings?.getD (lastSettings taken) := by
  rw [lastSettings, List.filterMap_append]
  cases s <;> simp [lastSettings, SetupStep.settings?]

theorem step_settings (u : Setup) (s : SetupStep) :
    (u.step s).2.settings = s.settings?.getD u.settings := by
  cases s <;> rfl

theorem step_converters_of_none {s : SetupStep} (hs : s.converter? = none) :
    (u.step s).2.converters = u.converters := by
  cases s <;> first | rfl | cases hs

theorem step_converters_of_some {s : SetupStep} {c : Converter} (hs : s.converter? = some c) :
    (u.step s).2.converters = (u.converters.insert u.types c).2 := by
  cases s <;> cases hs
  rfl

theorem steps_concat (u : Setup) (taken : List SetupStep) (s : SetupStep) :
    u.steps (taken ++ [s]) =
      ((u.steps taken).1 ++ ((u.steps taken).2.step s).1, ((u.steps taken).2.step s).2) := by
  induction taken generalizing u with
  | nil => simp [Setup.steps]
  | cons first rest ih => simp [Setup.steps, ih, List.append_assoc]

/-- What has been collected is told by the steps that were taken. -/
structure Tracks (u : Setup) (Γ : Catalogue) (taken : List SetupStep) : Prop where
  types : u.types = Γ
  find? : ∀ d, u.converters.find? d = lastConverter? Γ taken d.id
  nodup : u.converters.identities.Nodup
  mem_identities : ∀ t, t ∈ u.converters.identities ↔ t ∈ identities Γ taken
  settings : u.settings = lastSettings taken

namespace Tracks

theorem step (h : u.Tracks Γ taken) (s : SetupStep) : (u.step s).2.Tracks Γ (taken ++ [s]) := by
  have htypes := (u.step_types s).trans h.types
  have hsettings : (u.step s).2.settings = lastSettings (taken ++ [s]) := by
    rw [step_settings, h.settings, lastSettings_concat]
  cases hs : s.converter? with
  | none =>
    have hkept : registered (taken ++ [s]) = registered taken := by simp [registered_concat, hs]
    refine ⟨htypes, fun d => ?_, ?_, fun t => ?_, hsettings⟩
    · rw [step_converters_of_none hs, h.find?, lastConverter?, lastConverter?, hkept]
    · rw [step_converters_of_none hs]
      exact h.nodup
    · rw [step_converters_of_none hs, h.mem_identities, identities, identities, hkept]
  | some c =>
    refine ⟨htypes, fun d => ?_, ?_, fun t => ?_, hsettings⟩
    · rw [step_converters_of_some hs, Converters.find?_insert, lastConverter?_concat hs, h.types,
        h.find?]
    · rw [step_converters_of_some hs, Converters.identities_insert]
      split
      next => exact h.nodup
      next hnew => exact List.nodup_append_comm.1 (List.nodup_cons.2 ⟨hnew, h.nodup⟩)
    · rw [step_converters_of_some hs, Converters.identities_insert, identities_concat hs,
        List.mem_append, ← h.mem_identities, h.types, List.mem_singleton]
      split
      next hold => exact ⟨.inl, fun ht => ht.elim id fun ht => ht ▸ hold⟩
      next => rw [List.mem_append, List.mem_singleton]

theorem events (h : u.Tracks Γ taken) (s : SetupStep) : (u.step s).1 = replacement Γ taken s := by
  cases s with
  | converter c =>
    change (u.converters.insert u.types c).1 = _
    simp only [Converters.insert_fst, replacement, h.types, h.mem_identities]
  | valueType t => rfl
  | settings s => rfl

theorem size_eq (h : u.Tracks Γ taken) :
    u.converters.size = (identities Γ taken).toFinset.card := by
  have hsame : u.converters.identities.toFinset = (identities Γ taken).toFinset := by
    ext t
    simp only [List.mem_toFinset, h.mem_identities]
  rw [← hsame, List.toFinset_card_of_nodup h.nodup, Converters.identities, List.length_map,
    Converters.size]

end Tracks

def told (Γ : Catalogue) (taken : List SetupStep) : List Event := ((empty Γ).steps taken).1

theorem tracks_steps (Γ : Catalogue) (taken : List SetupStep) :
    ((empty Γ).steps taken).2.Tracks Γ taken := by
  induction taken using List.reverseRecOn with
  | nil => exact ⟨rfl, fun _ => rfl, List.nodup_nil, fun _ => Iff.rfl, rfl⟩
  | append_singleton taken s ih =>
    rw [steps_concat]
    exact ih.step s

theorem told_concat (Γ : Catalogue) (taken : List SetupStep) (s : SetupStep) :
    told Γ (taken ++ [s]) = told Γ taken ++ replacement Γ taken s := by
  rw [told, steps_concat, (tracks_steps Γ taken).events s]
  rfl

theorem length_step (u : Setup) (s : SetupStep) :
    (u.step s).1.length + (u.step s).2.converters.size =
      u.converters.size + s.converter?.toList.length := by
  have hsize (cs : Converters) : cs.size = cs.identities.length := by
    rw [Converters.size, Converters.identities, List.length_map]
  cases s with
  | converter c =>
    change (u.converters.insert u.types c).1.length + (u.converters.insert u.types c).2.size = _
    rw [hsize, hsize, Converters.insert_fst, Converters.identities_insert]
    split <;> simp [SetupStep.converter?, Nat.add_comm]
  | valueType t => exact Nat.zero_add _
  | settings s => exact Nat.zero_add _

theorem length_told (Γ : Catalogue) (taken : List SetupStep) :
    (told Γ taken).length + ((empty Γ).steps taken).2.converters.size =
      (registered taken).length := by
  induction taken using List.reverseRecOn with
  | nil => rfl
  | append_singleton taken s ih =>
    have hstep := length_step ((empty Γ).steps taken).2 s
    rw [told] at ih ⊢
    rw [steps_concat, registered_concat, List.length_append, List.length_append]
    dsimp only
    omega

end Setup

namespace Mapper

/-- Of two series of steps the same counts. -/
structure SameBuild (Γ : Catalogue) (taken taken' : List SetupStep) : Prop where
  valueTypes : ∀ t, .valueType t ∈ taken' ↔ .valueType t ∈ taken
  converters : ∀ id, Setup.lastConverter? Γ taken' id = Setup.lastConverter? Γ taken id
  settings : Setup.lastSettings taken' = Setup.lastSettings taken

variable {Γ : Catalogue} {taken taken' : List SetupStep}

theorem SameBuild.kin (h : SameBuild Γ taken taken') : (made Γ taken).Kin (made Γ taken') where
  types := (types_made Γ taken').trans (types_made Γ taken).symm
  settings := (Setup.tracks_steps Γ taken').settings.trans
    (h.settings.trans (Setup.tracks_steps Γ taken).settings.symm)

theorem SameBuild.sameAt (h : SameBuild Γ taken taken') (d : Descriptor) :
    (made Γ taken).SameAt (made Γ taken') d where
  covers := by
    have hcontains : (made Γ taken').valueTypes.contains = (made Γ taken).valueTypes.contains := by
      funext t
      rw [Bool.eq_iff_iff, made, made, Setup.mapper, Setup.mapper,
        ValueTypes.contains_extended_iff, ValueTypes.contains_extended_iff,
        Setup.mem_steps_valueTypes, Setup.mem_steps_valueTypes, h.valueTypes]
    simp only [ValueTypes.covers, hcontains]
  find? := ((Setup.tracks_steps Γ taken').find? d).trans
    ((h.converters d.id).trans ((Setup.tracks_steps Γ taken).find? d).symm)

/-- A mapper is told by the steps in which it was set up. The converter for an identity is the last
one that was registered for it; there are as many as identities; each further converter takes the
place of one, which is told; and mappers for which the same counts convert alike. -/
theorem made_determined (Γ : Catalogue) (taken : List SetupStep) :
    (∀ d, (made Γ taken).converters.find? d = Setup.lastConverter? Γ taken d.id) ∧
      (made Γ taken).converters.size = (Setup.identities Γ taken).toFinset.card ∧
      (Setup.told Γ taken).length + (made Γ taken).converters.size =
        (Setup.registered taken).length ∧
      (∀ s, Setup.told Γ (taken ++ [s]) =
        Setup.told Γ taken ++ Setup.replacement Γ taken s) ∧
      ∀ taken', SameBuild Γ taken taken' → ∀ source target,
        (made Γ taken').convert source target = (made Γ taken).convert source target := by
  have htracks := Setup.tracks_steps Γ taken
  refine ⟨htracks.find?, htracks.size_eq, Setup.length_told Γ taken, Setup.told_concat Γ taken,
    fun taken' h source target => scope_local h.kin 0 fun s t _ => ⟨?_, ?_⟩⟩
  · exact fun x _ p y _ => h.sameAt _
  · exact fun x _ d _ => (h.sameAt t).find?

/-! The first of two converters for lamps is replaced, and whether amounts are registered before or
after makes no difference. -/

def darkConverter : Converter := { lampConverter with fromDocument _ := .ok (lamp false) }

def officeSteps : List SetupStep :=
  [.converter lampConverter, .valueType (.named "Money"), .settings ⟨0, false⟩,
    .converter darkConverter, .settings ⟨3, true⟩]

def tidySteps : List SetupStep :=
  [.settings ⟨3, true⟩, .converter darkConverter, .valueType (.named "Money"),
    .valueType (.named "Money")]

theorem sameBuild_office : SameBuild officeSetup.types officeSteps tidySteps where
  valueTypes t := by simp [officeSteps, tidySteps]
  converters id := by
    have htidy : Setup.registered tidySteps = [darkConverter] := rfl
    have hoffice : Setup.registered officeSteps = [lampConverter, darkConverter] := rfl
    have hsame : lampConverter.entity = darkConverter.entity := rfl
    by_cases h : (officeSetup.types.descriptor darkConverter.entity).id = id <;>
      simp [Setup.lastConverter?, htidy, hoffice, hsame, h]
  settings := rfl

theorem made_determined_office :
    Setup.told officeSetup.types officeSteps = [.converterReplaced "Lamp"] ∧
      (made officeSetup.types officeSteps).converters.size = 1 ∧
      ((made officeSetup.types tidySteps).convert (some (.document .empty))
        (officeSetup.types.descriptor (.named "Lamp"))).result =
        .ok (.decoded (lamp false)) := by
  obtain ⟨-, hsize, -, -, hconvert⟩ := made_determined officeSetup.types officeSteps
  refine ⟨rfl, hsize.trans (by decide), ?_⟩
  rw [hconvert tidySteps sameBuild_office]
  rfl

end Mapper

end ObjectDocument
