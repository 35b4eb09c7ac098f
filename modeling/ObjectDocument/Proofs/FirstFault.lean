import ObjectDocument.Proofs.Grammar

/-!
# The first fault

A failure of reading names the first place of a document that is not read, fields being read in the
order of their declaration and items in their order. Only fields and items are on its path. The
limit is passed after as many fields as it has levels and one more.
-/

namespace ObjectDocument

namespace Mapper
variable {m : Mapper}

theorem Leads.at? {k l : Nat} {t u : Ty} {v w : Value} {p : List Step}
    (h : m.Leads k t v p l u w) : v.at? p = some w := by
  induction h with
  | here => exact Value.at?_nil _
  | item _ _ ih => simpa [Value.at?] using ih
  | option _ _ ih => exact ih
  | box _ ih => exact ih
  | field _ _ _ _ _ hg _ ih => simpa [Value.at?, hg] using ih

theorem Leads.levels_eq {k l : Nat} {t u : Ty} {v w : Value} {p : List Step}
    (h : m.Leads k t v p l u w) : l = k + levels p := by
  induction h with
  | here => rfl
  | item _ _ ih => exact ih
  | option _ _ ih => exact ih
  | box _ ih => exact ih
  | field _ _ _ _ _ _ _ ih =>
    simp only [levels]
    omega

theorem Leads.le_succ_maxDepth {k l : Nat} {t u : Ty} {v w : Value} {p : List Step}
    (h : m.Leads k t v p l u w) (hk : k ≤ m.settings.maxDepth + 1) :
    l ≤ m.settings.maxDepth + 1 := by
  induction h with
  | here => exact hk
  | item _ _ ih => exact ih hk
  | option _ _ ih => exact ih hk
  | box _ ih => exact ih hk
  | field _ hle _ _ _ _ _ ih => exact ih (Nat.succ_le_succ hle)

theorem Faulty.depthExceeded {k limit : Nat} {t : Ty} {v : Value}
    (h : m.Faulty k t v (.depthExceeded limit)) :
    limit = m.settings.maxDepth ∧ m.settings.maxDepth < k := by
  cases h with
  | tooDeep _ hlt => exact ⟨rfl, hlt⟩

theorem MatchesParts.required {k : Nat} {d : Document} {fields : List FieldDecl}
    {parts : List Datum} (h : m.MatchesParts k d fields parts) {f : FieldDecl} {spec : FieldSpec}
    (hf : f ∈ fields) (hm : f.mapping = some spec) (hr : spec.required = true) :
    spec.name ∈ d.keys := by
  induction fields generalizing parts with
  | nil => simp at hf
  | cons g fields ih =>
    cases h with
    | cons hp hrest =>
      rcases List.mem_cons.1 hf with rfl | hf
      · cases hp with
        | skipped hn => simp [hm] at hn
        | absent hs hreq =>
          cases hm.symm.trans hs
          simp [hr] at hreq
        | present hs hg =>
          cases hm.symm.trans hs
          exact Document.get?_isSome.1 (by simp [hg])
      · exact ih hrest hf

theorem Faulty.missingField {k : Nat} {name key : String} {t : Ty} {v : Value}
    (h : m.Faulty k t v (.missingField name key)) :
    ∃ decl d before spec after, m.types.find? name = some (.entity decl) ∧ v = .document d ∧
      decl.specs = before ++ spec :: after ∧ spec.name = key ∧ spec.required = true ∧
      key ∉ d.keys ∧ ∀ s ∈ before, s.required = true → s.name ∈ d.keys := by
  cases h with
  | @missing _ decl d before after f spec xs hd _ hfs hb hm hr hg =>
    refine ⟨decl, d, before.filterMap FieldDecl.mapping, spec,
      after.filterMap FieldDecl.mapping, hd, rfl, ?_, rfl, hr, ?_, ?_⟩
    · simp [EntityDecl.specs, hfs, hm]
    · rw [← Document.get?_isSome, hg]
      nofun
    · intro s hs hreq
      obtain ⟨g, hg, hgm⟩ := List.mem_filterMap.1 hs
      exact hb.required hg hgm hreq

/-- Whether a failure names the first place of a document that is not read as an entity: what is
wrong there, the path to it, and in its text both. -/
def NamesFirstFault (m : Mapper) (name : String) (d : Document) (e : Failure) : Prop :=
  ∃ p u w c, e = .structural (p.map Step.text) c ∧
    e.text = c.reason.text ++ ": " ++ ": ".intercalate (p.map Step.text ++ [c.text]) ∧
    m.Leads 0 (.named name) (.document d) p (levels p) u w ∧
    (Value.document d).at? p = some w ∧ m.Faulty (levels p) u w c ∧
    (∀ entity key, c = .missingField entity key →
      ∃ decl d before spec after, m.types.find? entity = some (.entity decl) ∧ w = .document d ∧
        decl.specs = before ++ spec :: after ∧ spec.name = key ∧ spec.required = true ∧
        key ∉ d.keys ∧ ∀ s ∈ before, s.required = true → s.name ∈ d.keys) ∧
    ∀ limit, c = .depthExceeded limit →
      limit = m.settings.maxDepth ∧ levels p = m.settings.maxDepth + 1

theorem Fails.namesFirstFault {name : String} {d : Document} {e : Failure}
    (h : m.Fails 0 (.named name) (.document d) e) : m.NamesFirstFault name d e := by
  obtain ⟨p, l, u, w, c, rfl, hl, hf⟩ := h
  have hle := hl.le_succ_maxDepth (Nat.zero_le _)
  obtain rfl : l = levels p := by simpa using hl.levels_eq
  refine ⟨p, u, w, c, rfl, rfl, hl, hl.at?, hf, ?missing, ?limit⟩
  case missing =>
    rintro entity key rfl
    exact hf.missingField
  case limit =>
    rintro limit rfl
    obtain ⟨hlimit, hlt⟩ := hf.depthExceeded
    exact ⟨hlimit, by omega⟩

/-- When a document is not read as an entity, the failure names the first place that is not read. -/
theorem fromDocument_error (hc : m.converters = .empty) (hv : ¬ m.DocumentsAreValues)
    {name : String} {decl : EntityDecl} (hd : m.types.find? name = some (.entity decl))
    (hm : m.Maps (.named name)) {d : Document} {e : Failure}
    (he : (m.fromDocument (.named name) d).result = .error e) : m.NamesFirstFault name d e := by
  have hk : 0 + (m.settings.maxDepth + 1) = m.settings.maxDepth + 1 := Nat.zero_add _
  have hg := readValue_gives hc hv hk hm (.document d)
  rw [fromDocument_eq_readValue (.inl ⟨decl, hd⟩)] at he
  rw [Traced.Gives, he] at hg
  exact hg.namesFirstFault

theorem fromDocument_error_signal :
    let bare := signalDocument [.document (signalDocument []), .document ⟨[("state", .enum "Off")]⟩]
    let deep := signalDocument [.document (signalDocument [.document .empty]), .null]
    let missing := Failure.structural ["below", "[1]"] (.missingField "Signal" "level")
    let limit := Failure.structural ["below", "[0]", "below", "[0]"] (.depthExceeded 1)
    ((signalMapper.fromDocument (.named "Signal") bare).result = .error missing ∧
        signalMapper.NamesFirstFault "Signal" bare missing) ∧
      (signalMapper.fromDocument (.named "Signal") deep).result = .error limit ∧
        signalMapper.NamesFirstFault "Signal" deep limit :=
  ⟨⟨rfl, fromDocument_error rfl documentsAreValues_signal rfl maps_signal rfl⟩,
    rfl, fromDocument_error rfl documentsAreValues_signal rfl maps_signal rfl⟩

end Mapper

end ObjectDocument
