import ObjectDocument.Proofs.Path
import ObjectDocument.Proofs.Stages
import ObjectDocument.Proofs.Widening

/-!
# The grammar of a type

Which documents are read as a type, and as which object, is told by the type alone: `Matches` goes
through the type and the value together and counts the entities above. Where a value does not
match, reading has come through all that stands before some place (`Leads`) and cannot go on there
(`Faulty`). One induction on the levels left and the type accounts for both (`readValue_gives`).
-/

namespace ObjectDocument

/-! ## Scalars -/

/-- The values that are taken as a scalar. A number is taken in another format as the number that
it is. -/
inductive AtomType.Takes (nan : WideNaN) : AtomType → Value → Atom → Prop where
  | bool (b : Bool) : Takes nan .bool (.bool b) (.bool b)
  | char (c : Char) : Takes nan .char (.char c) (.char c)
  | int64 {t : IntType} {n : Integer .i64} {a : Integer t} :
      a.val = n.val → Takes nan (.integer t) (.int64 n) (.integer a)
  | uint64 {t : IntType} {n : Integer .u64} {a : Integer t} :
      a.val = n.val → Takes nan (.integer t) (.uint64 n) (.integer a)
  | float32 (x : Binary32) : Takes nan .float32 (.float32 x) (.float32 x)
  | narrowed {x : Binary64} {y : Binary32} :
      y.widen nan = x → x.isNaN = false → Takes nan .float32 (.float64 x) (.float32 y)
  | float64 (x : Binary64) : Takes nan .float64 (.float64 x) (.float64 x)
  | widened (x : Binary32) : Takes nan .float64 (.float32 x) (.float64 (x.widen nan))
  | text (s : String) : Takes nan .text (.string s) (.text s)
  | bytes (bs : List UInt8) : Takes nan .bytes (.bytes bs) (.bytes bs)
  | id (i : DocumentId) : Takes nan .id (.id i) (.id i)
  | timestamp (t : Timestamp) : Takes nan .timestamp (.timestamp t) (.timestamp t)

theorem AtomType.ofValue?_eq_some_iff {nan : WideNaN} {a : AtomType} {v : Value} {b : Atom} :
    a.ofValue? nan v = some b ↔ a.Takes nan v b := by
  constructor
  · intro h
    cases a <;> cases v <;>
      simp only [ofValue?, Value.asFloat64?, Option.map_some, Option.map_none, Option.some.injEq,
        Option.map_eq_some_iff, Integer.ofInt?_eq_some_iff, Binary64.narrow?_eq_some_iff,
        reduceCtorEq] at h
    case integer.int64 | integer.uint64 =>
      obtain ⟨n, hn, rfl⟩ := h
      first | exact .int64 hn | exact .uint64 hn
    case float32.float64 =>
      obtain ⟨y, ⟨hy, hx⟩, rfl⟩ := h
      exact .narrowed hy hx
    all_goals
      subst h
      constructor
  · intro h
    cases h with
    | int64 h | uint64 h => simp [ofValue?, Integer.ofInt?_eq_some_iff.2 h]
    | narrowed hy hx => simp [ofValue?, Binary64.narrow?_eq_some_iff.2 ⟨hy, hx⟩]
    | _ => rfl

namespace Mapper
variable (m : Mapper)

/-! ## Values -/

mutual

/-- What a value below so many entities is as an object of a type. -/
inductive Matches : Nat → Ty → Value → Datum → Prop where
  | atom {k : Nat} {a : AtomType} {v : Value} {b : Atom} :
      a.Takes m.types.wideNaN v b → Matches k (.atom a) v (.atom b)
  | document {k : Nat} (d : Document) : Matches k .document (.document d) (.document d)
  | seq {k : Nat} {t : Ty} {vs : List Value} {xs : List Datum} :
      MatchesItems k t vs xs → Matches k (.seq t) (.array vs) (.seq t xs)
  | none {k : Nat} (t : Ty) : Matches k (.option t) .null (.none t)
  | some {k : Nat} {t : Ty} {v : Value} {x : Datum} :
      v ≠ .null → Matches k t v x → Matches k (.option t) v (.some x)
  | boxed {k : Nat} {t : Ty} {v : Value} {x : Datum} :
      Matches k t v x → Matches k (.box t) v (.boxed x)
  | variant {k : Nat} {name variant s : String} {d : EnumDecl} {v : Value} :
      m.types.find? name = some (.enum d) → (variant, s) ∈ d.variants →
      v = .enum s ∨ v = .string s → Matches k (.named name) v (.variant name variant)
  | entity {k : Nat} {name : String} {decl : EntityDecl} {d : Document} {parts : List Datum} :
      m.types.find? name = some (.entity decl) → k ≤ m.settings.maxDepth →
      MatchesParts k d decl.fields parts →
      Matches k (.named name) (.document d) (.record name parts)

inductive MatchesItems : Nat → Ty → List Value → List Datum → Prop where
  | nil {k : Nat} {t : Ty} : MatchesItems k t [] []
  | cons {k : Nat} {t : Ty} {v : Value} {x : Datum} {vs : List Value} {xs : List Datum} :
      Matches k t v x → MatchesItems k t vs xs → MatchesItems k t (v :: vs) (x :: xs)

inductive MatchesPart : Nat → Document → FieldDecl → Datum → Prop where
  | skipped {k : Nat} {d : Document} {f : FieldDecl} :
      f.mapping = none → MatchesPart k d f f.default
  | absent {k : Nat} {d : Document} {f : FieldDecl} {spec : FieldSpec} :
      f.mapping = some spec → spec.required = false → d.get? spec.name = none →
      MatchesPart k d f f.default
  | present {k : Nat} {d : Document} {f : FieldDecl} {spec : FieldSpec} {v : Value} {x : Datum} :
      f.mapping = some spec → d.get? spec.name = some v → Matches (k + 1) f.ty v x →
      MatchesPart k d f x

inductive MatchesParts : Nat → Document → List FieldDecl → List Datum → Prop where
  | nil {k : Nat} {d : Document} : MatchesParts k d [] []
  | cons {k : Nat} {d : Document} {f : FieldDecl} {x : Datum} {fields : List FieldDecl}
      {parts : List Datum} :
      MatchesPart k d f x → MatchesParts k d fields parts →
      MatchesParts k d (f :: fields) (x :: parts)

end

/-! ## Places that do not match -/

/-- Reading the first value as the first type comes along a path to the second, and all that is
read before it matches. -/
inductive Leads : Nat → Ty → Value → List Step → Nat → Ty → Value → Prop where
  | here (k : Nat) (t : Ty) (v : Value) : Leads k t v [] k t v
  | item {k l : Nat} {t u : Ty} {before after : List Value} {v w : Value} {xs : List Datum}
      {p : List Step} :
      m.MatchesItems k t before xs → Leads k t v p l u w →
      Leads k (.seq t) (.array (before ++ v :: after)) (.index before.length :: p) l u w
  | option {k l : Nat} {t u : Ty} {v w : Value} {p : List Step} :
      v ≠ .null → Leads k t v p l u w → Leads k (.option t) v p l u w
  | box {k l : Nat} {t u : Ty} {v w : Value} {p : List Step} :
      Leads k t v p l u w → Leads k (.box t) v p l u w
  | field {k l : Nat} {name : String} {decl : EntityDecl} {d : Document}
      {before after : List FieldDecl} {f : FieldDecl} {spec : FieldSpec} {xs : List Datum} {u : Ty}
      {v w : Value} {p : List Step} :
      m.types.find? name = some (.entity decl) → k ≤ m.settings.maxDepth →
      decl.fields = before ++ f :: after → m.MatchesParts k d before xs →
      f.mapping = some spec → d.get? spec.name = some v → Leads (k + 1) f.ty v p l u w →
      Leads k (.named name) (.document d) (.key spec.name :: p) l u w

/-- Why a value, or the document that it is, is not read as a type itself. -/
inductive Faulty : Nat → Ty → Value → Cause → Prop where
  | atom {k : Nat} {a : AtomType} {v : Value} :
      (∀ b, ¬ a.Takes m.types.wideNaN v b) → Faulty k (.atom a) v (.typeMismatch a.name v.kindName)
  | document {k : Nat} {v : Value} :
      (∀ d, v ≠ .document d) → Faulty k .document v (.typeMismatch Ty.document.name v.kindName)
  | seq {k : Nat} {t : Ty} {v : Value} :
      (∀ vs, v ≠ .array vs) → Faulty k (.seq t) v (.typeMismatch (Ty.seq t).name v.kindName)
  | enum {k : Nat} {name : String} {d : EnumDecl} {v : Value} :
      m.types.find? name = some (.enum d) → (∀ s, v ≠ .enum s ∧ v ≠ .string s) →
      Faulty k (.named name) v (.typeMismatch name v.kindName)
  | variant {k : Nat} {name s : String} {d : EnumDecl} {v : Value} :
      m.types.find? name = some (.enum d) → v = .enum s ∨ v = .string s →
      s ∉ d.variants.map Prod.snd →
      Faulty k (.named name) v (.typeMismatch name ("unknown variant '" ++ s ++ "'"))
  | entity {k : Nat} {name : String} {decl : EntityDecl} {v : Value} :
      m.types.find? name = some (.entity decl) → (∀ d, v ≠ .document d) →
      Faulty k (.named name) v (.typeMismatch name v.kindName)
  | tooDeep {k : Nat} {name : String} {decl : EntityDecl} {d : Document} :
      m.types.find? name = some (.entity decl) → m.settings.maxDepth < k →
      Faulty k (.named name) (.document d) (.depthExceeded m.settings.maxDepth)
  | missing {k : Nat} {name : String} {decl : EntityDecl} {d : Document}
      {before after : List FieldDecl} {f : FieldDecl} {spec : FieldSpec} {xs : List Datum} :
      m.types.find? name = some (.entity decl) → k ≤ m.settings.maxDepth →
      decl.fields = before ++ f :: after → m.MatchesParts k d before xs →
      f.mapping = some spec → spec.required = true → d.get? spec.name = none →
      Faulty k (.named name) (.document d) (.missingField name spec.name)

variable {m : Mapper}

theorem MatchesItems.append {k : Nat} {t : Ty} {vs ws : List Value} {xs ys : List Datum}
    (h : m.MatchesItems k t vs xs) (hw : m.MatchesItems k t ws ys) :
    m.MatchesItems k t (vs ++ ws) (xs ++ ys) := by
  induction vs generalizing xs with
  | nil => cases h; exact hw
  | cons v vs ih => cases h with | cons hv hr => exact .cons hv (ih hr)

theorem MatchesParts.append {k : Nat} {d : Document} {fs gs : List FieldDecl} {xs ys : List Datum}
    (h : m.MatchesParts k d fs xs) (hg : m.MatchesParts k d gs ys) :
    m.MatchesParts k d (fs ++ gs) (xs ++ ys) := by
  induction fs generalizing xs with
  | nil => cases h; exact hg
  | cons f fs ih => cases h with | cons hf hr => exact .cons hf (ih hr)

/-! ## What matches is read -/

mutual

theorem readValue_of_matches (hc : m.converters = .empty) (hv : ¬ m.DocumentsAreValues)
    {k room : Nat} {t : Ty} {v : Value} {x : Datum} (hk : k + room = m.settings.maxDepth + 1) :
    m.Matches k t v x → (m.readValue (m.stage room) t v).result = .ok x
  | .atom h => by
    rw [readValue_atom, AtomType.ofValue?_eq_some_iff.2 h]
    rfl
  | .document d => rfl
  | .seq h => by
    have hr := readItems_of_matches hc hv hk (i := 0) h
    rw [readValue_seq]
    exact Traced.bind_ok_eq_ok.2 ⟨_, hr, rfl⟩
  | .none t => rfl
  | .some hn h => by
    have hr := readValue_of_matches hc hv hk h
    rw [readValue_option, if_neg hn]
    exact Traced.bind_ok_eq_ok.2 ⟨_, hr, rfl⟩
  | .boxed h => by
    have hr := readValue_of_matches hc hv hk h
    rw [readValue_box]
    exact Traced.bind_ok_eq_ok.2 ⟨_, hr, rfl⟩
  | .variant hd hs h => by
    simp only [readValue_enum hd, Value.asName?_eq_some.2 h, EnumDecl.variant?_eq_some_iff.2 hs]
    rfl
  | .entity hd hle h => by
    -- an entity within the limit has a stage below it for its fields
    obtain ⟨below, rfl⟩ : ∃ below, room = below + 1 := ⟨room - 1, by omega⟩
    have hbelow : k + 1 + below = m.settings.maxDepth + 1 := by omega
    rw [readValue_entity_succ hv hd (find?_of_empty hc _), readParts_of_matches hc hv hbelow _ h]
    rfl

theorem readItems_of_matches (hc : m.converters = .empty) (hv : ¬ m.DocumentsAreValues)
    {k room : Nat} {t : Ty} {i : Nat} {vs : List Value} {xs : List Datum}
    (hk : k + room = m.settings.maxDepth + 1) :
    m.MatchesItems k t vs xs → (m.readItems (m.stage room) t i vs).result = .ok xs
  | .nil => rfl
  | .cons h hrest => by
    have hr := readValue_of_matches hc hv hk h
    have hrs := readItems_of_matches hc hv hk (i := i + 1) hrest
    simp only [readItems, Traced.bind_eq_ok, Traced.under_eq_ok]
    exact ⟨_, hr, _, hrs, rfl⟩

theorem readPart_of_matches (hc : m.converters = .empty) (hv : ¬ m.DocumentsAreValues)
    {k room : Nat} (hk : k + 1 + room = m.settings.maxDepth + 1) (name : String) {d : Document}
    {f : FieldDecl} {x : Datum} :
    m.MatchesPart k d f x → (m.readPart (m.stage room) name d f).result = .ok x
  | .skipped hf => by simp only [readPart, hf]; rfl
  | .absent hf hr hg => by simp only [readPart, hf, hg, hr]; rfl
  | .present hf hg h => by
    have hr := readValue_of_matches hc hv hk h
    simp only [readPart, hf, hg, Traced.under_eq_ok, hr]

theorem readParts_of_matches (hc : m.converters = .empty) (hv : ¬ m.DocumentsAreValues)
    {k room : Nat} (hk : k + 1 + room = m.settings.maxDepth + 1) (name : String) {d : Document}
    {fields : List FieldDecl} {parts : List Datum} :
    m.MatchesParts k d fields parts →
      (m.readParts (m.stage room) name d fields).result = .ok parts
  | .nil => rfl
  | .cons h hrest => by
    have hr := readPart_of_matches hc hv hk name h
    have hrs := readParts_of_matches hc hv hk name hrest
    simp only [readParts, Traced.bind_eq_ok]
    exact ⟨_, hr, _, hrs, rfl⟩

end

/-! ## What is read matches -/

def Fails (m : Mapper) (k : Nat) (t : Ty) (v : Value) (e : Failure) : Prop :=
  ∃ p l u w c, e = .structural (p.map Step.text) c ∧ m.Leads k t v p l u w ∧ m.Faulty l u w c

theorem Fails.here {k : Nat} {t : Ty} {v : Value} {c : Cause} (h : m.Faulty k t v c) :
    m.Fails k t v (.here c) :=
  ⟨[], k, t, v, c, rfl, .here k t v, h⟩

theorem Fails.option {k : Nat} {t : Ty} {v : Value} {e : Failure} (hv : v ≠ .null)
    (h : m.Fails k t v e) : m.Fails k (.option t) v e :=
  let ⟨p, l, u, w, c, he, hl, hf⟩ := h
  ⟨p, l, u, w, c, he, .option hv hl, hf⟩

theorem Fails.box {k : Nat} {t : Ty} {v : Value} {e : Failure} (h : m.Fails k t v e) :
    m.Fails k (.box t) v e :=
  let ⟨p, l, u, w, c, he, hl, hf⟩ := h
  ⟨p, l, u, w, c, he, .box hl, hf⟩

theorem readItems_gives {stage : Stage} {k : Nat} {t : Ty}
    (h : ∀ v, (m.readValue stage t v).Gives (m.Matches k t v) (m.Fails k t v))
    {before rest : List Value} {ys : List Datum} (hb : m.MatchesItems k t before ys) :
    (m.readItems stage t before.length rest).Gives (m.MatchesItems k t rest)
      (m.Fails k (.seq t) (.array (before ++ rest))) := by
  induction rest generalizing before ys with
  | nil => exact .nil
  | cons v rest ih =>
    have hfirst : ((m.readValue stage t v).under ("[" ++ toString before.length ++ "]")).Gives
        (m.Matches k t v) (m.Fails k (.seq t) (.array (before ++ v :: rest))) := by
      refine (h v).under ?_
      rintro e ⟨p, l, u, w, c, rfl, hl, hf⟩
      exact ⟨.index before.length :: p, l, u, w, c, rfl, .item hb hl, hf⟩
    refine hfirst.bind fun x hx => ?_
    -- the item that was read joins those before the place, for the rest to be read after it
    have hrest := ih (hb.append (.cons hx .nil))
    rw [List.length_append, List.append_assoc] at hrest
    exact hrest.bind fun xs hxs => .cons hx hxs

theorem readPart_gives {stage : Stage} {k : Nat} {name : String} {decl : EntityDecl} {d : Document}
    (hd : m.types.find? name = some (.entity decl)) (hk : k ≤ m.settings.maxDepth)
    {before after : List FieldDecl} {f : FieldDecl} (hfs : decl.fields = before ++ f :: after)
    (h : f.mapping.isSome → ∀ v,
      (m.readValue stage f.ty v).Gives (m.Matches (k + 1) f.ty v) (m.Fails (k + 1) f.ty v))
    {ys : List Datum} (hb : m.MatchesParts k d before ys) :
    (m.readPart stage name d f).Gives (m.MatchesPart k d f)
      (m.Fails k (.named name) (.document d)) := by
  cases hf : f.mapping with
  | none =>
    simp only [readPart, hf]
    exact .skipped hf
  | some spec =>
    simp only [readPart, hf]
    cases hg : d.get? spec.name with
    | none =>
      cases hr : spec.required with
      | true => exact .here (.missing hd hk hfs hb hf hr hg)
      | false => exact .absent hf hr hg
    | some v =>
      refine ((h (by simp [hf]) v).imp (fun x hx => .present hf hg hx) fun _ he => he).under ?_
      rintro e ⟨p, l, u, w, c, rfl, hl, hc⟩
      exact ⟨.key spec.name :: p, l, u, w, c, rfl, .field hd hk hfs hb hf hg hl, hc⟩

theorem readParts_gives {stage : Stage} {k : Nat} {name : String} {decl : EntityDecl}
    {d : Document} (hd : m.types.find? name = some (.entity decl)) (hk : k ≤ m.settings.maxDepth)
    {before fields : List FieldDecl} (hfs : decl.fields = before ++ fields)
    (h : ∀ f ∈ fields, f.mapping.isSome → ∀ v,
      (m.readValue stage f.ty v).Gives (m.Matches (k + 1) f.ty v) (m.Fails (k + 1) f.ty v))
    {ys : List Datum} (hb : m.MatchesParts k d before ys) :
    (m.readParts stage name d fields).Gives (m.MatchesParts k d fields)
      (m.Fails k (.named name) (.document d)) := by
  induction fields generalizing before ys with
  | nil => exact .nil
  | cons f fields ih =>
    refine (readPart_gives hd hk hfs (h f (by simp)) hb).bind fun x hx => ?_
    have hfs' : decl.fields = before ++ [f] ++ fields := by simpa using hfs
    have hrest := ih hfs' (fun g hg => h g (List.mem_cons_of_mem f hg)) (hb.append (.cons hx .nil))
    exact hrest.bind fun xs hxs => .cons hx hxs

theorem readValue_gives_of_entities (hc : m.converters = .empty) (hv : ¬ m.DocumentsAreValues)
    {stage : Stage} {k : Nat}
    (he : ∀ name decl, m.types.find? name = some (.entity decl) → m.Maps (.named name) → ∀ d,
      (m.readValue stage (.named name) (.document d)).Gives
        (m.Matches k (.named name) (.document d)) (m.Fails k (.named name) (.document d)))
    {t : Ty} (hm : m.Maps t) (v : Value) :
    (m.readValue stage t v).Gives (m.Matches k t v) (m.Fails k t v) := by
  induction t generalizing v with
  | unit | anyEnum => exact hm.handles.elim
  | atom a =>
    rw [readValue_atom]
    cases ha : a.ofValue? m.types.wideNaN v with
    | some b => exact .atom (AtomType.ofValue?_eq_some_iff.1 ha)
    | none =>
      refine .here (.atom fun b hb => ?_)
      simp [AtomType.ofValue?_eq_some_iff.2 hb] at ha
  | document =>
    rw [readValue_document]
    cases hd : v.asDocument? with
    | some d =>
      cases Value.asDocument?_eq_some.1 hd
      exact .document d
    | none => exact .here (.document (Value.asDocument?_eq_none.1 hd))
  | seq t ih =>
    rw [readValue_seq]
    cases hvs : v.asArray? with
    | some vs =>
      cases Value.asArray?_eq_some.1 hvs
      have hnil : m.MatchesItems k t [] [] := .nil
      exact (readItems_gives (ih hm.seq) hnil).bind fun xs hxs => .seq hxs
    | none => exact .here (.seq (Value.asArray?_eq_none.1 hvs))
  | option t ih =>
    rw [readValue_option]
    split
    next h =>
      subst h
      exact .none t
    next h =>
      exact ((ih hm.option v).imp (fun x hx => hx) fun e => .option h).bind fun x hx => .some h hx
  | box t ih =>
    rw [readValue_box]
    exact ((ih hm.box v).imp (fun x hx => hx) fun e => .box).bind fun x hx => .boxed hx
  | named name =>
    rcases hm.handles with ⟨decl, hd⟩ | ⟨decl, hd⟩ | ⟨e, hmem, -⟩
    · cases hdoc : v.asDocument? with
      | some d =>
        cases Value.asDocument?_eq_some.1 hdoc
        exact he name decl hd hm d
      | none =>
        have hr := @readValue_nested m stage hv name (.inl ⟨decl, hd⟩) v
        rw [hdoc] at hr
        rw [Traced.Gives, hr]
        exact .here (.entity hd (Value.asDocument?_eq_none.1 hdoc))
    · rw [readValue_enum hd]
      cases hs : v.asName? with
      | none => exact .here (.enum hd (Value.asName?_eq_none.1 hs))
      | some s =>
        have hs := Value.asName?_eq_some.1 hs
        dsimp only
        cases hvar : decl.variant? s with
        | some variant => exact .variant hd (EnumDecl.variant?_eq_some_iff.1 hvar) hs
        | none => exact .here (.variant hd hs (EnumDecl.variant?_eq_none_iff.1 hvar))
    · simp [hc, Converters.empty] at hmem

/-- With as many levels left as the entities above leave, what is read matches, and a failure is at
a place that does not. -/
theorem readValue_gives (hc : m.converters = .empty) (hv : ¬ m.DocumentsAreValues) {k room : Nat}
    (hk : k + room = m.settings.maxDepth + 1) {t : Ty} (hm : m.Maps t) (v : Value) :
    (m.readValue (m.stage room) t v).Gives (m.Matches k t v) (m.Fails k t v) := by
  induction room generalizing k t v with
  | zero =>
    -- no level is left: every entity is too deep, and only entities are
    refine readValue_gives_of_entities hc hv (fun name decl hd _ d => ?_) hm v
    rw [Traced.Gives, readValue_entity_zero hv hd]
    exact .here (.tooDeep hd (by omega))
  | succ room ih =>
    refine readValue_gives_of_entities hc hv (fun name decl hd hmn d => ?_) hm v
    have hnone := find?_of_empty hc (m.types.descriptor (.named name))
    have hcv := hasConverter_of_empty hc (.named name)
    have hbelow : k + 1 + room = m.settings.maxDepth + 1 := by omega
    have hall : decl.fields = [] ++ decl.fields := rfl
    have hparts : (m.readParts (m.stage room) name d decl.fields).Gives
        (m.MatchesParts k d decl.fields) (m.Fails k (.named name) (.document d)) :=
      readParts_gives hd (by omega) hall
        (fun f hf hs w => ih hbelow (hmn.field hd hcv hf hs) w) .nil
    rw [Traced.Gives, readValue_entity_succ hv hd hnone]
    rw [Traced.Gives] at hparts
    cases hr : (m.readParts (m.stage room) name d decl.fields).result with
    | ok xs =>
      rw [hr] at hparts
      exact .entity hd (by omega) hparts
    | error e =>
      rw [hr] at hparts
      exact hparts

/-! ## Whole documents -/

/-- A document is read as an entity exactly if it matches the type, and as the object that it
matches as. -/
theorem fromDocument_eq_ok_iff (hc : m.converters = .empty) (hv : ¬ m.DocumentsAreValues)
    {name : String} {decl : EntityDecl} (hd : m.types.find? name = some (.entity decl))
    (hm : m.Maps (.named name)) {d : Document} {x : Datum} :
    (m.fromDocument (.named name) d).result = .ok x ↔
      m.Matches 0 (.named name) (.document d) x := by
  have hk : 0 + (m.settings.maxDepth + 1) = m.settings.maxDepth + 1 := Nat.zero_add _
  rw [fromDocument_eq_readValue (.inl ⟨decl, hd⟩)]
  refine ⟨fun hr => ?_, readValue_of_matches hc hv hk⟩
  have hg := readValue_gives hc hv hk hm (.document d)
  rwa [Traced.Gives, hr] at hg

/-! A signal has a level, a state and signals below it, of which one level is allowed. -/

def stateDecl : EnumDecl where
  variants := [("On", "On"), ("Off", "off")]
  names_nodup := by decide

def signalDecl : EntityDecl where
  fields :=
    [⟨"level", .atom .float32, some ⟨"level", "f32", true⟩, .atom (.float32 ⟨0⟩)⟩,
      ⟨"state", .option (.named "State"), some ⟨"state", "Option<State>", false⟩,
        .none (.named "State")⟩,
      ⟨"below", .seq (.named "Signal"), some ⟨"below", "Vec<Signal>", false⟩,
        .seq (.named "Signal") []⟩]
  keys_nodup := by decide

def signalTypes : Catalogue :=
  ⟨[("State", .enum stateDecl), ("Signal", .entity signalDecl)], .quiet⟩

def signalMapper : Mapper := ⟨signalTypes, .extended [], .empty, ⟨1, true⟩⟩

theorem documentsAreValues_signal : ¬ signalMapper.DocumentsAreValues := by
  simp only [DocumentsAreValues]
  decide

theorem maps_signal : signalMapper.Maps (.named "Signal") := by
  refine Maps.of_closed (S := fun t => t ∈ [.named "Signal", .named "State", .atom .float32,
    .option (.named "State"), .seq (.named "Signal")]) ?handles ?seq ?option ?box ?field (by simp)
  case handles =>
    intro t ht
    simp only [List.mem_cons, List.not_mem_nil, or_false] at ht
    rcases ht with rfl | rfl | rfl | rfl | rfl
    · exact .inl ⟨signalDecl, rfl⟩
    · exact .inr (.inl ⟨stateDecl, rfl⟩)
    all_goals trivial
  case seq | option | box => simp
  case field =>
    intro name d f hS hd hf _
    obtain rfl | rfl : name = "Signal" ∨ name = "State" := by simpa using hS
    · cases hd
      simp only [signalDecl, List.mem_cons, List.not_mem_nil, or_false] at hf
      rcases hf with rfl | rfl | rfl <;> simp
    · cases hd

def signalDocument (below : List Value) : Document :=
  ⟨[("state", .string "off"), ("note", .null), ("level", .float64 ⟨0x3FF8000000000000⟩),
    ("below", .array below)]⟩

def signal (below : List Datum) : Datum :=
  .record "Signal" [.atom (.float32 ⟨0x3FC00000⟩), .some (.variant "State" "Off"),
    .seq (.named "Signal") below]

theorem fromDocument_eq_ok_iff_signal :
    signalMapper.Matches 0 (.named "Signal")
        (.document (signalDocument [.document (signalDocument [])])) (signal [signal []]) ∧
      ∀ x, ¬ signalMapper.Matches 0 (.named "Signal")
        (.document (signalDocument [.document (signalDocument []), .null])) x := by
  refine ⟨(fromDocument_eq_ok_iff rfl documentsAreValues_signal rfl maps_signal).1 rfl,
    fun x hx => ?_⟩
  have hr := (fromDocument_eq_ok_iff rfl documentsAreValues_signal rfl maps_signal).2 hx
  have he : (signalMapper.fromDocument (.named "Signal")
      (signalDocument [.document (signalDocument []), .null])).result =
    .error (.structural ["below", "[1]"] (.typeMismatch "Signal" "Null")) := rfl
  cases he.symm.trans hr

end Mapper

end ObjectDocument
