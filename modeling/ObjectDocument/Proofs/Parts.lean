import ObjectDocument.Mapper

/-!
# Entities part by part

Encoding an entity folds over its mapped fields and collects a document; decoding folds over them
and replaces parts of the default instance. Both are the same as going through the declared fields
once, each with its own part: `encode_entity` and `decode_entity`. Everything later is proved
about these two lists, so neither replacing a part nor looking one up by its key comes up again.
-/

namespace ObjectDocument

namespace Traced
variable {α β : Type}

theorem under_eq_ok {segment : String} {x : Traced α} {a : α} :
    (x.under segment).result = .ok a ↔ x.result = .ok a := by
  rw [under_result]
  cases x.result with
  | ok b => exact Iff.rfl
  | error e => constructor <;> intro h <;> cases h

theorem under_bind_ok (segment : String) (x : Traced α) (f : α → β) :
    (x >>= fun a => ok (f a)).under segment = x.under segment >>= fun a => ok (f a) := by
  obtain ⟨events, result⟩ := x
  cases result <;> rfl

theorem bind_congr {x : Traced α} {f g : α → Traced β}
    (h : ∀ a, x.result = .ok a → f a = g a) : x >>= f = x >>= g := by
  obtain ⟨events, result⟩ := x
  cases result with
  | error e => rfl
  | ok a =>
    show bind _ f = bind _ g
    simp only [bind, h a rfl]

theorem foldlM_congr {f g : β → α → Traced β} {P : β → Prop} {l : List α} {b : β} (hb : P b)
    (h : ∀ b, P b → ∀ a ∈ l, f b a = g b a)
    (hP : ∀ b, P b → ∀ a ∈ l, ∀ c, (g b a).result = .ok c → P c) : l.foldlM f b = l.foldlM g b := by
  induction l generalizing b with
  | nil => rfl
  | cons a l ih =>
    rw [List.foldlM_cons, List.foldlM_cons, h b hb a List.mem_cons_self]
    refine bind_congr fun c hc => ih (hP b hb a List.mem_cons_self c hc) ?_ ?_
    · exact fun b hb a ha => h b hb a (List.mem_cons_of_mem _ ha)
    · exact fun b hb a ha => hP b hb a (List.mem_cons_of_mem _ ha)

end Traced

namespace EntityDecl

theorem key?_ne {d : EntityDecl} {before after : List FieldDecl} {f : FieldDecl} {spec : FieldSpec}
    (hd : d.fields = before ++ f :: after) (hf : f.mapping = some spec) :
    ∀ g ∈ before, g.key? ≠ some spec.name := by
  intro g hg he
  have hn := d.keys_nodup
  rw [hd, List.filterMap_append, List.nodup_append] at hn
  refine hn.2.2 spec.name (List.mem_filterMap.2 ⟨g, hg, he⟩) spec.name ?_ rfl
  exact List.mem_filterMap.2 ⟨f, by simp, by simp [FieldDecl.key?, hf]⟩

theorem field?_eq {d : EntityDecl} {before after : List FieldDecl} {f : FieldDecl}
    {spec : FieldSpec} (hd : d.fields = before ++ f :: after) (hf : f.mapping = some spec) :
    d.field? spec.name = some f := by
  have hne := key?_ne hd hf
  rw [field?, hd, List.find?_append, List.find?_eq_none.2 (by simpa using hne)]
  simp [FieldDecl.key?, hf]

theorem getPart_append {key : String} {before after : List FieldDecl} {f : FieldDecl}
    {ys xs : List Datum} {x : Datum} (hlen : ys.length = before.length)
    (hne : ∀ g ∈ before, g.key? ≠ some key) (hf : f.key? = some key) :
    getPart key (before ++ f :: after) (ys ++ x :: xs) = some x := by
  induction before generalizing ys with
  | nil =>
    cases List.length_eq_zero_iff.1 hlen
    simp [getPart, hf]
  | cons g before ih =>
    obtain ⟨y, ys, rfl⟩ := List.exists_cons_of_length_eq_add_one hlen
    simp only [List.forall_mem_cons] at hne
    simp [getPart, hne.1, ih (by simpa using hlen) hne.2]

theorem setPart_append {key : String} {before after : List FieldDecl} {f : FieldDecl}
    {ys xs : List Datum} {x y : Datum} (hlen : ys.length = before.length)
    (hne : ∀ g ∈ before, g.key? ≠ some key) (hf : f.key? = some key) :
    setPart key y (before ++ f :: after) (ys ++ x :: xs) = ys ++ y :: xs := by
  induction before generalizing ys with
  | nil =>
    cases List.length_eq_zero_iff.1 hlen
    simp [setPart, hf]
  | cons g before ih =>
    obtain ⟨z, ys, rfl⟩ := List.exists_cons_of_length_eq_add_one hlen
    simp only [List.forall_mem_cons] at hne
    simp [setPart, hne.1, ih (by simpa using hlen) hne.2]

end EntityDecl

theorem Catalogue.descriptor_entity {Γ : Catalogue} {name : String} {decl : EntityDecl}
    (hd : Γ.find? name = some (.entity decl)) :
    Γ.descriptor (.named name) = .of (.named name) (.entity (decl.schema name)) := by
  simp [descriptor, hd]

section
variable {Γ : Catalogue} {name : String}

theorem Catalogue.id_descriptor_named (h : ∀ host, Γ.find? name ≠ some (.host host)) :
    (Γ.descriptor (.named name)).id = .named name := by
  rw [descriptor]
  split
  next => rfl
  next => simp [Descriptor.of, Descriptor.standingInFor]
  next host hhost => exact absurd hhost (h host)
  next => rfl

theorem Catalogue.exists_entity_of_schema? (h : ∀ host, Γ.find? name ≠ some (.host host))
    {schema : Schema} (hs : (Γ.descriptor (.named name)).schema? = some schema) :
    ∃ decl, Γ.find? name = some (.entity decl) ∧ schema = decl.schema name := by
  rw [descriptor] at hs
  split at hs
  next decl hd =>
    cases hs
    exact ⟨decl, hd, rfl⟩
  next => simp [Descriptor.of, Descriptor.standingInFor, Descriptor.schema?] at hs
  next host hhost => exact absurd hhost (h host)
  next => cases hs

end

namespace Document

theorem insert_of_notMem {d : Document} {name : String} (v : Value) (h : name ∉ d.keys) :
    d.insert name v = ⟨d.entries ++ [(name, v)]⟩ := by
  obtain ⟨entries⟩ := d
  have : (putEntries name v entries).2 = entries ++ [(name, v)] := by
    induction entries with
    | nil => rfl
    | cons e rest ih =>
      simp only [keys, List.map_cons, List.mem_cons, not_or] at h
      simp [putEntries, Ne.symm h.1, ih h.2]
  simp [insert, put, this]

theorem get?_of_mem {d : Document} (hn : d.keys.Nodup) {k : String} {v : Value}
    (h : (k, v) ∈ d.entries) : d.get? k = some v := by
  obtain ⟨before, after, he⟩ := List.append_of_mem h
  refine List.lookup_eq_some_iff.2 ⟨before, after, he, fun p hp => ?_⟩
  rw [keys, he, List.map_append, List.nodup_append] at hn
  have := hn.2.2 p.1 (List.mem_map_of_mem hp) k (by simp)
  simpa using this.symm

end Document

namespace Mapper
variable (m : Mapper)

/-! ## Decoding -/

def readValue (stage : Stage) (t : Ty) (v : Value) : Traced Datum :=
  (m.types.fromValue t v).run (m.convertAt stage)

def readPart (stage : Stage) (name : String) (d : Document) (f : FieldDecl) : Traced Datum :=
  match f.mapping with
  | none => .ok f.default
  | some spec =>
    match d.get? spec.name with
    | some v => (m.readValue stage f.ty v).under spec.name
    | none =>
      if spec.required then .fail (.missingField name spec.name)
      else do
        Traced.emit (.fieldAbsent name spec.name)
        pure f.default

def readParts (stage : Stage) (name : String) (d : Document) :
    List FieldDecl → Traced (List Datum)
  | [] => .ok []
  | f :: fields => do
    let x ← m.readPart stage name d f
    let xs ← readParts stage name d fields
    pure (x :: xs)

variable {m}

theorem decodeField_eq_ok {stage : Stage} {d : Document} {target : Descriptor} {x y : Datum}
    {spec : FieldSpec} (h : (m.decodeField stage d target x spec).result = .ok y) :
    y = x ∨ ∃ name parts parts', x = .record name parts ∧ y = .record name parts' := by
  rw [decodeField] at h
  split at h
  next v hv =>
    right
    rw [Traced.under_eq_ok] at h
    cases x with
    | record name parts =>
      rw [Catalogue.setField] at h
      split at h
      · split at h
        · rw [Dialogue.run_bind, Traced.bind_eq_ok] at h
          obtain ⟨part, -, hy⟩ := h
          cases hy
          exact ⟨_, _, _, rfl, rfl⟩
        · cases h
      · rw [Dialogue.run_bind, Traced.bind_eq_ok] at h
        obtain ⟨parts', -, hy⟩ := h
        cases hy
        exact ⟨_, _, _, rfl, rfl⟩
      · cases h
      · cases h
    | _ => cases h
  next =>
    split at h
    · cases h
    · cases h
      exact .inl rfl

/-- Reading one field replaces its part of the instance built so far. -/
theorem decodeField_eq {stage : Stage} {name : String} {decl : EntityDecl} {d : Document}
    {target : Descriptor} (hn : target.name = name) (hd : m.types.find? name = some (.entity decl))
    {before after : List FieldDecl} {f : FieldDecl} {spec : FieldSpec}
    (hf : decl.fields = before ++ f :: after) (hm : f.mapping = some spec)
    {ys xs : List Datum} (hlen : ys.length = before.length) :
    m.decodeField stage d target (.record name (ys ++ f.default :: xs)) spec =
      m.readPart stage name d f >>= fun x => .ok (.record name (ys ++ x :: xs)) := by
  simp only [decodeField, readPart, hm]
  cases d.get? spec.name with
  | none => cases spec.required <;> simp [hn] <;> rfl
  | some v =>
    have hk : f.key? = some spec.name := by simp [FieldDecl.key?, hm]
    have hset (y : Datum) : EntityDecl.setPart spec.name y (before ++ f :: after)
        (ys ++ f.default :: xs) = ys ++ y :: xs :=
      EntityDecl.setPart_append hlen (EntityDecl.key?_ne hf hm) hk
    simp only [Catalogue.setField, hd, EntityDecl.field?_eq hf hm, Dialogue.run_bind]
    simp only [hf, hset]
    exact Traced.under_bind_ok spec.name (m.readValue stage f.ty v)
      fun y => Datum.record name (ys ++ y :: xs)

theorem foldlM_decodeField {stage : Stage} {name : String} {decl : EntityDecl} {d : Document}
    {target : Descriptor} (hn : target.name = name) (hd : m.types.find? name = some (.entity decl))
    {before fields : List FieldDecl} (hf : decl.fields = before ++ fields) {ys : List Datum}
    (hlen : ys.length = before.length) :
    (fields.filterMap FieldDecl.mapping).foldlM (m.decodeField stage d target)
        (.record name (ys ++ fields.map FieldDecl.default)) =
      m.readParts stage name d fields >>= fun xs => .ok (.record name (ys ++ xs)) := by
  induction fields generalizing before ys with
  | nil => rfl
  | cons f fields ih =>
    have hf' : decl.fields = before ++ [f] ++ fields := by simpa using hf
    have hlen' (y : Datum) : (ys ++ [y]).length = (before ++ [f]).length := by simp [hlen]
    have step (y : Datum) := ih hf' (hlen' y)
    simp only [List.append_assoc, List.singleton_append] at step
    simp only [readParts, List.map_cons, List.filterMap_cons]
    cases hm : f.mapping with
    | none =>
      simp only [readPart, hm, step, Traced.ok_bind, Traced.bind_assoc]
      rfl
    | some spec =>
      simp only [List.foldlM_cons, decodeField_eq hn hd hf hm hlen, Traced.bind_assoc,
        Traced.ok_bind, step]
      rfl

theorem decode_entity {stage : Stage} {name : String} {decl : EntityDecl}
    (hd : m.types.find? name = some (.entity decl))
    (hc : m.converters.find? (m.types.descriptor (.named name)) = none) (d : Document) :
    m.decode (some stage) d (m.types.descriptor (.named name)) =
      m.readParts stage name d decl.fields >>= fun xs => .ok (.record name xs) := by
  have ht := Catalogue.descriptor_entity hd
  have hn : (m.types.descriptor (.named name)).name = name := by rw [ht]; rfl
  have hs : (m.types.descriptor (.named name)).schema? = some (decl.schema name) := by rw [ht]; rfl
  have hfold := @foldlM_decodeField m stage name decl d _ hn hd [] decl.fields rfl [] rfl
  simp only [decode, hc, hs]
  exact hfold

/-! ## Encoding -/

def storeParts (m : Mapper) (stage : Stage) :
    List FieldDecl → List Datum → Traced (List (String × Value))
  | f :: fields, x :: parts =>
    match f.mapping with
    | none => storeParts m stage fields parts
    | some spec => do
      let v ← (m.encodeValue stage x).under spec.name
      let entries ← storeParts m stage fields parts
      pure ((spec.name, v) :: entries)
  | _, _ => .ok []

theorem encodeField_eq {stage : Stage} {name : String} {decl : EntityDecl}
    (hd : m.types.find? name = some (.entity decl))
    {before after : List FieldDecl} {f : FieldDecl} {spec : FieldSpec}
    (hf : decl.fields = before ++ f :: after) (hm : f.mapping = some spec)
    {ys xs : List Datum} {x : Datum} (hlen : ys.length = before.length)
    {entries : List (String × Value)}
    (hkeys : entries.map Prod.fst = before.filterMap FieldDecl.key?) :
    m.encodeField stage (.record name (ys ++ x :: xs)) ⟨entries⟩ spec =
      (m.encodeValue stage x).under spec.name >>= fun v =>
        .ok ⟨entries ++ [(spec.name, v)]⟩ := by
  have hk : f.key? = some spec.name := by simp [FieldDecl.key?, hm]
  have hne := EntityDecl.key?_ne hf hm
  have hnew : spec.name ∉ (⟨entries⟩ : Document).keys := by
    show spec.name ∉ entries.map Prod.fst
    rw [hkeys, List.mem_filterMap]
    exact fun ⟨g, hg, he⟩ => hne g hg he
  simp only [encodeField, Catalogue.getField, hd, hf, EntityDecl.getPart_append hlen hne hk,
    Document.insert_of_notMem _ hnew]
  rfl

theorem foldlM_encodeField {stage : Stage} {name : String} {decl : EntityDecl}
    (hd : m.types.find? name = some (.entity decl)) {before fields : List FieldDecl}
    (hf : decl.fields = before ++ fields) {ys xs : List Datum} (hlen : ys.length = before.length)
    (hxs : xs.length = fields.length) {entries : List (String × Value)}
    (hkeys : entries.map Prod.fst = before.filterMap FieldDecl.key?) :
    (fields.filterMap FieldDecl.mapping).foldlM (m.encodeField stage (.record name (ys ++ xs)))
        ⟨entries⟩ =
      m.storeParts stage fields xs >>= fun more => .ok ⟨entries ++ more⟩ := by
  induction fields generalizing before ys xs entries with
  | nil =>
    cases List.length_eq_zero_iff.1 hxs
    simp [storeParts]
    rfl
  | cons f fields ih =>
    obtain ⟨x, xs, rfl⟩ := List.exists_cons_of_length_eq_add_one hxs
    have hf' : decl.fields = before ++ [f] ++ fields := by simpa using hf
    have hlen' : (ys ++ [x]).length = (before ++ [f]).length := by simp [hlen]
    have hxs' : xs.length = fields.length := by simpa using hxs
    have step (more : List (String × Value))
        (hm : more.map Prod.fst = (before ++ [f]).filterMap FieldDecl.key?) :=
      ih hf' hlen' hxs' hm
    simp only [List.append_assoc, List.singleton_append] at step
    cases hm : f.mapping with
    | none =>
      have hk : f.key? = none := by simp [FieldDecl.key?, hm]
      simp only [List.filterMap_cons, hm, storeParts]
      exact step entries (by simp [hkeys, hk])
    | some spec =>
      have hk : f.key? = some spec.name := by simp [FieldDecl.key?, hm]
      simp only [List.filterMap_cons, hm, storeParts, List.foldlM_cons,
        encodeField_eq hd hf hm hlen hkeys, Traced.bind_assoc, Traced.ok_bind]
      congr 1
      funext v
      rw [step _ (by simp [hkeys, hk])]
      simp only [List.append_assoc, List.singleton_append]
      rfl

theorem encode_entity {stage : Stage} {name : String} {decl : EntityDecl} {parts : List Datum}
    (hd : m.types.find? name = some (.entity decl))
    (hc : m.converters.find? (m.types.descriptor (.named name)) = none)
    (hlen : parts.length = decl.fields.length) :
    m.encode (some stage) (.record name parts) =
      m.storeParts stage decl.fields parts >>= fun entries => .ok ⟨entries⟩ := by
  have hfold := @foldlM_encodeField m stage name decl hd [] decl.fields rfl [] parts rfl hlen [] rfl
  simp only [List.nil_append] at hfold
  simp only [encode, encodeEntity, Catalogue.typeOf, Datum.ty, hc, Catalogue.view, hd,
    Catalogue.fields]
  exact hfold

end Mapper

end ObjectDocument
