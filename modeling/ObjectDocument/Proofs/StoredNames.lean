import ObjectDocument.Document
import ObjectDocument.Json.Scalars

/-!
# Names of documents that are read back from storage

The operations of a document are those of an ordered map exactly if its names are distinct
(`mapLaws_iff_nodup`). Putting pairs one after the other keeps them distinct. Reading the stored
form takes the entries as they stand, so the documents in a value that was read have the names that
the stored form lists for them, in order and repeated ones included (`exists_in_iff_lists`).
-/

namespace ObjectDocument

namespace Document

/-- The laws of an ordered map: putting and removing a name say what was there, change the value
there and leave all others. -/
structure MapLaws (d : Document) : Prop where
  put_fst : ∀ name v, (d.put name v).1 = d.get? name
  get?_put : ∀ name v k, (d.put name v).2.get? k = if k = name then some v else d.get? k
  remove_fst : ∀ name, (d.remove name).1 = d.get? name
  get?_remove : ∀ name k, (d.remove name).2.get? k = if k = name then none else d.get? k
  contains_eq : ∀ name, d.contains name = (d.get? name).isSome

theorem removeEntries_fst (name : String) (entries : List (String × Value)) :
    (removeEntries name entries).1 = entries.lookup name := by
  induction entries with
  | nil => rfl
  | cons e rest ih => by_cases h : e.1 = name <;> grind [removeEntries]

theorem lookup_removeEntries {name k : String} (hk : k ≠ name) (entries : List (String × Value)) :
    (removeEntries name entries).2.lookup k = entries.lookup k := by
  induction entries with
  | nil => rfl
  | cons e rest ih => by_cases h : e.1 = name <;> grind [removeEntries]

theorem contains_eq_isSome (d : Document) (name : String) :
    d.contains name = (d.get? name).isSome := by
  rw [Bool.eq_iff_iff, contains_iff, get?_isSome]

theorem get?_erase_self {d : Document} {name : String} :
    (d.erase name).get? name = none ↔ d.keys.count name ≤ 1 := by
  have hmem : (d.erase name).get? name = none ↔ name ∉ d.keys.erase name := by
    rw [← keys_erase, ← get?_isSome, Option.not_isSome_iff_eq_none]
  rw [hmem, ← List.count_eq_zero, List.count_erase_self]
  omega

/-- A document is an ordered map exactly if no name in it is repeated: of a repeated name only the
first entry is removed. -/
theorem mapLaws_iff_nodup (d : Document) : d.MapLaws ↔ d.keys.Nodup := by
  rw [List.nodup_iff_count]
  constructor
  · intro h name
    apply get?_erase_self.1
    have hlaw := h.get?_remove name name
    rwa [if_pos rfl] at hlaw
  · intro h
    refine ⟨put_fst d, fun name v k => get?_insert d name k v,
      fun name => removeEntries_fst name d.entries, fun name k => ?_, contains_eq_isSome d⟩
    by_cases hk : k = name
    · subst hk
      rw [if_pos rfl]
      exact get?_erase_self.2 (h k)
    · rw [if_neg hk]
      exact lookup_removeEntries hk d.entries

inductive In (d : Document) : Value → Prop where
  | here : In d (.document d)
  | item {vs : List Value} {v : Value} : v ∈ vs → In d v → In d (.array vs)
  | entry {e : Document} {name : String} {v : Value} :
      (name, v) ∈ e.entries → In d v → In d (.document e)

end Document

namespace Json

def entryName? (lib : Scalars) : Json → Option String
  | .array [k, _] => lib.text.read k
  | _ => none

/-- The names that a document is listed with in a stored value, at whatever depth. -/
inductive Lists (lib : Scalars) : Json → List String → Prop where
  | here (entries : List Json) :
      Lists lib (.object [("Document", .array entries)]) (entries.filterMap (entryName? lib))
  | item {items : List Json} {j : Json} {names : List String} :
      j ∈ items → Lists lib j names → Lists lib (.object [("Array", .array items)]) names
  | entry {entries : List Json} {k j : Json} {names : List String} :
      .array [k, j] ∈ entries → Lists lib j names →
      Lists lib (.object [("Document", .array entries)]) names

end Json

variable {lib : Scalars}

namespace Value

/-! ## What is read -/

theorem atomOfJson?_plain {kind : String} {body : Json} {v : Value}
    (h : atomOfJson? lib kind body = some v) : v.asDocument? = none ∧ v.asArray? = none := by
  unfold atomOfJson? at h
  split at h
  case h_13 => cases h
  all_goals first
    | cases h; exact ⟨rfl, rfl⟩
    | obtain ⟨_, -, rfl⟩ := Option.map_eq_some_iff.1 h; exact ⟨rfl, rfl⟩

theorem ofJson?_cases {j : Json} {v : Value} (h : ofJson? lib j = some v) :
    (∃ items vs, j = .object [("Array", .array items)] ∧ itemsOfJson? lib items = some vs ∧
      v = .array vs) ∨
    (∃ items es, j = .object [("Document", .array items)] ∧ entriesOfJson? lib items = some es ∧
      v = .document ⟨es⟩) ∨
    v.asDocument? = none ∧ v.asArray? = none := by
  unfold ofJson? at h
  split at h
  case h_1 kind =>
    split at h
    · cases h
      exact .inr (.inr ⟨rfl, rfl⟩)
    · cases h
  case h_2 kind items =>
    split at h
    next hk =>
      obtain ⟨vs, hvs, rfl⟩ := Option.map_eq_some_iff.1 h
      exact .inl ⟨items, vs, by rw [hk], hvs, rfl⟩
    · split at h
      next hk =>
        obtain ⟨es, hes, rfl⟩ := Option.map_eq_some_iff.1 h
        exact .inr (.inl ⟨items, es, by rw [hk], hes, rfl⟩)
      · exact .inr (.inr (atomOfJson?_plain h))
  case h_3 => exact .inr (.inr (atomOfJson?_plain h))
  case h_4 => cases h

theorem ofJson?_eq_array {j : Json} {vs : List Value} :
    ofJson? lib j = some (.array vs) ↔
      ∃ items, j = .object [("Array", .array items)] ∧ itemsOfJson? lib items = some vs := by
  constructor
  · intro h
    rcases ofJson?_cases h with ⟨items, _, hj, hvs, he⟩ | ⟨_, _, _, _, he⟩ | ⟨-, he⟩
    · cases he
      exact ⟨items, hj, hvs⟩
    · cases he
    · cases he
  · intro ⟨items, hj, hvs⟩
    subst hj
    simp [ofJson?, hvs]

theorem ofJson?_eq_document {j : Json} {d : Document} :
    ofJson? lib j = some (.document d) ↔ ∃ items,
      j = .object [("Document", .array items)] ∧ entriesOfJson? lib items = some d.entries := by
  obtain ⟨es⟩ := d
  constructor
  · intro h
    rcases ofJson?_cases h with ⟨_, _, _, _, he⟩ | ⟨items, _, hj, hes, he⟩ | ⟨he, -⟩
    · cases he
    · cases he
      exact ⟨items, hj, hes⟩
    · cases he
  · intro ⟨items, hj, hes⟩
    subst hj
    simp [ofJson?, hes]

theorem itemsOfJson?_cons {j : Json} {items : List Json} {vs : List Value} :
    itemsOfJson? lib (j :: items) = some vs ↔
      ∃ v rest, ofJson? lib j = some v ∧ itemsOfJson? lib items = some rest ∧ vs = v :: rest := by
  rw [itemsOfJson?]
  cases ofJson? lib j <;> cases itemsOfJson? lib items <;> simp [eq_comm]

theorem itemsOfJson?_mem {items : List Json} {vs : List Value}
    (h : itemsOfJson? lib items = some vs) :
    (∀ v ∈ vs, ∃ j ∈ items, ofJson? lib j = some v) ∧
      ∀ j ∈ items, ∃ v ∈ vs, ofJson? lib j = some v := by
  induction items generalizing vs with
  | nil =>
    cases h
    simp
  | cons j items ih =>
    obtain ⟨v, rest, hv, hrest, rfl⟩ := itemsOfJson?_cons.1 h
    obtain ⟨hto, hfrom⟩ := ih hrest
    refine ⟨List.forall_mem_cons.2 ⟨⟨j, List.mem_cons_self, hv⟩, fun w hw => ?_⟩,
      List.forall_mem_cons.2 ⟨⟨v, List.mem_cons_self, hv⟩, fun k hk => ?_⟩⟩
    · obtain ⟨k, hk, hw⟩ := hto w hw
      exact ⟨k, List.mem_cons_of_mem j hk, hw⟩
    · obtain ⟨w, hw, hk⟩ := hfrom k hk
      exact ⟨w, List.mem_cons_of_mem v hw, hk⟩

theorem entriesOfJson?_cons {item : Json} {items : List Json} {es : List (String × Value)} :
    entriesOfJson? lib (item :: items) = some es ↔
      ∃ k j name v rest, item = .array [k, j] ∧ lib.text.read k = some name ∧
        ofJson? lib j = some v ∧ entriesOfJson? lib items = some rest ∧ es = (name, v) :: rest := by
  constructor
  · intro h
    unfold entriesOfJson? at h
    split at h
    case h_1 he => cases he
    case h_2 k j rest he =>
      cases he
      obtain ⟨name, hname, h⟩ := Option.bind_eq_some_iff.1 h
      obtain ⟨v, hv, h⟩ := Option.bind_eq_some_iff.1 h
      obtain ⟨es', hes, h⟩ := Option.bind_eq_some_iff.1 h
      cases h
      exact ⟨k, j, name, v, es', rfl, hname, hv, hes, rfl⟩
    case h_3 => cases h
  · rintro ⟨k, j, name, v, rest, rfl, hname, hv, hrest, rfl⟩
    simp [entriesOfJson?, hname, hv, hrest]

theorem entriesOfJson?_mem {items : List Json} {es : List (String × Value)}
    (h : entriesOfJson? lib items = some es) :
    es.map Prod.fst = items.filterMap (Json.entryName? lib) ∧
      (∀ name v, (name, v) ∈ es → ∃ k j, .array [k, j] ∈ items ∧ ofJson? lib j = some v) ∧
      ∀ k j, .array [k, j] ∈ items → ∃ name v, (name, v) ∈ es ∧ ofJson? lib j = some v := by
  induction items generalizing es with
  | nil =>
    cases h
    simp
  | cons item items ih =>
    obtain ⟨k, j, name, v, rest, rfl, hname, hv, hrest, rfl⟩ := entriesOfJson?_cons.1 h
    obtain ⟨hnames, hto, hfrom⟩ := ih hrest
    refine ⟨by simp [hnames, Json.entryName?, hname], fun n w hw => ?_, fun l i hi => ?_⟩
    · rcases List.mem_cons.1 hw with he | hw
      · cases he
        exact ⟨k, j, List.mem_cons_self, hv⟩
      · obtain ⟨l, i, hi, hw⟩ := hto n w hw
        exact ⟨l, i, List.mem_cons_of_mem _ hi, hw⟩
    · rcases List.mem_cons.1 hi with he | hi
      · cases he
        exact ⟨name, v, List.mem_cons_self, hv⟩
      · obtain ⟨n, w, hw, hi⟩ := hfrom l i hi
        exact ⟨n, w, List.mem_cons_of_mem _ hw, hi⟩

end Value

/-! ## Names -/

theorem Json.Lists.exists_in {j : Json} {names : List String} (h : j.Lists lib names) {v : Value}
    (hv : Value.ofJson? lib j = some v) : ∃ d : Document, d.In v ∧ d.keys = names := by
  induction h generalizing v with
  | here entries =>
    simp only [Value.ofJson?] at hv
    obtain ⟨es, hes, rfl⟩ := Option.map_eq_some_iff.1 hv
    exact ⟨⟨es⟩, .here, (Value.entriesOfJson?_mem hes).1⟩
  | item hj _ ih =>
    simp only [Value.ofJson?] at hv
    obtain ⟨vs, hvs, rfl⟩ := Option.map_eq_some_iff.1 hv
    obtain ⟨w, hw, hjw⟩ := (Value.itemsOfJson?_mem hvs).2 _ hj
    obtain ⟨d, hd, hkeys⟩ := ih hjw
    exact ⟨d, .item hw hd, hkeys⟩
  | entry hj _ ih =>
    simp only [Value.ofJson?] at hv
    obtain ⟨es, hes, rfl⟩ := Option.map_eq_some_iff.1 hv
    obtain ⟨_, w, hw, hjw⟩ := (Value.entriesOfJson?_mem hes).2.2 _ _ hj
    obtain ⟨d, hd, hkeys⟩ := ih hjw
    exact ⟨d, .entry hw hd, hkeys⟩

theorem Document.In.lists {d : Document} {v : Value} (h : d.In v) {j : Json}
    (hv : Value.ofJson? lib j = some v) : j.Lists lib d.keys := by
  induction h generalizing j with
  | here =>
    obtain ⟨entries, rfl, hes⟩ := Value.ofJson?_eq_document.1 hv
    have hnames : d.keys = entries.filterMap (Json.entryName? lib) :=
      (Value.entriesOfJson?_mem hes).1
    rw [hnames]
    exact .here entries
  | item hw _ ih =>
    obtain ⟨items, rfl, hvs⟩ := Value.ofJson?_eq_array.1 hv
    obtain ⟨j, hj, hjw⟩ := (Value.itemsOfJson?_mem hvs).1 _ hw
    exact .item hj (ih hjw)
  | entry hw _ ih =>
    obtain ⟨entries, rfl, hes⟩ := Value.ofJson?_eq_document.1 hv
    obtain ⟨_, j, hj, hjw⟩ := (Value.entriesOfJson?_mem hes).2.1 _ _ hw
    exact .entry hj (ih hjw)

namespace Value

theorem exists_in_iff_lists {j : Json} {v : Value} (hv : ofJson? lib j = some v)
    (names : List String) : (∃ d : Document, d.In v ∧ d.keys = names) ↔ j.Lists lib names := by
  constructor
  · intro ⟨d, hd, hkeys⟩
    subst hkeys
    exact hd.lists hv
  · intro h
    exact h.exists_in hv

/-- Documents that are read back are ordered maps exactly if the stored form repeats no name in any
document; nothing else makes sure of it. -/
theorem mapLaws_of_stored (lib : Scalars) (j : Json) :
    (∀ v, ofJson? lib j = some v →
      ((∀ d : Document, d.In v → d.MapLaws) ↔ ∀ names, j.Lists lib names → names.Nodup)) ∧
    (∀ d, Document.ofJson? lib j = some d →
      ((∀ e : Document, e.In (.document d) → e.MapLaws) ↔
        ∀ names, (Json.object [("Document", j)]).Lists lib names → names.Nodup)) ∧
    ∀ pairs, (Document.ofList pairs).MapLaws := by
  have hvalue {j : Json} {v : Value} (hv : ofJson? lib j = some v) :
      (∀ d : Document, d.In v → d.MapLaws) ↔ ∀ names, j.Lists lib names → names.Nodup := by
    simp only [Document.mapLaws_iff_nodup, ← exists_in_iff_lists hv]
    constructor
    · intro h names ⟨d, hd, hkeys⟩
      subst hkeys
      exact h d hd
    · intro h d hd
      exact h d.keys ⟨d, hd, rfl⟩
  refine ⟨fun v => hvalue, fun d hd => hvalue ?_, fun pairs => ?_⟩
  · cases j with
    | array entries =>
      obtain ⟨es, hes, rfl⟩ := Option.map_eq_some_iff.1 hd
      exact ofJson?_eq_document.2 ⟨entries, rfl, hes⟩
    | _ => cases hd
  · exact (Document.mapLaws_iff_nodup _).2 (Document.nodup_keys_ofList pairs)

/-- A text that gives a name twice is read, and the name is still there when it was removed. -/
theorem repeated_name_read :
    ∃ d, (Json.ofText? "[[\"a\",\"Null\"],[\"a\",\"Null\"]]").bind (Document.ofJson? .json) =
        some d ∧
      ¬ d.keys.Nodup ∧ (d.erase "a").contains "a" = true := by
  refine ⟨⟨[("a", .null), ("a", .null)]⟩, by cbv, by decide, by decide⟩

def nestedRepeat : Json :=
  .array [.array [.string "list", .object [("Array", .array [.object [("Document",
    .array [.array [.string "a", .string "Null"], .array [.string "a", .string "Null"]])]])]]]

theorem mapLaws_of_stored_nestedRepeat :
    ∃ d, Document.ofJson? .json nestedRepeat = some d ∧
      ¬ ∀ e : Document, e.In (.document d) → e.MapLaws := by
  refine ⟨_, rfl, fun h => ?_⟩
  have hnodup := ((mapLaws_of_stored .json nestedRepeat).2.1 _ rfl).1 h
  have hlists : (Json.object [("Document", nestedRepeat)]).Lists .json ["a", "a"] :=
    .entry List.mem_cons_self (.item List.mem_cons_self (.here _))
  exact absurd (hnodup _ hlists) (by decide)

end Value

end ObjectDocument
