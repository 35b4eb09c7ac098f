import ObjectDocument.Proofs.StoredNames

/-!
# Values that are read back from storage

What a value is stored as is read back as the value, with its entries in order and whatever names
they have. Of the libraries it is asked that the scalars in the value come back (`Returns`), and
that a number that is not finite is written as null, which is read as no number (`NullFloats`). So a
value with such a number is not read back at all.
-/

namespace ObjectDocument

structure Scalars.NullFloats (lib : Scalars) : Prop where
  write32 : ∀ x : Binary32, x.isFinite = false → lib.float32.write x = .null
  read32 : lib.float32.read .null = none
  write64 : ∀ x : Binary64, x.isFinite = false → lib.float64.write x = .null
  read64 : lib.float64.read .null = none

namespace Value

inductive Inside (w : Value) : Value → Prop where
  | here : Inside w w
  | item {vs : List Value} {v : Value} : v ∈ vs → Inside w v → Inside w (.array vs)
  | entry {d : Document} {name : String} {v : Value} :
      (name, v) ∈ d.entries → Inside w v → Inside w (.document d)

/-- Whether a value and all that stand in it are of a kind. -/
def Everywhere (P : Value → Prop) (v : Value) : Prop := ∀ w, Inside w v → P w

def Finite : Value → Prop
  | .float32 x => x.isFinite = true
  | .float64 x => x.isFinite = true
  | _ => True

/-- Whether the scalars of a value, the names of a document included, come back from what is written
of each alone. -/
def Returns (lib : Scalars) : Value → Prop
  | .null | .bool _ | .array _ => True
  | .char c => lib.text.Returns c.toString
  | .int64 n => (lib.integer .i64).Returns n
  | .uint64 n => (lib.integer .u64).Returns n
  | .float32 x => x.isFinite = true → lib.float32.Returns x
  | .float64 x => x.isFinite = true → lib.float64.Returns x
  | .string s | .enum s => lib.text.Returns s
  | .bytes bs => ∀ b ∈ bs, (lib.integer .u8).Returns (.ofByte b)
  | .id i => (lib.integer .u64).Returns i.number
  | .timestamp t => lib.timestamp.Returns t
  | .document d => ∀ e ∈ d.entries, lib.text.Returns e.1

theorem Everywhere.self {P : Value → Prop} {v : Value} (h : v.Everywhere P) : P v := h v .here

theorem Everywhere.item {P : Value → Prop} {vs : List Value} (h : (array vs).Everywhere P)
    {v : Value} (hv : v ∈ vs) : v.Everywhere P := fun w hw => h w (.item hv hw)

theorem Everywhere.entry {P : Value → Prop} {d : Document} (h : (document d).Everywhere P)
    {e : String × Value} (he : e ∈ d.entries) : e.2.Everywhere P := fun w hw => h w (.entry he hw)

theorem everywhere_array {P : Value → Prop} {vs : List Value} :
    (array vs).Everywhere P ↔ P (array vs) ∧ ∀ v ∈ vs, v.Everywhere P := by
  refine ⟨fun h => ⟨h.self, fun v => h.item⟩, fun ⟨hself, hitems⟩ w hw => ?_⟩
  cases hw with
  | here => exact hself
  | item hv hw => exact hitems _ hv w hw

theorem everywhere_document {P : Value → Prop} {d : Document} :
    (document d).Everywhere P ↔ P (document d) ∧ ∀ e ∈ d.entries, e.2.Everywhere P := by
  refine ⟨fun h => ⟨h.self, fun e => h.entry⟩, fun ⟨hself, hentries⟩ w hw => ?_⟩
  cases hw with
  | here => exact hself
  | entry he hw => exact hentries _ he w hw

theorem everywhere_plain {P : Value → Prop} {v : Value} (hd : v.asDocument? = none)
    (ha : v.asArray? = none) : v.Everywhere P ↔ P v := by
  refine ⟨Everywhere.self, fun h w hw => ?_⟩
  cases hw with
  | here => exact h
  | item => cases ha
  | entry => cases hd

variable {lib : Scalars}

theorem itemsToJson_eq_map (vs : List Value) : itemsToJson lib vs = vs.map (toJson lib) := by
  induction vs with
  | nil => rfl
  | cons v vs ih => rw [itemsToJson, ih, List.map_cons]

theorem entriesToJson_eq_map (es : List (String × Value)) :
    entriesToJson lib es = es.map fun e => .array [lib.text.write e.1, e.2.toJson lib] := by
  induction es with
  | nil => rfl
  | cons e es ih => rw [entriesToJson, ih, List.map_cons]

theorem ofJson?_atom {kind : String} (ha : kind ≠ "Array") (hd : kind ≠ "Document") (body : Json) :
    ofJson? lib (.object [(kind, body)]) = atomOfJson? lib kind body := by
  cases body with
  | array items => rw [ofJson?, if_neg ha, if_neg hd]
  | _ => rfl

/-! ## Scalars -/

theorem bytesOfJson?_bytesToJson {bs : List UInt8}
    (h : ∀ b ∈ bs, (lib.integer .u8).Returns (.ofByte b)) :
    bytesOfJson? lib (bytesToJson lib bs) = some bs := by
  rw [bytesToJson, bytesOfJson?]
  induction bs with
  | nil => rfl
  | cons b bs ih =>
    have hb : (lib.integer .u8).read ((lib.integer .u8).write (.ofByte b)) = some (.ofByte b) :=
      h b List.mem_cons_self
    rw [List.map_cons, List.mapM_cons, hb, ih fun c hc => h c (List.mem_cons_of_mem b hc),
      Option.map_some, Integer.toByte_ofByte]
    rfl

theorem charOfJson?_write {c : Char} (h : lib.text.Returns c.toString) :
    charOfJson? lib (lib.text.write c.toString) = some c := by
  have hread : lib.text.read (lib.text.write c.toString) = some c.toString := h
  rw [charOfJson?, hread, Option.bind_some, Char.toString, String.toList_singleton]

theorem ofJson?_scalar {α : Type} {c : Codec α} {a : α} {kind : String} {f : α → Value}
    (ha : kind ≠ "Array") (hd : kind ≠ "Document")
    (hkind : ∀ j, atomOfJson? lib kind j = (c.read j).map f) (h : c.Returns a) :
    ofJson? lib (.object [(kind, c.write a)]) = some (f a) := by
  have hread : c.read (c.write a) = some a := h
  rw [ofJson?_atom ha hd, hkind, hread, Option.map_some]

/-! ## Trees -/

mutual

theorem ofJson?_toJson {v : Value} (hf : v.Everywhere Finite) (hr : v.Everywhere (Returns lib)) :
    ofJson? lib (v.toJson lib) = some v := by
  match v with
  | .null | .bool _ => rfl
  | .int64 _ | .uint64 _ | .string _ | .enum _ | .timestamp _ =>
    exact ofJson?_scalar (by decide) (by decide) (fun _ => rfl) hr.self
  | .float32 _ | .float64 _ =>
    exact ofJson?_scalar (by decide) (by decide) (fun _ => rfl) (hr.self hf.self)
  | .char c =>
    rw [toJson, ofJson?_atom (by decide) (by decide)]
    exact congrArg (Option.map Value.char) (charOfJson?_write hr.self)
  | .bytes bs =>
    rw [toJson, ofJson?_atom (by decide) (by decide)]
    exact congrArg (Option.map Value.bytes) (bytesOfJson?_bytesToJson hr.self)
  | .id i =>
    have hread : (lib.integer .u64).read ((lib.integer .u64).write i.number) = some i.number :=
      hr.self
    rw [toJson, ofJson?_atom (by decide) (by decide), atomOfJson?, DocumentId.ofJson?,
      DocumentId.toJson, hread]
    rfl
  | .document ⟨entries⟩ =>
    exact ofJson?_eq_document.2
      ⟨_, rfl, entriesOfJson?_toJson (fun _ => hf.entry) hr.self fun _ => hr.entry⟩
  | .array items =>
    exact ofJson?_eq_array.2 ⟨_, rfl, itemsOfJson?_toJson (fun _ => hf.item) fun _ => hr.item⟩

theorem itemsOfJson?_toJson {vs : List Value} (hf : ∀ v ∈ vs, v.Everywhere Finite)
    (hr : ∀ v ∈ vs, v.Everywhere (Returns lib)) :
    itemsOfJson? lib (itemsToJson lib vs) = some vs := by
  match vs with
  | [] => rfl
  | v :: vs =>
    have hv := ofJson?_toJson (hf v List.mem_cons_self) (hr v List.mem_cons_self)
    have hvs := itemsOfJson?_toJson (fun w hw => hf w (List.mem_cons_of_mem v hw))
      fun w hw => hr w (List.mem_cons_of_mem v hw)
    exact itemsOfJson?_cons.2 ⟨v, vs, hv, hvs, rfl⟩

theorem entriesOfJson?_toJson {es : List (String × Value)}
    (hf : ∀ e ∈ es, e.2.Everywhere Finite) (hn : ∀ e ∈ es, lib.text.Returns e.1)
    (hr : ∀ e ∈ es, e.2.Everywhere (Returns lib)) :
    entriesOfJson? lib (entriesToJson lib es) = some es := by
  match es with
  | [] => rfl
  | (name, v) :: es =>
    have hv := ofJson?_toJson (hf (name, v) List.mem_cons_self) (hr (name, v) List.mem_cons_self)
    have hes := entriesOfJson?_toJson (fun e he => hf e (List.mem_cons_of_mem _ he))
      (fun e he => hn e (List.mem_cons_of_mem _ he)) fun e he => hr e (List.mem_cons_of_mem _ he)
    exact entriesOfJson?_cons.2
      ⟨_, _, name, v, es, rfl, hn (name, v) List.mem_cons_self, hv, hes, rfl⟩

end

theorem ofJson?_toJson_eq_none (hfloats : lib.NullFloats) {v w : Value} (h : Inside w v)
    (hw : ¬ w.Finite) : ofJson? lib (v.toJson lib) = none := by
  induction h with
  | here =>
    cases w with
    | float32 x =>
      rw [toJson, ofJson?_atom (by decide) (by decide), hfloats.write32 x (Bool.eq_false_iff.2 hw)]
      exact congrArg (Option.map Value.float32) hfloats.read32
    | float64 x =>
      rw [toJson, ofJson?_atom (by decide) (by decide), hfloats.write64 x (Bool.eq_false_iff.2 hw)]
      exact congrArg (Option.map Value.float64) hfloats.read64
    | _ => exact absurd trivial hw
  -- what is read of the whole would hold something that is read of the part
  | @item vs v hv _ ih =>
    refine Option.eq_none_iff_forall_ne_some.2 fun u hu => ?_
    rw [toJson, itemsToJson_eq_map] at hu
    obtain ⟨ws, hws, -⟩ := Option.map_eq_some_iff.1 hu
    obtain ⟨u, -, hu⟩ := (itemsOfJson?_mem hws).2 (v.toJson lib) (List.mem_map_of_mem hv)
    rw [ih] at hu
    cases hu
  | @entry d name v hv _ ih =>
    obtain ⟨entries⟩ := d
    refine Option.eq_none_iff_forall_ne_some.2 fun u hu => ?_
    rw [toJson, Document.toJson, entriesToJson_eq_map] at hu
    obtain ⟨es, hes, -⟩ := Option.map_eq_some_iff.1 hu
    have hmem := List.mem_map_of_mem
      (f := fun e : String × Value => Json.array [lib.text.write e.1, e.2.toJson lib]) hv
    obtain ⟨_, u, -, hu⟩ := (entriesOfJson?_mem hes).2.2 _ (v.toJson lib) hmem
    rw [ih] at hu
    cases hu

theorem ofJson?_toJson_iff (hfloats : lib.NullFloats) {v : Value}
    (hr : v.Everywhere (Returns lib)) :
    (ofJson? lib (v.toJson lib) = some v ↔ v.Everywhere Finite) ∧
      (¬ v.Everywhere Finite → ofJson? lib (v.toJson lib) = none) := by
  have hnone (h : ¬ v.Everywhere Finite) : ofJson? lib (v.toJson lib) = none := by
    obtain ⟨w, h⟩ := Classical.not_forall.1 h
    obtain ⟨hw, hnot⟩ := Classical.not_imp.1 h
    exact ofJson?_toJson_eq_none hfloats hw hnot
  refine ⟨⟨fun h => Classical.byContradiction fun hnot => ?_, fun h => ofJson?_toJson h hr⟩, hnone⟩
  rw [hnone hnot] at h
  cases h

end Value

/-! ## Documents -/

theorem Document.ofJson?_value {lib : Scalars} (d : Document) :
    Value.ofJson? lib ((Value.document d).toJson lib) =
      (ofJson? lib (d.toJson lib)).map .document := by
  obtain ⟨entries⟩ := d
  rw [Value.toJson, toJson, Value.ofJson?, if_neg (by decide), if_pos rfl, ofJson?, Option.map_map]
  rfl

/-- What a value or document is stored as is read back as it was exactly if all numbers in it are
finite, and otherwise nothing is read; identifiers and bytes always come back. -/
theorem stored_returns (lib : Scalars) (hfloats : lib.NullFloats) :
    (∀ v : Value, v.Everywhere (Value.Returns lib) →
      (Value.ofJson? lib (v.toJson lib) = some v ↔ v.Everywhere Value.Finite) ∧
        (¬ v.Everywhere Value.Finite → Value.ofJson? lib (v.toJson lib) = none)) ∧
    (∀ d : Document, (Value.document d).Everywhere (Value.Returns lib) →
      (Document.ofJson? lib (d.toJson lib) = some d ↔ (Value.document d).Everywhere Value.Finite) ∧
        (¬ (Value.document d).Everywhere Value.Finite →
          Document.ofJson? lib (d.toJson lib) = none)) ∧
    (∀ i : DocumentId, (lib.integer .u64).Returns i.number →
      DocumentId.ofJson? lib (i.toJson lib) = some i) ∧
    ∀ bs, (∀ b ∈ bs, (lib.integer .u8).Returns (.ofByte b)) →
      Value.bytesOfJson? lib (Value.bytesToJson lib bs) = some bs := by
  refine ⟨fun v => Value.ofJson?_toJson_iff hfloats, fun d hr => ?_, fun i hi => ?_,
    fun bs => Value.bytesOfJson?_bytesToJson⟩
  · obtain ⟨hiff, hnone⟩ := Value.ofJson?_toJson_iff hfloats hr
    simp only [Document.ofJson?_value, Option.map_eq_some_iff, Option.map_eq_none_iff,
      Value.document.injEq, exists_eq_right] at hiff hnone
    exact ⟨hiff, hnone⟩
  · have hread : (lib.integer .u64).read ((lib.integer .u64).write i.number) = some i.number := hi
    rw [DocumentId.ofJson?, DocumentId.toJson, hread, Option.map_some]

/-! A document with names that are empty, given twice or those of kinds of values. -/

def half : Binary64 := .ofBits 0x3fe0000000000000

def keepsake (x : Binary64) : Value :=
  .document ⟨[("", .array [.null, .enum "Null", .bytes [0, 255]]), ("Float64", .float64 x),
    ("", .document ⟨[("\"\n", .timestamp .epoch)]⟩)]⟩

theorem Json.ofFloat_eq_null (s : FloatStyle) (f : FloatFormat) {x : FloatValue}
    (h : (x matches .finite ..) = false) : ofFloat s f x = .null := by
  cases x with
  | finite => cases h
  | _ => rfl

theorem nullFloats_json : Scalars.json.NullFloats where
  write32 _ := Json.ofFloat_eq_null _ _
  read32 := rfl
  write64 _ := Json.ofFloat_eq_null _ _
  read64 := rfl

theorem everywhere_keepsake {P : Value → Prop} {x : Binary64} (hx : P (.float64 x))
    (hplain : P .null ∧ P (.enum "Null") ∧ P (.bytes [0, 255]) ∧ P (.timestamp .epoch))
    (houter : P (keepsake x)) (hinner : P (.document ⟨[("\"\n", .timestamp .epoch)]⟩))
    (harray : P (.array [.null, .enum "Null", .bytes [0, 255]])) :
    (keepsake x).Everywhere P := by
  obtain ⟨hnull, henum, hbytes, htime⟩ := hplain
  have alone {v : Value} (hd : v.asDocument? = none) (ha : v.asArray? = none) (hv : P v) :
      v.Everywhere P := (Value.everywhere_plain hd ha).2 hv
  refine Value.everywhere_document.2 ⟨houter, ?_⟩
  simp only [List.forall_mem_cons, List.not_mem_nil, false_imp_iff, implies_true, and_true,
    Value.everywhere_document, Value.everywhere_array]
  exact ⟨⟨harray, alone rfl rfl hnull, alone rfl rfl henum, alone rfl rfl hbytes⟩,
    alone rfl rfl hx, hinner, alone rfl rfl htime⟩

theorem stored_returns_keepsake :
    Value.ofJson? .json ((keepsake half).toJson .json) = some (keepsake half) ∧
      Value.ofJson? .json ((keepsake .nan).toJson .json) = none := by
  have hreturns {x : Binary64} (hx : (Value.float64 x).Returns .json) :
      (keepsake x).Everywhere (Value.Returns .json) := by
    have hbytes : (Value.bytes [0, 255]).Returns .json := by
      show ∀ b ∈ _, _
      decide +kernel
    have htime : (Value.timestamp .epoch).Returns .json := by
      show Codec.Returns _ _
      decide +kernel
    exact everywhere_keepsake hx ⟨trivial, rfl, hbytes, htime⟩ (fun _ _ => rfl) (fun _ _ => rfl)
      trivial
  have hhalf : Scalars.json.float64.Returns half := by decide +kernel
  have hfinite : (keepsake half).Everywhere Value.Finite :=
    everywhere_keepsake (by rfl) ⟨trivial, trivial, trivial, trivial⟩ trivial trivial trivial
  have hnan : (Value.float64 .nan).Returns .json := fun h => absurd h (by decide)
  have hinfinite : ¬ (keepsake .nan).Everywhere Value.Finite := by
    intro h
    have hx := h (.float64 .nan) (.entry (List.mem_cons_of_mem _ List.mem_cons_self) .here)
    cases hx
  obtain ⟨hvalue, -⟩ := stored_returns .json nullFloats_json
  exact ⟨(hvalue _ (hreturns fun _ => hhalf)).1.2 hfinite, (hvalue _ (hreturns hnan)).2 hinfinite⟩

end ObjectDocument
