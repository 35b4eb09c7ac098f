import Mathlib.Data.Set.Card
import ObjectDocument.Proofs.Parts
import ObjectDocument.Proofs.StoredNames

/-!
# Documents after a history of edits

A document that was built from the empty one by putting, removing and collecting is told by the
history alone. It holds the values that were put last and not removed since, and lists their names
in the order in which they were put when they were not there (`Follows`, kept by each change:
`Follows.apply`). No name is there twice, so the document is an ordered map.
-/

namespace ObjectDocument.Document

/-! ## Edits -/

inductive Edit
  | put (name : String) (v : Value)
  | insert (name : String) (v : Value)
  | remove (name : String)
  /-- A document collected from pairs takes the place of the one that was there. -/
  | collect (pairs : List (String × Value))

def Edit.apply (d : Document) : Edit → Option Value × Document
  | .put name v => d.put name v
  | .insert name v => (none, d.insert name v)
  | .remove name => d.remove name
  | .collect pairs => (none, .ofList pairs)

def edited (edits : List Edit) : Document := edits.foldl (fun d e => (e.apply d).2) empty

/-! ## Histories -/

inductive Change
  | put (name : String) (v : Value)
  | remove (name : String)
  | clear

namespace Change

def apply (d : Document) : Change → Document
  | .put name v => d.insert name v
  | .remove name => d.erase name
  | .clear => empty

def Drops (c : Change) (name : String) : Prop := c = .remove name ∨ c = .clear

def Touches (c : Change) (name : String) : Prop := (∃ v, c = .put name v) ∨ c.Drops name

end Change

def Edit.changes : Edit → List Change
  | .put name v | .insert name v => [.put name v]
  | .remove name => [.remove name]
  | .collect pairs => .clear :: pairs.map fun p => .put p.1 p.2

/-- A value is the last that was put under a name, and the name was not removed since. -/
def LastPut (h : List Change) (name : String) (v : Value) : Prop :=
  ∃ before after, h = before ++ .put name v :: after ∧ ∀ c ∈ after, ¬ c.Touches name

/-- A name was put and not removed since. -/
def Live (h : List Change) (name : String) : Prop := ∃ v, LastPut h name v

/-- A name was put after so many changes when it was not there, and not removed since. -/
def Entered (h : List Change) (name : String) (i : Nat) : Prop :=
  ∃ v before after, h = before ++ .put name v :: after ∧
    (before.length = i ∧ ¬ Live before name) ∧ ∀ c ∈ after, ¬ c.Drops name

theorem exists_split_concat {α : Type} {P : List α → Prop} {Q : α → Prop} {l : List α} {a b : α} :
    (∃ before after, l ++ [a] = before ++ b :: after ∧ P before ∧ ∀ c ∈ after, Q c) ↔
      (a = b ∧ P l) ∨
        (Q a ∧ ∃ before after, l = before ++ b :: after ∧ P before ∧ ∀ c ∈ after, Q c) := by
  constructor
  · rintro ⟨before, after, he, hP, hQ⟩
    rcases List.eq_nil_or_concat after with rfl | ⟨after, c, rfl⟩
    · obtain ⟨rfl, hab⟩ := List.append_inj' he rfl
      exact .inl ⟨(List.cons.inj hab).1, hP⟩
    · rw [List.concat_eq_append, ← List.cons_append, ← List.append_assoc] at he
      obtain ⟨rfl, hac⟩ := List.append_inj' he rfl
      cases hac
      refine .inr ⟨hQ a (by simp), before, after, rfl, hP, fun c hc => hQ c (by simp [hc])⟩
  · rintro (⟨rfl, hP⟩ | ⟨hQ, before, after, rfl, hP, hafter⟩)
    · exact ⟨l, [], rfl, hP, nofun⟩
    · refine ⟨before, after ++ [a], by simp, hP, fun c hc => ?_⟩
      rcases List.mem_append.1 hc with hc | hc
      · exact hafter c hc
      · rwa [List.mem_singleton.1 hc]

theorem lastPut_concat {h : List Change} {c : Change} {name : String} {v : Value} :
    LastPut (h ++ [c]) name v ↔ c = .put name v ∨ ¬ c.Touches name ∧ LastPut h name v := by
  have hsplit := exists_split_concat (P := fun _ => True) (Q := fun c => ¬ c.Touches name) (l := h)
    (a := c) (b := .put name v)
  simpa only [LastPut, true_and, and_true] using hsplit

theorem live_concat {h : List Change} {c : Change} {name : String} :
    Live (h ++ [c]) name ↔ (∃ v, c = .put name v) ∨ ¬ c.Touches name ∧ Live h name := by
  simp only [Live, lastPut_concat, exists_or, exists_and_left]

theorem entered_concat {h : List Change} {c : Change} {name : String} {i : Nat} :
    Entered (h ++ [c]) name i ↔
      (∃ v, c = .put name v) ∧ h.length = i ∧ ¬ Live h name ∨
        ¬ c.Drops name ∧ Entered h name i := by
  have hsplit (v : Value) := exists_split_concat (l := h) (a := c) (b := .put name v)
    (P := fun before => before.length = i ∧ ¬ Live before name) (Q := fun c => ¬ c.Drops name)
  simp only [Entered, hsplit, exists_or, exists_and_left, exists_and_right]

theorem not_live_nil (name : String) : ¬ Live [] name := by
  rintro ⟨v, before, after, he, -⟩
  simp at he

theorem Entered.lt_length {h : List Change} {name : String} {i : Nat} (he : Entered h name i) :
    i < h.length := by
  obtain ⟨v, before, after, rfl, ⟨rfl, -⟩, -⟩ := he
  simp

theorem live_iff_entered {h : List Change} {name : String} :
    Live h name ↔ ∃ i, Entered h name i := by
  induction h using List.reverseRecOn with
  | nil =>
    refine ⟨fun hl => (not_live_nil name hl).elim, ?_⟩
    rintro ⟨i, he⟩
    exact absurd he.lt_length (Nat.not_lt_zero i)
  | append_singleton h c ih =>
    simp only [live_concat, entered_concat, exists_or, exists_and_left, ← ih]
    by_cases hput : ∃ v, c = .put name v
    · -- a name that is put again stays where it entered
      obtain ⟨v, rfl⟩ := hput
      simp [Change.Drops, em']
    · simp [hput, Change.Touches]

/-! ## What a document is after a history -/

/-- Whether a document is what a history of changes tells: each name that is live stands for what
was put last, and names stand in the order in which they entered. -/
structure Follows (d : Document) (h : List Change) : Prop where
  nodup : d.keys.Nodup
  get?_eq_some : ∀ name v, d.get? name = some v ↔ LastPut h name v
  order : d.keys.Pairwise fun a b => ∀ i j, Entered h a i → Entered h b j → i < j

namespace Follows
variable {d : Document} {h : List Change}

theorem mem_keys (hd : d.Follows h) {name : String} : name ∈ d.keys ↔ Live h name := by
  rw [← get?_isSome, Option.isSome_iff_exists]
  exact exists_congr (hd.get?_eq_some name)

theorem empty : Follows empty [] := by
  refine ⟨.nil, fun name v => ⟨nofun, fun hv => ?_⟩, .nil⟩
  exact (not_live_nil name ⟨v, hv⟩).elim

theorem put (hd : d.Follows h) (name : String) (v : Value) :
    (d.insert name v).Follows (h ++ [.put name v]) := by
  refine ⟨nodup_keys_insert hd.nodup name v, fun k w => ?_, ?_⟩
  · rw [get?_insert, lastPut_concat]
    split
    next hk =>
      subst hk
      simp [Change.Touches]
    next hk => simp [Change.Touches, Change.Drops, Ne.symm hk, hd.get?_eq_some]
  · rw [keys_insert]
    split
    next hmem =>
      -- a name that is there does not enter again
      have hlive := hd.mem_keys.1 hmem
      refine hd.order.imp fun {a b} hab i j hi hj => ?_
      have hentered {k : String} {n : Nat} (he : Entered (h ++ [.put name v]) k n) :
          Entered h k n := by
        rcases entered_concat.1 he with ⟨⟨w, hw⟩, -, hn⟩ | ⟨-, he⟩
        · cases hw
          exact absurd hlive hn
        · exact he
      exact hab i j (hentered hi) (hentered hj)
    next hmem =>
      have hdead := mt hd.mem_keys.2 hmem
      -- a new name enters last, and the others entered before
      have hother {k : String} {n : Nat} (hk : k ∈ d.keys)
          (he : Entered (h ++ [.put name v]) k n) : Entered h k n := by
        rcases entered_concat.1 he with ⟨⟨w, hw⟩, -⟩ | ⟨-, he⟩
        · cases hw
          exact absurd hk hmem
        · exact he
      refine List.pairwise_append.2 ⟨?_, List.pairwise_singleton _ _, ?_⟩
      · exact hd.order.imp_of_mem fun ha hb hab i j hi hj =>
          hab i j (hother ha hi) (hother hb hj)
      · intro a ha b hb i j hi hj
        rw [List.mem_singleton.1 hb] at hj
        have hlt := (hother ha hi).lt_length
        rcases entered_concat.1 hj with ⟨-, hj, -⟩ | ⟨-, hj⟩
        · omega
        · exact absurd (live_iff_entered.2 ⟨j, hj⟩) hdead

theorem remove (hd : d.Follows h) (name : String) :
    (d.erase name).Follows (h ++ [.remove name]) := by
  have hget := ((mapLaws_iff_nodup d).2 hd.nodup).get?_remove name
  refine ⟨?_, fun k w => ?_, ?_⟩
  · rw [keys_erase]
    exact hd.nodup.erase name
  · rw [erase, hget, lastPut_concat]
    split
    next hk =>
      subst hk
      simp [Change.Touches, Change.Drops]
    next hk => simp [Change.Touches, Change.Drops, Ne.symm hk, hd.get?_eq_some]
  · have hentered {k : String} {n : Nat} (he : Entered (h ++ [.remove name]) k n) :
        Entered h k n := by
      rcases entered_concat.1 he with ⟨⟨w, hw⟩, -⟩ | ⟨-, he⟩
      · cases hw
      · exact he
    rw [keys_erase]
    exact (hd.order.sublist (List.erase_sublist)).imp fun hab i j hi hj =>
      hab i j (hentered hi) (hentered hj)

theorem clear (h : List Change) : Follows Document.empty (h ++ [.clear]) := by
  refine ⟨.nil, fun name v => ?_, .nil⟩
  rw [lastPut_concat]
  exact ⟨nofun, by simp [Change.Touches, Change.Drops]⟩

theorem apply (hd : d.Follows h) (c : Change) : (c.apply d).Follows (h ++ [c]) := by
  cases c with
  | put name v => exact hd.put name v
  | remove name => exact hd.remove name
  | clear => exact clear h

theorem foldl (hd : d.Follows h) (changes : List Change) :
    (changes.foldl Change.apply d).Follows (h ++ changes) := by
  induction changes generalizing d h with
  | nil => simpa using hd
  | cons c changes ih => simpa using ih (hd.apply c)

end Follows

/-! ## Collecting -/

theorem ofList_concat (pairs : List (String × Value)) (p : String × Value) :
    ofList (pairs ++ [p]) = (ofList pairs).insert p.1 p.2 := List.foldl_concat ..

theorem keys_ofList (pairs : List (String × Value)) :
    (ofList pairs).keys = (pairs.map Prod.fst).eraseDups := by
  induction pairs using List.reverseRecOn with
  | nil => rfl
  | append_singleton pairs p ih =>
    rw [ofList_concat, keys_insert, ih, List.map_append, List.eraseDups_append]
    split
    next hmem =>
      have hmem := List.mem_eraseDups.1 hmem
      simp [List.removeAll, hmem]
    next hmem =>
      have hmem := mt List.mem_eraseDups.2 hmem
      simp [List.removeAll, hmem, List.eraseDups_cons]

theorem get?_ofList (pairs : List (String × Value)) (name : String) :
    (ofList pairs).get? name = pairs.reverse.lookup name := by
  induction pairs using List.reverseRecOn with
  | nil => rfl
  | append_singleton pairs p ih =>
    rw [ofList_concat, get?_insert, ih, List.reverse_append, List.reverse_singleton,
      List.singleton_append, List.lookup_cons]
    by_cases hp : name = p.1
    · simp [hp]
    · rw [beq_eq_false_iff_ne.2 hp]
      exact if_neg hp

theorem ofList_entries {d : Document} (h : d.keys.Nodup) : ofList d.entries = d := by
  have hfold (before after : List (String × Value)) (hn : ((before ++ after).map Prod.fst).Nodup) :
      after.foldl (fun (d : Document) p => d.insert p.1 p.2) ⟨before⟩ = ⟨before ++ after⟩ := by
    induction after generalizing before with
    | nil => simp
    | cons p after ih =>
      have hnew : p.1 ∉ (⟨before⟩ : Document).keys := by
        intro hmem
        rw [List.map_append, List.nodup_append] at hn
        exact hn.2.2 p.1 hmem p.1 (by simp) rfl
      rw [List.foldl_cons, insert_of_notMem _ hnew, ih _ (by simpa using hn), List.append_assoc]
      rfl
  obtain ⟨entries⟩ := d
  exact hfold [] entries h

theorem entries_eq {d : Document} (h : d.keys.Nodup) :
    d.entries = d.keys.filterMap fun name => (d.get? name).map (name, ·) := by
  rw [keys, List.filterMap_map]
  symm
  refine (List.filterMap_congr fun p hp => ?_).trans List.filterMap_some
  simp [get?_of_mem h hp]

/-! ## Whole histories -/

theorem edited_eq_foldl (edits : List Edit) :
    edited edits = (edits.flatMap Edit.changes).foldl Change.apply empty := by
  have hedit (d : Document) (e : Edit) : (e.apply d).2 = e.changes.foldl Change.apply d := by
    cases e with
    | collect pairs =>
      show ofList pairs = (pairs.map fun p => Change.put p.1 p.2).foldl Change.apply empty
      rw [List.foldl_map]
      rfl
    | _ => rfl
  rw [edited, List.foldl_flatMap]
  simp only [hedit]

theorem Follows.size_eq {d : Document} {h : List Change} (hd : d.Follows h) :
    d.size = {name | Live h name}.ncard := by
  have hset : {name | Live h name} = (d.keys.toFinset : Set String) := by
    ext name
    simp [hd.mem_keys]
  rw [hset, Set.ncard_coe_finset, List.toFinset_card_of_nodup hd.nodup, keys, List.length_map, size]

/-- A document is the ordered map that its history tells: what is put last stands, names are listed
as they entered and counted once, putting and removing give what was there and move no other name.
Collecting keeps first places and last values, and changes nothing of a document. -/
theorem edited_follows (edits : List Edit) :
    let d := edited edits
    let h := edits.flatMap Edit.changes
    d.Follows h ∧ d.size = {name | Live h name}.ncard ∧
      d.entries = d.keys.filterMap (fun name => (d.get? name).map (name, ·)) ∧
      (∀ name, d.contains name = (d.get? name).isSome) ∧
      (∀ name v, (Edit.apply d (.put name v)).1 = d.get? name ∧
        (Edit.apply d (.remove name)).1 = d.get? name) ∧
      (∀ name v, (Edit.apply d (.put name v)).2.keys =
        if name ∈ d.keys then d.keys else d.keys ++ [name]) ∧
      (∀ name, (Edit.apply d (.remove name)).2.keys = d.keys.erase name) ∧
      ofList d.entries = d ∧
      ∀ pairs, (ofList pairs).keys = (pairs.map Prod.fst).eraseDups ∧
        ∀ name, (ofList pairs).get? name = pairs.reverse.lookup name := by
  intro d h
  have hd : d.Follows h := by
    have hfold := Follows.empty.foldl h
    rwa [← edited_eq_foldl] at hfold
  refine ⟨hd, hd.size_eq, entries_eq hd.nodup, contains_eq_isSome d, fun name v => ⟨?_, ?_⟩,
    keys_insert d, keys_erase d, ofList_entries hd.nodup,
    fun pairs => ⟨keys_ofList pairs, get?_ofList pairs⟩⟩
  · exact put_fst d name v
  · exact removeEntries_fst name d.entries

end ObjectDocument.Document
