import ObjectDocument.Value

/-!
# Documents as ordered maps

Putting a value under a name that is there replaces the value in place; a new name goes to the
end. Reading and removing see the first entry of a name, so documents built here never need to
look further: their names are distinct (`nodup_keys_ofList`). `keys_insert` and `get?_insert` say
what putting does to the names and to the values.
-/

namespace ObjectDocument.Document

def putEntries (name : String) (v : Value) :
    List (String × Value) → Option Value × List (String × Value)
  | [] => (none, [(name, v)])
  | (k, w) :: rest =>
    if k = name then (some w, (k, v) :: rest)
    else
      let (previous, rest) := putEntries name v rest
      (previous, (k, w) :: rest)

def removeEntries (name : String) :
    List (String × Value) → Option Value × List (String × Value)
  | [] => (none, [])
  | (k, w) :: rest =>
    if k = name then (some w, rest)
    else
      let (taken, rest) := removeEntries name rest
      (taken, (k, w) :: rest)

def empty : Document := ⟨[]⟩

instance : EmptyCollection Document := ⟨empty⟩

/-- Replaces in place or appends. Gives the value that was there before. -/
def put (d : Document) (name : String) (v : Value) : Option Value × Document :=
  let (previous, entries) := putEntries name v d.entries
  (previous, ⟨entries⟩)

def insert (d : Document) (name : String) (v : Value) : Document := (d.put name v).2

def get? (d : Document) (name : String) : Option Value := d.entries.lookup name

def remove (d : Document) (name : String) : Option Value × Document :=
  let (taken, entries) := removeEntries name d.entries
  (taken, ⟨entries⟩)

def erase (d : Document) (name : String) : Document := (d.remove name).2

def contains (d : Document) (name : String) : Bool := d.entries.any (·.1 == name)

def keys (d : Document) : List String := d.entries.map (·.1)

def size (d : Document) : Nat := d.entries.length

def isEmpty (d : Document) : Bool := d.entries.isEmpty

def ofList (pairs : List (String × Value)) : Document :=
  pairs.foldl (fun d p => d.insert p.1 p.2) empty

/-! ## Laws -/

theorem putEntries_fst (name : String) (v : Value) (entries : List (String × Value)) :
    (putEntries name v entries).1 = entries.lookup name := by
  induction entries with
  | nil => rfl
  | cons e rest ih => by_cases h : e.1 = name <;> grind [putEntries]

theorem lookup_putEntries (name k : String) (v : Value) (entries : List (String × Value)) :
    (putEntries name v entries).2.lookup k = if k = name then some v else entries.lookup k := by
  induction entries with
  | nil => grind [putEntries]
  | cons e rest ih => by_cases h : e.1 = name <;> grind [putEntries]

theorem map_putEntries (name : String) (v : Value) (entries : List (String × Value)) :
    (putEntries name v entries).2.map (·.1) =
      if name ∈ entries.map (·.1) then entries.map (·.1) else entries.map (·.1) ++ [name] := by
  induction entries with
  | nil => rfl
  | cons e rest ih => by_cases h : e.1 = name <;> grind [putEntries]

theorem map_removeEntries (name : String) (entries : List (String × Value)) :
    (removeEntries name entries).2.map (·.1) = (entries.map (·.1)).erase name := by
  induction entries with
  | nil => rfl
  | cons e rest ih => by_cases h : e.1 = name <;> grind [removeEntries]

theorem put_fst (d : Document) (name : String) (v : Value) : (d.put name v).1 = d.get? name :=
  putEntries_fst name v d.entries

theorem get?_insert (d : Document) (name k : String) (v : Value) :
    (d.insert name v).get? k = if k = name then some v else d.get? k :=
  lookup_putEntries name k v d.entries

/-- A new name goes to the end; one that is there stays where it is. -/
theorem keys_insert (d : Document) (name : String) (v : Value) :
    (d.insert name v).keys = if name ∈ d.keys then d.keys else d.keys ++ [name] :=
  map_putEntries name v d.entries

theorem keys_erase (d : Document) (name : String) : (d.erase name).keys = d.keys.erase name :=
  map_removeEntries name d.entries

@[simp] theorem contains_iff {d : Document} {name : String} :
    d.contains name = true ↔ name ∈ d.keys := by
  simp [contains, keys]

@[simp] theorem get?_isSome {d : Document} {name : String} :
    (d.get? name).isSome = true ↔ name ∈ d.keys := by
  simp [get?, keys, Option.isSome_iff_ne_none, List.lookup_eq_none_iff]

theorem nodup_keys_insert {d : Document} (h : d.keys.Nodup) (name : String) (v : Value) :
    (d.insert name v).keys.Nodup := by
  rw [keys_insert]
  split
  · exact h
  · grind

theorem nodup_keys_ofList (pairs : List (String × Value)) : (ofList pairs).keys.Nodup := by
  suffices ∀ d : Document, d.keys.Nodup →
      (pairs.foldl (fun d p => d.insert p.1 p.2) d).keys.Nodup from this empty .nil
  induction pairs with
  | nil => exact fun _ h => h
  | cons p rest ih => exact fun d h => ih _ (nodup_keys_insert h _ _)

end ObjectDocument.Document
