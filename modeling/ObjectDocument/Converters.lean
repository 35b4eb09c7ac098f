import ObjectDocument.Catalogue

/-!
# Converters

A `Converter` maps one type to documents and back by rules of its own, in dialogue with the
mapper. At most one converter is kept for each identity that descriptors carry.
-/

namespace ObjectDocument

structure Converter where
  entity : Ty
  toDocument : Datum → Dialogue Document
  fromDocument : Document → Dialogue Datum

/-- The document of an object, which has to be of the type of the converter. -/
def Converter.encode (Γ : Catalogue) (c : Converter) (x : Datum) : Dialogue Document :=
  if x.ty = c.entity then c.toDocument x
  else .fail (.typeMismatch c.entity.name (Γ.typeOf x).name)

structure Converters where
  entries : List (Descriptor × Converter)

namespace Converters

def empty : Converters := ⟨[]⟩

def find? (cs : Converters) (d : Descriptor) : Option Converter :=
  (cs.entries.find? fun e => e.1.id == d.id).map Prod.snd

/-- Registers a converter. It takes the place of an earlier one for the same identity. -/
def insert (cs : Converters) (Γ : Catalogue) (c : Converter) : List Event × Converters :=
  let d := Γ.descriptor c.entity
  if cs.entries.any (·.1.id == d.id) then
    ([.converterReplaced d.name],
      ⟨cs.entries.map fun e => if e.1.id == d.id then (d, c) else e⟩)
  else ([], ⟨cs.entries ++ [(d, c)]⟩)

def size (cs : Converters) : Nat := cs.entries.length

def isEmpty (cs : Converters) : Bool := cs.entries.isEmpty

def names (cs : Converters) : List String :=
  (cs.entries.map fun e => e.1.name).mergeSort fun a b => decide (a ≤ b)

end Converters

end ObjectDocument
