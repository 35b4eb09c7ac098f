import ObjectDocument.Datum

/-!
# Settings of the host

A host may hand the mapper settings of its own, of whatever type it chose. Who asks for them names
the type.
-/

namespace ObjectDocument

structure HostSettings where
  held : Option Datum

namespace HostSettings

def none : HostSettings := ⟨Option.none⟩

def get? (s : HostSettings) (t : Ty) : Option Datum := s.held.filter fun x => x.ty == t

end HostSettings

end ObjectDocument
