import ObjectDocument.Mapper
import ObjectDocument.Value.Debug

/-!
# Objects, views and outcomes as text for diagnosis
-/

namespace ObjectDocument

def View.text (Γ : Catalogue) (x : Datum) : View → String
  | .null => "Null"
  | .entity => wrapText "Entity" (Γ.typeOf x).name
  | .sequence => wrapText "Sequence" ("len=" ++ toString x.present.parts.length)
  | .document d => wrapText "Document" d.display
  | .unstructured => "Opaque"

def Atom.debug : Atom → String
  | .bool b => if b then "true" else "false"
  | .char c => Text.quotedChar c
  | .integer n => toString n
  | .float32 x => x.debug
  | .float64 x => x.debug
  | .text s => Text.quoted s
  | .bytes bs => wrapText "Binary" (bytesDebug bs)
  | .id i => i.debug
  | .timestamp t => t.text "Z"

def plainIdent (ident : String) : String :=
  match ident.toList with
  | 'r' :: '#' :: rest => String.ofList rest
  | _ => ident

namespace Catalogue

variable (Γ : Catalogue)

mutual

def debug : Datum → String
  | .unit => "()"
  | .atom a => a.debug
  | .document d => d.debug
  | .seq _ items => bracketed (debugItems items)
  | .none _ => "None"
  | .some inner => wrapText "Some" (debug inner)
  | .boxed inner => debug inner
  | .variant _ name => name
  | .record name parts =>
    match Γ.find? name with
    | some (.entity d) =>
      recordText (baseName name)
        ((d.fields.map fun f => plainIdent f.ident).zip (debugItems parts))
    | _ =>
      if parts.isEmpty then baseName name
      else wrapText (baseName name) (", ".intercalate (debugItems parts))

def debugItems : List Datum → List String
  | [] => []
  | x :: rest => debug x :: debugItems rest

end

end Catalogue

def Outcome.debug (Γ : Catalogue) : Outcome → String
  | .absent => "Absent"
  | .unchanged x => wrapText "Unchanged" (Γ.debug x)
  | .encoded d => wrapText "Encoded" d.debug
  | .decoded x => wrapText "Decoded" (Γ.debug x)

def Failure.debug : Failure → String
  | .incompatible source target =>
    recordText "Incompatible"
      [("source_type", Text.quoted source), ("target_type", Text.quoted target)]
  | .structural path cause =>
    recordText "Structural"
      [("reason", cause.reason.label), ("message", Text.quoted (detail path cause))]

def resultDebug (Γ : Catalogue) : Except Failure Outcome → String
  | .ok outcome => wrapText "Ok" (outcome.debug Γ)
  | .error e => wrapText "Err" e.debug

def Descriptor.debug (d : Descriptor) : String :=
  recordText "TypeDescriptor" [("name", Text.quoted d.name), ("kind", d.kind.label)]

def Converters.debug (r : Converters) : String :=
  recordText "ConverterRegistry" [("converters", bracketed (r.names.map Text.quoted))]

end ObjectDocument
