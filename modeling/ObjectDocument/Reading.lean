import ObjectDocument.Catalogue

/-!
# Reading document values as objects

Each type reads a document value by the shape of the type alone. Entities, and types that are
read from nested documents, ask the mapper, so that its converters and its limit apply at every
level. Boxes and options add nothing to the path of a failure; a sequence adds the position.
-/

namespace ObjectDocument.Catalogue

variable (Γ : Catalogue)

def expect (t : Ty) (x : Datum) : Except Failure Datum :=
  if x.ty = t then .ok x else .error (.here (.typeMismatch t.name (Γ.typeOf x).name))

/-- Takes over an object that was decoded for the descriptor of a type. Boxes are put around it
again; anything else has to be of the type itself. -/
def receive : Ty → Datum → Except Failure Datum
  | .box item, x => (receive item x).map .boxed
  | t, x => Γ.expect t x

def fromDocument (t : Ty) (d : Document) : Dialogue Datum :=
  .ask (some (.document d)) (Γ.descriptor t) fun answer =>
    match answer with
    | .ok (.decoded x) => .done (Γ.receive t x)
    | .ok _ => .error (.incompatible (Γ.descriptor .document).name (Γ.descriptor t).name)
    | .error e => .error e

def toDocument (x : Datum) : Dialogue Document :=
  .ask (some x) (Γ.descriptor .document) fun answer =>
    match answer with
    | .ok outcome =>
      match outcome.document? with
      | some d => .ok d
      | none => .error (.incompatible (Γ.typeOf x).name (Γ.descriptor .document).name)
    | .error e => .error e

def mismatch {α : Type} (t : Ty) (v : Value) : Dialogue α :=
  .fail (.typeMismatch t.name v.kindName)

def fromNested (t : Ty) : Value → Dialogue Datum
  | .document d => Γ.fromDocument t d
  | v => mismatch t v

def readVariant (name : String) (d : EnumDecl) (v : Value) : Dialogue Datum :=
  match v with
  | .enum s | .string s =>
    match d.variant? s with
    | some variant => .ok (.variant name variant)
    | none => .fail (.typeMismatch name ("unknown variant '" ++ s ++ "'"))
  | _ => mismatch (.named name) v

def readNamed (name : String) (v : Value) : Dialogue Datum :=
  match Γ.find? name with
  | some (.entity _) => Γ.fromNested (.named name) v
  | some (.enum d) => readVariant name d v
  | some (.host d) =>
    match d.reading with
    | .never => mismatch (.named name) v
    | .throughMapper => Γ.fromNested (.named name) v
    | .direct read => do pure (.record name (← read v))
  | none => mismatch (.named name) v

def readItems (read : Value → Dialogue Datum) :
    (position : Nat) → List Value → Dialogue (List Datum)
  | _, [] => .ok []
  | i, v :: rest => do
    let x ← (read v).under ("[" ++ toString i ++ "]")
    let xs ← readItems read (i + 1) rest
    pure (x :: xs)

def fromValue : Ty → Value → Dialogue Datum
  | .atom a, v =>
    match a.ofValue? Γ.wideNaN v with
    | some x => .ok (.atom x)
    | none => mismatch (.atom a) v
  | .document, v =>
    match v with
    | .document d => .ok (.document d)
    | _ => mismatch .document v
  | .seq item, v =>
    match v with
    | .array items => do pure (.seq item (← readItems (fromValue item) 0 items))
    | _ => mismatch (.seq item) v
  | .option item, v =>
    match v with
    | .null => .ok (.none item)
    | _ => do pure (.some (← fromValue item v))
  | .box item, v => do pure (.boxed (← fromValue item v))
  | .named name, v => Γ.readNamed name v
  | .unit, v => mismatch .unit v
  | .anyEnum, v => mismatch .anyEnum v

def setField (x : Datum) (key : String) (v : Value) : Dialogue Datum :=
  match x with
  | .record name parts =>
    match Γ.find? name with
    | some (.entity d) =>
      match d.field? key with
      | some f => do
        let y ← Γ.fromValue f.ty v
        pure (.record name (EntityDecl.setPart key y d.fields parts))
      | none => .fail (.unknownField name key)
    | some (.host d) => do pure (.record name (← d.setField key v parts))
    | none | some (.enum _) => .fail (.unknownField name key)
  | _ => .fail (.unknownField x.ty.name key)

/-- Sets a field of an object in its place: what came of it, and the object then. When the value is
not read nothing is set. -/
def assign (convert : Convert) (x : Datum) (key : String) (v : Value) : Traced Unit × Datum :=
  let answer := (Γ.setField x key v).run convert
  let after :=
    match answer.result with
    | .ok y => y
    | .error _ => x
  (answer >>= fun _ => .ok (), after)

end ObjectDocument.Catalogue
