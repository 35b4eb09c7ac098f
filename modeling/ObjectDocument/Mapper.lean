import ObjectDocument.ValueTypes
import ObjectDocument.Settings
import ObjectDocument.Reading
import ObjectDocument.Converters

/-!
# The mapper

A mapper turns objects into documents and documents into objects. Each conversion takes one
`Route`. Entities are encoded field by field and decoded from the default instance; a registered
converter goes before both, in either direction.

Nesting is bounded by the settings. The mapper at one depth, a `Stage`, is made from the
mapper one level further down; below the last level there is none, and entities and converters
are refused there. So conversions that call each other end.
-/

namespace ObjectDocument

structure Mapper where
  types : Catalogue
  valueTypes : ValueTypes
  converters : Converters
  settings : Settings

/-- The mapper at one depth of nesting: how it encodes objects and decodes documents there, how it
encodes entities field by field, and what it hands to a converter, if it may call one there. -/
structure Stage where
  depth : Nat
  encode : Datum → Traced Document
  decode : Document → Descriptor → Traced Datum
  encodeEntity : Datum → Traced Document
  handed : Option Convert

inductive Form
  | null
  | atom (v : Value)
  /-- A value type without a document value. -/
  | noAtomicForm
  | nested
  | document (d : Document)
  | sequence
  | unstructured

namespace Mapper

variable (m : Mapper)

/-! ## Routes -/

/-- The route from a source to a target, for the source as it is. -/
def route (source : Option Datum) (target : Descriptor) : Route :=
  match source with
  | none => .absent
  | some x =>
    if m.types.isNull x then .absent
    else if m.valueTypes.covers (m.types.typeOf x) then .passThrough
    else if target.isDocument then
      if x.asDocument?.isSome then .identity else .encode
    else if x.asDocument?.isSome then .decode
    else if m.settings.passThroughAssignable && (m.types.typeOf x).relatedTo target then .assignable
    else .incompatible

/-- Converts a source at a stage. Wrappers are taken off before the route is chosen. -/
def convertAt (stage : Stage) : Convert := fun source target =>
  let source := source.map Datum.present
  let route := m.route source target
  let result : Traced Outcome :=
    match route, source with
    | .absent, _ | _, none => .ok .absent
    | .passThrough, some x | .identity, some x | .assignable, some x => .ok (.unchanged x)
    | .encode, some x => do pure (.encoded (← stage.encode x))
    | .decode, some x =>
      match x.asDocument? with
      | some d => do pure (.decoded (← stage.decode d target))
      | none => .error (.incompatible (m.types.typeOf x).name target.name)
    | .incompatible, some x => .error (.incompatible (m.types.typeOf x).name target.name)
  do
    Traced.emit (.dispatched target.name route stage.depth)
    result.onFailure (.failed target.name route)

/-! ## Encoding -/

def form (x : Datum) : Form :=
  if m.types.isNull x then .null
  else if m.valueTypes.covers (m.types.typeOf x) then
    match m.types.toValue x with
    | some v => .atom v
    | none => .noAtomicForm
  else if (m.converters.find? (m.types.typeOf x)).isSome then .nested
  else match m.types.view x with
    | .null => .null
    | .entity => .nested
    | .sequence => .sequence
    | .document d => .document d
    | .unstructured => .unstructured

def tooDeep {α : Type} : Traced α := .fail (.depthExceeded m.settings.maxDepth)

/-- The document that an object in a field is stored as, by its converter or field by field. `stage`
is one level below the entity that has the field. -/
def encodeNested (stage : Stage) (x : Datum) : Traced Document :=
  match m.converters.find? (m.types.typeOf x) with
  | some c =>
    match stage.handed with
    | some convert => (c.encode m.types x).run convert
    | none => m.tooDeep
  | none => stage.encodeEntity x

/-- Stores an object by its form. `items` are its stored parts, asked for only if it is a
sequence. -/
def encodeForm (stage : Stage) (x : Datum) (items : Unit → Traced (List Value)) : Traced Value :=
  match m.form x with
  | .null => .ok .null
  | .atom v => .ok v
  | .noAtomicForm => .fail (.noAtomicForm (m.types.typeOf x).name)
  | .nested => do pure (.document (← m.encodeNested stage x))
  | .document d => .ok (.document d)
  | .sequence => do pure (.array (← items ()))
  | .unstructured => .fail (.noStructure (m.types.typeOf x).name)

mutual

/-- Stores an object in a field or a sequence of an entity. `stage` is one level below the
entity. -/
def encodeValue (stage : Stage) : Datum → Traced Value
  | .some inner => encodeValue stage inner
  | .boxed inner => encodeValue stage inner
  | .seq item items =>
    m.encodeForm stage (.seq item items) fun _ => encodeItems stage 0 items
  | .record type parts =>
    m.encodeForm stage (.record type parts) fun _ => encodeItems stage 0 parts
  | x => m.encodeForm stage x fun _ => .ok []

def encodeItems (stage : Stage) (position : Nat) : List Datum → Traced (List Value)
  | [] => .ok []
  | x :: rest => do
    let v ← (encodeValue stage x).under ("[" ++ toString position ++ "]")
    let vs ← encodeItems stage (position + 1) rest
    pure (v :: vs)

end

def encodeField (stage : Stage) (x : Datum) (d : Document) (field : FieldSpec) :
    Traced Document :=
  match m.types.getField field.name x with
  | some part => do
    let v ← (m.encodeValue stage part).under field.name
    pure (d.insert field.name v)
  | none => .fail (.unknownField (m.types.typeOf x).name field.name)

def encodeEntity (below : Option Stage) (x : Datum) : Traced Document :=
  match below with
  | some stage => (m.types.fields x).foldlM (m.encodeField stage x) .empty
  | none => m.tooDeep

def encode (below : Option Stage) (x : Datum) : Traced Document :=
  match m.converters.find? (m.types.typeOf x) with
  | some c =>
    match below with
    | some stage => (c.encode m.types x).run (m.convertAt stage)
    | none => m.tooDeep
  | none =>
    match m.types.view x with
    | .entity => m.encodeEntity below x
    | _ => .fail (.noStructure (m.types.typeOf x).name)

/-! ## Decoding -/

/-- Reads one field of an entity from a document. A missing entry leaves the field as it is, or
is a failure if the field is required. -/
def decodeField (stage : Stage) (d : Document) (target : Descriptor) (x : Datum)
    (field : FieldSpec) : Traced Datum :=
  match d.get? field.name with
  | some v => ((m.types.setField x field.name v).run (m.convertAt stage)).under field.name
  | none =>
    if field.required then .fail (.missingField target.name field.name)
    else do
      Traced.emit (.fieldAbsent target.name field.name)
      pure x

def decode (below : Option Stage) (d : Document) (target : Descriptor) : Traced Datum :=
  match below with
  | none => m.tooDeep
  | some stage =>
    match m.converters.find? target with
    | some c => (c.fromDocument d).run (m.convertAt stage)
    | none =>
      match target.schema? with
      | some schema => schema.fields.foldlM (m.decodeField stage d target) schema.start
      | none => .fail (.uninstantiable target.name)

/-! ## Depth -/

/-- The mapper with so many levels left for entities and converters. -/
def stage : (room : Nat) → Stage
  | 0 =>
    { depth := m.settings.maxDepth + 1
      encode := fun x => m.encode none x
      decode := fun d target => m.decode none d target
      encodeEntity := fun x => m.encodeEntity none x
      handed := none }
  | room + 1 =>
    -- the stage below is made only when it is asked for something
    { depth := m.settings.maxDepth - room
      encode := fun x => m.encode (some (stage room)) x
      decode := fun d target => m.decode (some (stage room)) d target
      encodeEntity := fun x => m.encodeEntity (some (stage room)) x
      handed := some fun source target => m.convertAt (stage room) source target }

theorem stage_depth {room : Nat} (h : room ≤ m.settings.maxDepth + 1) :
    (m.stage room).depth = m.settings.maxDepth + 1 - room := by
  cases room with
  | zero => rfl
  | succ room => simp [stage]

/-- The mapper at a depth, as it is handed to converters and fields there. -/
def scope (depth : Nat) : Convert := m.convertAt (m.stage (m.settings.maxDepth + 1 - depth))

/-! ## Conversions -/

def convert : Convert := m.scope 0

def toDocument (x : Datum) : Traced Document := (m.types.toDocument x).run m.convert

def fromDocument (t : Ty) (d : Document) : Traced Datum :=
  (m.types.fromDocument t d).run m.convert

end Mapper

end ObjectDocument
