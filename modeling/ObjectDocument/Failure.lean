/-!
# Why a conversion fails

A conversion is either refused as a whole, or fails at some place of the object or document. A
failure at a place carries the path to it, outermost segment first, and its cause; the text of a
failure is made from these parts alone.
-/

namespace ObjectDocument

inductive Reason
  /-- Neither a value type nor decomposable. -/
  | unclassifiable
  | typeMismatch
  | missingField
  | unknownField
  | uninstantiable
  | depthExceeded
  | converter
  deriving DecidableEq, Repr

def Reason.text : Reason → String
  | .unclassifiable => "unclassifiable type"
  | .typeMismatch => "type mismatch"
  | .missingField => "missing field"
  | .unknownField => "unknown field"
  | .uninstantiable => "uninstantiable type"
  | .depthExceeded => "depth exceeded"
  | .converter => "converter error"

def Reason.label : Reason → String
  | .unclassifiable => "Unclassifiable"
  | .typeMismatch => "TypeMismatch"
  | .missingField => "MissingField"
  | .unknownField => "UnknownField"
  | .uninstantiable => "Uninstantiable"
  | .depthExceeded => "DepthExceeded"
  | .converter => "Converter"

inductive Cause
  /-- An object that is no value type and has no visible structure. -/
  | noStructure (type : String)
  /-- An object of a value type that has no document value. -/
  | noAtomicForm (type : String)
  | typeMismatch (expected found : String)
  | missingField (entity field : String)
  | unknownField (entity field : String)
  | uninstantiable (type : String)
  | depthExceeded (limit : Nat)
  | stated (reason : Reason) (words : String)
  deriving DecidableEq, Repr

namespace Cause

def reason : Cause → Reason
  | .noStructure _ | .noAtomicForm _ => .unclassifiable
  | .typeMismatch _ _ => .typeMismatch
  | .missingField _ _ => .missingField
  | .unknownField _ _ => .unknownField
  | .uninstantiable _ => .uninstantiable
  | .depthExceeded _ => .depthExceeded
  | .stated reason _ => reason

def text : Cause → String
  | .noStructure type => type ++ " is not a value type and has no visible structure"
  | .noAtomicForm type => type ++ " is a value type without an atomic form"
  | .typeMismatch expected found => "expected " ++ expected ++ ", found " ++ found
  | .missingField entity field => entity ++ " requires field '" ++ field ++ "'"
  | .unknownField entity field => entity ++ " has no field '" ++ field ++ "'"
  | .uninstantiable type => type ++ " cannot be instantiated from a document"
  | .depthExceeded limit => "nesting deeper than " ++ toString limit ++ " levels"
  | .stated _ words => words

end Cause

inductive Failure
  | incompatible (source target : String)
  | structural (path : List String) (cause : Cause)
  deriving DecidableEq, Repr

namespace Failure

def here (cause : Cause) : Failure := .structural [] cause

def converter (words : String) : Failure := .here (.stated .converter words)

/-- Puts a segment in front of the path. A refusal has no path. -/
def under (segment : String) : Failure → Failure
  | .structural path cause => .structural (segment :: path) cause
  | e => e

def isIncompatible : Failure → Bool
  | .incompatible _ _ => true
  | .structural _ _ => false

def reason? : Failure → Option Reason
  | .structural _ cause => some cause.reason
  | .incompatible _ _ => none

def label (e : Failure) : String := (e.reason?.map Reason.label).getD "Incompatible"

def detail (path : List String) (cause : Cause) : String :=
  ": ".intercalate (path ++ [cause.text])

def text : Failure → String
  | .incompatible source target =>
    "can't convert object of type " ++ source ++ " to type " ++ target ++
      ", try registering an EntityConverter for it"
  | .structural path cause => cause.reason.text ++ ": " ++ detail path cause

def sameReport : Failure → Failure → Bool
  | .incompatible s t, .incompatible u v => s == u && t == v
  | .structural p c, .structural q d => c.reason == d.reason && detail p c == detail q d
  | _, _ => false

end Failure

end ObjectDocument
