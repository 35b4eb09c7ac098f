import ObjectDocument.Mapper

/-!
# Paths

A path leads from a value into a nested one, through the entries of documents and the items of
arrays. The path of a failure is its text. Only entries lead to another level of nesting.
-/

namespace ObjectDocument

inductive Step
  | key (name : String)
  | index (i : Nat)
  deriving DecidableEq

def Step.text : Step → String
  | .key name => name
  | .index i => "[" ++ toString i ++ "]"

/-- How many levels of nesting a path crosses. -/
def levels : List Step → Nat
  | [] => 0
  | .key _ :: p => levels p + 1
  | .index _ :: p => levels p

def Value.at? : Value → List Step → Option Value
  | v, [] => some v
  | .document d, .key name :: p => (d.get? name).bind fun v => v.at? p
  | .array items, .index i :: p => items[i]?.bind fun v => v.at? p
  | _, _ => none

@[simp] theorem Value.at?_nil (v : Value) : v.at? [] = some v := by cases v <;> rfl

end ObjectDocument
