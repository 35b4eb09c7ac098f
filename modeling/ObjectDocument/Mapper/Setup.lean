import ObjectDocument.Mapper
import ObjectDocument.Settings.Host

/-!
# Setting up a mapper

A mapper is set up in steps, in any order: value types, converters and settings are collected, and
the mapper is made from what was collected. A converter for a type that has one takes its place,
which is told by an event.
-/

namespace ObjectDocument

structure Setup where
  types : Catalogue
  valueTypes : List Ty
  converters : Converters
  settings : Settings

inductive SetupStep
  | valueType (t : Ty)
  | converter (c : Converter)
  | settings (s : Settings)

namespace Setup

def empty (Γ : Catalogue) : Setup := ⟨Γ, [], .empty, .standard⟩

def step (u : Setup) : SetupStep → List Event × Setup
  | .valueType t => ([], { u with valueTypes := u.valueTypes ++ [t] })
  | .converter c =>
    let (events, converters) := u.converters.insert u.types c
    (events, { u with converters })
  | .settings settings => ([], { u with settings })

def steps (u : Setup) : List SetupStep → List Event × Setup
  | [] => ([], u)
  | s :: rest =>
    let (events, u) := u.step s
    let (more, u) := u.steps rest
    (events ++ more, u)

def mapper (u : Setup) : Mapper :=
  { types := u.types
    valueTypes := .extended u.valueTypes
    converters := u.converters
    settings := u.settings }

end Setup

namespace Mapper

def standard (Γ : Catalogue) : Mapper := (Setup.empty Γ).mapper

/-- Shows the mapper the settings of the host. It keeps nothing of them. -/
def observe (m : Mapper) (_ : HostSettings) : Mapper := m

end Mapper

end ObjectDocument
