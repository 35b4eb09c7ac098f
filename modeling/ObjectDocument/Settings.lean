/-!
# Settings of a mapper

Settings are read from a text of `key = value` lines. What is wrong with a text, or with the
file it was to come from, is told with the places it came through, outermost first.
-/

namespace ObjectDocument

structure Settings where
  /-- How deep entities may be nested. Sequences do not count. -/
  maxDepth : Nat
  /-- Whether a source that has the target type, or may stand in for it, is returned as it is. -/
  passThroughAssignable : Bool
  deriving DecidableEq, Repr

namespace Settings

def standard : Settings := ⟨64, true⟩

instance : Inhabited Settings := ⟨standard⟩

end Settings

inductive SettingsCause
  | malformed
  | zeroDepth
  | noSuchFile
  | stated (words : String)
  deriving DecidableEq, Repr

def SettingsCause.text : SettingsCause → String
  | .malformed => "not a mapper configuration"
  | .zeroDepth => "max_depth must be at least 1"
  | .noSuchFile => "No such file or directory (os error 2)"
  | .stated words => words

structure SettingsError where
  path : List String
  cause : SettingsCause
  deriving DecidableEq, Repr

namespace SettingsError

def here (cause : SettingsCause) : SettingsError := ⟨[], cause⟩

def under (place : String) (e : SettingsError) : SettingsError := ⟨place :: e.path, e.cause⟩

def detail (e : SettingsError) : String := ": ".intercalate (e.path ++ [e.cause.text])

def text (e : SettingsError) : String := "config error: " ++ e.detail

end SettingsError

end ObjectDocument
