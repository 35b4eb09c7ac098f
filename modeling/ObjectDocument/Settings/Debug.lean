import ObjectDocument.Settings
import ObjectDocument.Settings.Host
import ObjectDocument.Value.Debug

/-!
# Settings and their errors as text for diagnosis
-/

namespace ObjectDocument

def SettingsError.debug (e : SettingsError) : String := wrapText "Config" (Text.quoted e.detail)

def HostSettings.debug (s : HostSettings) : String :=
  recordText "HostConfig" [("has_settings", if s.held.isSome then "true" else "false")]

end ObjectDocument
