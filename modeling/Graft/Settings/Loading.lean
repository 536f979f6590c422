import Graft.Settings.Fields
import Graft.Toml.Loading

/-!
# Loading settings

A file of settings must hold settings that a mutator can work with.
-/

namespace Graft.Settings

/-- Why settings cannot be loaded. -/
inductive LoadingError where
  | file (error : Toml.LoadError)
  | invalid (path : String) (error : SettingsError)

/-- The message of settings that cannot be loaded. -/
def LoadingError.message : LoadingError → String
  | .file error => error.message
  | .invalid path error =>
    "Invalid mutator config in " ++ Text.Quoted.quote path ++ ": " ++ error.message

/-- Load settings and validate them. -/
def load (files : Files) (path : String) : Except LoadingError Settings := do
  let settings ← (Toml.load decode files path).mapError .file
  settings.validate.mapError (.invalid path)
  return settings

end Graft.Settings
