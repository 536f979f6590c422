import Graft.Campaign.Options
import Graft.Campaign.Plan
import Graft.Event
import Graft.Toml.Loading

/-!
# Configuring a campaign

A configuration comes from the file that the command line names, or else from a
file of a fixed name if it is there, or else from the defaults. Options override
what the file says, and the result is validated.
-/

namespace Graft.Campaign

/-- The file that is looked for where the command line names none. -/
def defaultPath : String := "grammut.toml"

/-- Why a campaign cannot be configured. -/
inductive ConfiguringError where
  | file (error : Toml.LoadError)
  | configuration (error : ConfigurationError)

/-- The message of a campaign that cannot be configured. -/
def ConfiguringError.message : ConfiguringError → String
  | .file error => error.message
  | .configuration error => error.message

/-- The event that tells where a configuration comes from. -/
def origin (options : Options) (files : Files) : Event :=
  match options.configFile with
  | some path => .loadingSpecified path
  | none =>
    if files.isThere defaultPath then .loadingDefault defaultPath else .usingBuiltIn defaultPath

/-- The configuration before any option overrides it. -/
def written (options : Options) (files : Files) : Except Toml.LoadError Configuration :=
  match options.configFile with
  | some path => Toml.load Configuration.decode files path
  | none =>
    if files.isThere defaultPath then Toml.load Configuration.decode files defaultPath
    else .ok {}

/-- A configuration with the options that override it. -/
def Configuration.override (configuration : Configuration) (options : Options) : Configuration :=
  { configuration with
    plan :=
      { configuration.plan with
        threads := options.threads.getD configuration.plan.threads
        iterations := options.iterations.getD configuration.plan.iterations
        seed := options.seed.getD configuration.plan.seed } }

/-- The configuration of a campaign. -/
def configure (options : Options) (files : Files) : Except ConfiguringError Configuration := do
  let written ← (written options files).mapError .file
  let configuration := written.override options
  configuration.validate.mapError .configuration
  return configuration

end Graft.Campaign
