import Graft.Settings.Fields

/-!
# Planning a campaign

A campaign is a number of workers that mutate samples side by side. The plan says
how many there are and how long they work; together with the settings of their
mutators it is all that a campaign is configured by.
-/

namespace Graft.Campaign

open Toml

/-- How a campaign is run. -/
structure Plan where
  /-- The number of workers. -/
  threads : Nat := 4
  /-- The number of requests each worker makes. -/
  iterations : Nat := 10000
  /-- The seed that the workers' own seeds derive from. -/
  seed : Nat := 0
  /-- The number of samples each worker generates before it mutates. -/
  initialSamples : Nat := 8
  /-- The number of requests between two reports of progress. -/
  reportInterval : Nat := 1000
  /-- Where new renderings are written. -/
  outputDir : Option String := none
deriving DecidableEq, Repr

/-- All that a campaign is configured by. -/
structure Configuration where
  plan : Plan := {}
  settings : Settings := {}

/-- Why a configuration is refused. -/
inductive ConfigurationError where
  | noThreads
  | noInitialSamples
  | settings (error : SettingsError)

/-- The message of a refused configuration. -/
def ConfigurationError.message : ConfigurationError → String
  | .noThreads => "driver.threads must be at least 1"
  | .noInitialSamples => "driver.initial-samples must be at least 1"
  | .settings error => "Invalid [mutator] section: " ++ error.message

namespace Plan

/-- The keys of the plan. -/
def fields : List (RecordField Plan) :=
  [.of "threads" (decodeNatural "usize") fun plan value => { plan with threads := value },
    .of "iterations" (decodeNatural "u64") fun plan value => { plan with iterations := value },
    .of "seed" (decodeNatural "u64") fun plan value => { plan with seed := value },
    .of "initial-samples" (decodeNatural "usize") fun plan value =>
      { plan with initialSamples := value },
    .of "report-interval" (decodeNatural "u64") fun plan value =>
      { plan with reportInterval := value },
    .of "output-dir" (decodeText "path string") fun plan value =>
      { plan with outputDir := some value }]

/-- Read a plan. -/
def decode : Decoder Plan :=
  decodeRecord "DriverSettings" fields {}

end Plan

namespace Configuration

/-- The sections of a configuration. -/
def fields : List (RecordField Configuration) :=
  [.of "driver" Plan.decode fun configuration value => { configuration with plan := value },
    .of "mutator" Settings.decode fun configuration value =>
      { configuration with settings := value }]

/-- Read a configuration. -/
def decode : Decoder Configuration :=
  decodeRecord "DriverConfig" fields {}

/-- Refuse a configuration with which no campaign can be run. -/
def validate (configuration : Configuration) : Except ConfigurationError Unit := do
  if configuration.plan.threads = 0 then throw .noThreads
  if configuration.plan.initialSamples = 0 then throw .noInitialSamples
  configuration.settings.validate.mapError .settings

end Configuration

end Graft.Campaign
