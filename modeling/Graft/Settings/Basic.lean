import Graft.Corpus
import Graft.Decimal.Positional
import Graft.Mutation.Strategy

/-!
# Settings of a mutator

The settings say how a mutator weighs its choices and when it stops. Each has a
default. Settings are taken as they are; `validate` says whether they describe a
mutator that can work, and reports the first reason against it.
-/

namespace Graft

/-- The settings of a mutator. -/
structure Settings where
  /-- The name of the symbol that samples derive from. -/
  rootSymbol : String := "root"
  /-- The depth below which no node is a candidate. -/
  maxDepth : Nat := 100
  /-- The divisor of a candidate's weight for each level. -/
  depthDecay : Float := 1.4
  /-- The probability that a request grows a whole new tree. -/
  regenerateProbability : Float := 0.1
  /-- The most attempts at an edit that a request makes. -/
  maxMutationAttempts : Nat := 100
  /-- The probability that a request goes on after a successful edit. -/
  continueProbability : Float := 0.5
  /-- The probability that a run of deleted, inserted or copied elements goes on. -/
  repeatProbability : Float := 0.75
  /-- The probability that copying into a repetition deletes elements first. -/
  repeatSpliceDeleteProbability : Float := 0.4
  /-- How many failed growths lie between two warnings. -/
  generationWarnInterval : Nat := 100
  /-- The limit of the corpus. -/
  corpusCapacity : Option Nat := none
  strategyWeights : PerStrategy Float := ⟨0.3, 0.2, 0.3, 0.2⟩
  repeatModes : PerMode Float := ⟨0.2, 0.2, 0.6⟩

/-- Why settings are refused. -/
inductive SettingsError where
  | probabilityOutOfRange (key : String) (value : Float)
  /-- Insertions go on with certainty. -/
  | endlessRepeat (value : Float)
  | nonPositiveDecay (value : Float)
  | invalidWeights (table : String)
  | zeroCapacity
  | emptyRootSymbol

/-- The message of refused settings. -/
def SettingsError.message : SettingsError → String
  | .probabilityOutOfRange key value =>
    key ++ " must be a probability in [0, 1], got " ++ Decimal.text value
  | .endlessRepeat value =>
    "repeat-probability must be below 1 or insertions never stop, got " ++ Decimal.text value
  | .nonPositiveDecay value => "depth-decay must be positive, got " ++ Decimal.text value
  | .invalidWeights table => table ++ " weights must be non-negative and not all zero"
  | .zeroCapacity => "corpus-capacity must be at least 1"
  | .emptyRootSymbol => "root-symbol must not be empty"

namespace Settings

/-- The settings that are probabilities, each with its key. -/
def probabilities (settings : Settings) : List (String × Float) :=
  [("regenerate-probability", settings.regenerateProbability),
    ("continue-probability", settings.continueProbability),
    ("repeat-probability", settings.repeatProbability),
    ("repeat-splice-delete-probability", settings.repeatSpliceDeleteProbability)]

/-- Whether a number lies in `[0, 1]`. -/
def isProbability (value : Float) : Bool :=
  0 ≤ value && value ≤ 1

/-- Whether weights are finite, not negative, and not all zero. -/
def areWeights (weights : List Float) (total : Float) : Bool :=
  weights.all (fun weight => weight.isFinite && 0 ≤ weight) && 0 < total

/-- Refuse settings that no mutator can work with. -/
def validate (settings : Settings) : Except SettingsError Unit := do
  if settings.rootSymbol.isEmpty then throw .emptyRootSymbol
  match settings.probabilities.find? (fun entry => !isProbability entry.2) with
  | some (key, value) => throw (.probabilityOutOfRange key value)
  | none => pure ()
  if 1 ≤ settings.repeatProbability then throw (.endlessRepeat settings.repeatProbability)
  if settings.depthDecay.isNaN || settings.depthDecay ≤ 0 then
    throw (.nonPositiveDecay settings.depthDecay)
  unless areWeights settings.strategyWeights.toList settings.strategyWeights.total do
    throw (.invalidWeights "strategy")
  unless areWeights settings.repeatModes.toList settings.repeatModes.total do
    throw (.invalidWeights "repeat-mode")
  if settings.corpusCapacity = some 0 then throw .zeroCapacity

/-- An empty corpus as the settings limit it. -/
def corpus (settings : Settings) : Corpus :=
  .ofCapacity settings.corpusCapacity

end Settings

end Graft
