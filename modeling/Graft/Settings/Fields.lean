import Graft.Settings.Basic
import Graft.Toml.Record

/-!
# Settings in configuration files

The keys under which settings are written, and the types they must have. A key
that is left out keeps its default.
-/

namespace Graft

open Toml

/-- The weights of the strategies. -/
def PerStrategy.decode : Decoder (PerStrategy Float) :=
  decodeRecord "StrategyWeights"
    [.of "replace-node" decodeDouble fun weights value => { weights with replaceNode := value },
      .of "splice" decodeDouble fun weights value => { weights with splice := value },
      .of "repeat-mutator" decodeDouble fun weights value =>
        { weights with repeatMutator := value },
      .of "repeat-splice" decodeDouble fun weights value =>
        { weights with repeatSplice := value }]
    ({} : Settings).strategyWeights

/-- The weights of the modes. -/
def PerMode.decode : Decoder (PerMode Float) :=
  decodeRecord "RepeatModeWeights"
    [.of "delete" decodeDouble fun weights value => { weights with delete := value },
      .of "delete-then-insert" decodeDouble fun weights value =>
        { weights with deleteThenInsert := value },
      .of "insert" decodeDouble fun weights value => { weights with insert := value }]
    ({} : Settings).repeatModes

namespace Settings

/-- The keys of the settings. -/
def fields : List (RecordField Settings) :=
  [.of "root-symbol" (decodeText "a string") fun settings value =>
      { settings with rootSymbol := value },
    .of "max-depth" (decodeNatural "usize") fun settings value =>
      { settings with maxDepth := value },
    .of "depth-decay" decodeDouble fun settings value => { settings with depthDecay := value },
    .of "regenerate-probability" decodeDouble fun settings value =>
      { settings with regenerateProbability := value },
    .of "max-mutation-attempts" (decodeNatural "usize") fun settings value =>
      { settings with maxMutationAttempts := value },
    .of "continue-probability" decodeDouble fun settings value =>
      { settings with continueProbability := value },
    .of "repeat-probability" decodeDouble fun settings value =>
      { settings with repeatProbability := value },
    .of "repeat-splice-delete-probability" decodeDouble fun settings value =>
      { settings with repeatSpliceDeleteProbability := value },
    .of "generation-warn-interval" (decodeNatural "u64") fun settings value =>
      { settings with generationWarnInterval := value },
    .of "corpus-capacity" (decodeNatural "usize") fun settings value =>
      { settings with corpusCapacity := some value },
    .of "strategy-weights" PerStrategy.decode fun settings value =>
      { settings with strategyWeights := value },
    .of "repeat-modes" PerMode.decode fun settings value =>
      { settings with repeatModes := value }]

/-- Read settings. -/
def decode : Decoder Settings :=
  decodeRecord "MutatorConfig" fields {}

end Settings

end Graft
