import Graft.Campaign.Configure
import Graft.Proofs.Double

/-!
# Settings that are accepted

Validation refuses settings for the first reason it meets. Settings that it
accepts give it none of its reasons, and settings that give it none are accepted.
What a mutator relies on is then a field of what it means to be valid.
-/

namespace Graft.Settings

open Graft.Double

/-- There is nothing against the settings. -/
structure Valid (settings : Settings) : Prop where
  /-- The root symbol has a name. -/
  named : settings.rootSymbol.isEmpty = false
  /-- Every probability is one. -/
  probabilities : ∀ entry ∈ settings.probabilities, isProbability entry.2 = true
  /-- A run of elements does not go on with certainty. -/
  endsRuns : ¬ 1 ≤ settings.repeatProbability
  /-- The decay is a number. -/
  decayNumber : settings.depthDecay.isNaN = false
  /-- The decay is above zero. -/
  decayAbove : ¬ settings.depthDecay ≤ 0
  /-- Some strategy has weight. -/
  strategyWeights :
    areWeights settings.strategyWeights.toList settings.strategyWeights.total = true
  /-- Some mode has weight. -/
  repeatModes : areWeights settings.repeatModes.toList settings.repeatModes.total = true
  /-- A corpus with a limit has room for a tree. -/
  room : settings.corpusCapacity ≠ some 0

section Checks

variable {ε : Type} {error : ε} {result : Unit} {condition : Prop} [Decidable condition]
  {next : PUnit → Except ε Unit} {rest : Except ε Unit}

/-- A check that refuses is passed where its condition fails, and what is then asked is what comes
after it. -/
theorem refuse_eq_ok_iff :
    (if condition then throw error >>= next else rest) = .ok result ↔
      ¬ condition ∧ rest = .ok result := by
  by_cases refused : condition
  · have failed : (throw error >>= next : Except ε Unit) = .error error := rfl
    simp [refused, failed]
  · simp [refused]

/-- A check that demands is passed where its condition holds. It is the check that refuses, with its
branches the other way around. -/
theorem demand_eq_ok_iff :
    (if condition then rest else throw error >>= next) = .ok result ↔
      condition ∧ rest = .ok result := by
  by_cases demanded : condition
  · simp [demanded]
  · have failed : (throw error >>= next : Except ε Unit) = .error error := rfl
    simp [demanded, failed]

end Checks

/-- Settings are accepted exactly if they are valid. The checks are made one after the other, and
each of them is one of the conditions. -/
theorem validate_eq_ok_iff {settings : Settings} :
    settings.validate = .ok () ↔ settings.Valid := by
  have allProbabilities :
      settings.probabilities.find? (fun entry => !isProbability entry.2) = none ↔
        ∀ entry ∈ settings.probabilities, isProbability entry.2 = true := by
    simp [List.find?_eq_none]
  unfold validate
  simp only [refuse_eq_ok_iff]
  cases found : settings.probabilities.find? fun entry => !isProbability entry.2 with
  | some entry =>
    constructor
    · rintro ⟨-, accepted⟩
      cases accepted
    · intro valid
      rw [allProbabilities.mpr valid.probabilities] at found
      cases found
  | none =>
    simp only [refuse_eq_ok_iff, demand_eq_ok_iff, Bool.or_eq_true, not_or, decide_eq_true_eq,
      Bool.not_eq_true]
    constructor
    · rintro ⟨named, endsRuns, ⟨decayNumber, decayAbove⟩, strategyWeights, repeatModes, room⟩
      refine ⟨named, allProbabilities.mp found, endsRuns, decayNumber, decayAbove,
        strategyWeights, repeatModes, fun none => ?_⟩
      rw [if_pos none] at room
      cases room
    · intro valid
      exact ⟨valid.named, valid.endsRuns, ⟨valid.decayNumber, valid.decayAbove⟩,
        valid.strategyWeights, valid.repeatModes, if_neg valid.room⟩

/-- Valid settings have a decay above zero. They are checked not to be at most zero and to be a
number, which together come to this. -/
theorem Valid.isPositive_depthDecay {settings : Settings} (valid : settings.Valid) :
    IsPositive settings.depthDecay :=
  isPositive_of_not_le_zero valid.decayNumber valid.decayAbove

end Graft.Settings

namespace Graft.Campaign

open Settings

/-- A configuration is accepted exactly if it asks for some worker and some first sample, and its
settings are valid. -/
theorem Configuration.validate_eq_ok_iff {configuration : Configuration} :
    configuration.validate = .ok () ↔ configuration.plan.threads ≠ 0 ∧
      configuration.plan.initialSamples ≠ 0 ∧ configuration.settings.Valid := by
  simp only [Configuration.validate, refuse_eq_ok_iff, ← Settings.validate_eq_ok_iff]
  cases configuration.settings.validate with
  | error error => simp [Except.mapError]
  | ok value => simp [Except.mapError]

/-- What a campaign is configured with has been accepted, whatever the options and the files. -/
theorem validate_of_configure {options : Options} {files : Files} {configuration : Configuration}
    (configured : configure options files = .ok configuration) :
    configuration.validate = .ok () := by
  unfold configure at configured
  cases found : written options files with
  | error error =>
    rw [found] at configured
    cases configured
  | ok written =>
    rw [found] at configured
    cases validated : (written.override options).validate with
    | error error =>
      simp only [validated, Except.mapError, bind, Except.bind] at configured
      cases configured
    | ok value =>
      simp only [validated, Except.mapError, bind, Except.bind] at configured
      obtain rfl := Except.ok.inj configured
      exact validated

end Graft.Campaign
