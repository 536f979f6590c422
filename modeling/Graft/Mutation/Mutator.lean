import Graft.Mutation.Journal
import Graft.Mutation.Attempt
import Graft.Mutation.Tally
import Graft.Sample.Reading

/-!
# Mutators

A mutator grows samples from scratch and makes mutated versions of the tree that
is bound to it. A request either grows a whole new tree or applies edits to a
copy of the bound tree, as many as chance grants; the bound tree itself is never
changed. A request with a bound tree always answers with a sample, even if no
edit succeeded.

The corpus is shared with other mutators. Binding a tree and mutating it only
read the corpus; a tree enters it when its sample is found interesting.
-/

namespace Graft

/-- An error that a mutator reports. -/
inductive MutationError where
  /-- The grammar has no symbol of the configured name. -/
  | missingRoot (name : String)
  /-- A mutation was requested before a tree was bound. -/
  | nothingBound
  /-- A sample was refused. -/
  | sample (error : SampleError)
deriving DecidableEq, Repr

/-- The message of an error that a mutator reports. -/
def MutationError.message : MutationError → String
  | .missingRoot name => "Symbol " ++ Symbol.displayed name ++ " not found in grammar"
  | .nothingBound => "No sample context bound; call init_round before mutate"
  | .sample error => "Grammar operation failed within mutator: " ++ error.message

/-- A mutator between two requests. -/
structure Mutator where
  engine : Engine
  /-- The tree that requests start from. -/
  bound : Option Tree := none
  /-- The candidates collected last, of whatever tree that was. -/
  sites : Sites := ⟨[], []⟩
  /-- The donors collected last. -/
  donors : List Candidate := []
  tally : Tally := {}

/-- A request in progress. -/
structure Request where
  /-- The tree as edited so far. -/
  working : Tree
  /-- Whether an edit has succeeded. -/
  changed : Bool := false
  sites : Sites
  donors : List Candidate
  tally : Tally

/-- The request with the candidates of its tree as it is now in place of those collected
    before, which a change to the tree has made meaningless. -/
def Request.refresh (engine : Engine) (request : Request) : Request :=
  { request with sites := engine.collectSites request.working request.sites }

/-- What a request is served in: how it looks the corpus up, and how it makes trials. -/
structure Surroundings (σ : Type) (m : Type → Type) where
  /-- The corpus as an attempt finds it, when so many attempts remain after it. -/
  look : (remaining : Nat) → m Corpus
  /-- Make a trial. -/
  trial : {α : Type} → Trial MutationError σ α → m α

/-- Surroundings in which the corpus is known for every attempt. -/
def Surroundings.amid {σ : Type} (corpus : Nat → Corpus) :
    Surroundings σ (Trial MutationError σ) where
  look remaining := pure (corpus remaining)
  trial program := program

namespace Mutator

open Graft.Random

variable {σ : Type} [Source σ]

/-- A mutator for a grammar. -/
def create (grammar : Grammar) (settings : Settings) (patience : Nat) :
    Except MutationError Mutator :=
  match Engine.ofSettings? grammar settings patience with
  | some engine => .ok { engine }
  | none => .error (.missingRoot settings.rootSymbol)

/-- Grow a symbol again and again until it succeeds, with a warning each time that
    another interval of failures has passed. -/
def growUntil (engine : Engine) (symbol : Symbol) (failures : Nat) :
    (patience : Nat) → Trial MutationError σ Tree
  | 0 => throw (.fault .patienceExhausted)
  | patience + 1 => do
    match ← Trial.chance (engine.grow symbol 0) with
    | some tree => return tree
    | none =>
      let failures := failures + 1
      if failures % max engine.settings.generationWarnInterval 1 = 0 then
        Trial.note (.growthFailing failures symbol.name)
      growUntil engine symbol failures patience

/-- Grow a symbol until it succeeds. -/
def growAtLast (engine : Engine) (symbol : Symbol) : Trial MutationError σ Tree :=
  growUntil engine symbol 0 engine.patience

/-- A new sample of the root symbol. -/
def generateSample (mutator : Mutator) : Trial MutationError σ Bytes := do
  return (← growAtLast mutator.engine mutator.engine.root).toSample

/-- Read an interesting sample. Its tree enters the corpus and can be bound. -/
def createContext (mutator : Mutator) (corpus : Corpus) (sample : Bytes) :
    Except (Stop MutationError) (Tree × Corpus) :=
  match mutator.engine.grammar.readSample sample with
  | .ok tree => .ok (tree, corpus.register tree)
  | .error refusal => .error (refusal.mapError .sample)

/-- Bind a tree for the requests that follow. -/
def initRound (mutator : Mutator) (tree : Tree) : Mutator :=
  { mutator with bound := some tree }

/-- One attempt at an edit. The strategy finds the candidates of the tree in the request,
    where they have just been collected. -/
def attempt (engine : Engine) (corpus : Corpus) (request : Request) :
    Trial MutationError σ (Request × Bool) := do
  let request := request.refresh engine
  let strategy := Strategy.pick (← Trial.chance Chance.fraction) engine.settings.strategyWeights
  let attempt ← Trial.chance
    (engine.apply corpus strategy request.sites request.working request.donors)
  let succeeded := attempt.edited.applied
  unless succeeded do Trial.note (.didNotApply strategy)
  return ({ request with
    working := attempt.edited.tree
    changed := request.changed || succeeded
    donors := attempt.donors
    tally := request.tally.record strategy succeeded }, succeeded)

section Serving

variable {m : Type → Type} [Monad m]

/-- Attempt edits until the limit is reached or a successful one is the last. The
    corpus is looked up for every attempt, as others may add to it meanwhile. -/
def editWithin (around : Surroundings σ m) (engine : Engine) (request : Request) :
    (attempts : Nat) → m Request
  | 0 => return request
  | attempts + 1 => do
    let corpus ← around.look attempts
    let (request, succeeded) ← around.trial (attempt engine corpus request)
    if succeeded then
      if engine.settings.continueProbability < (← around.trial (Trial.chance Chance.fraction)) then
        return request
    editWithin around engine request attempts

/-- Answer a request from the given tree by edits. -/
def mutateByEditsWithin (around : Surroundings σ m) (mutator : Mutator) (bound : Tree) :
    m (Mutator × Bytes) := do
  let engine := mutator.engine
  let request ← editWithin around engine
    { working := bound, sites := mutator.sites, donors := mutator.donors, tally := mutator.tally }
    engine.settings.maxMutationAttempts
  let tally := request.tally
  let mutator := { mutator with sites := request.sites, donors := request.donors }
  if request.changed then
    return ({ mutator with tally }, request.working.toSample)
  else
    around.trial (Trial.note .unproductive)
    return ({ mutator with tally := { tally with unproductive := tally.unproductive + 1 } },
      request.working.toSample)

/-- Answer a request. -/
def mutateWithin (around : Surroundings σ m) (mutator : Mutator) : m (Mutator × Bytes) :=
  match mutator.bound with
  | none => around.trial (throw (.error .nothingBound))
  | some bound => do
    let tally := { mutator.tally with requests := mutator.tally.requests + 1 }
    let mutator := { mutator with tally }
    let engine := mutator.engine
    let fraction ← around.trial (Trial.chance Chance.fraction)
    let regenerate := fraction < engine.settings.regenerateProbability
    let grown ←
      if regenerate then around.trial (Trial.chance (engine.grow engine.root 0)) else pure none
    match grown with
    | some tree =>
      around.trial (Trial.note .regenerated)
      return ({ mutator with tally := { tally with regenerations := tally.regenerations + 1 } },
        tree.toSample)
    | none => mutateByEditsWithin around mutator bound

end Serving

/-- Attempt edits, with the corpus as it is known for every attempt. -/
def edit (engine : Engine) (corpus : Nat → Corpus) (request : Request) (attempts : Nat) :
    Trial MutationError σ Request :=
  editWithin (.amid corpus) engine request attempts

/-- Answer a request from the given tree by edits, with the corpus as it is known for every
    attempt. -/
def mutateByEdits (mutator : Mutator) (corpus : Nat → Corpus) (bound : Tree) :
    Trial MutationError σ (Mutator × Bytes) :=
  mutateByEditsWithin (.amid corpus) mutator bound

/-- Answer a request while the corpus may change between attempts: it is as
    `corpus` says when so many attempts remain after the present one. -/
def mutateAmid (mutator : Mutator) (corpus : Nat → Corpus) :
    Trial MutationError σ (Mutator × Bytes) :=
  mutateWithin (.amid corpus) mutator

/-- Answer a request: a mutated version of the bound tree as a sample. -/
def mutate (mutator : Mutator) (corpus : Corpus) : Trial MutationError σ (Mutator × Bytes) :=
  mutator.mutateAmid fun _ => corpus

end Mutator

end Graft
