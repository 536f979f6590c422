import Graft.Campaign.Novelty
import Graft.Campaign.Plan
import Graft.Mutation.Errand
import Graft.Random.ChaCha

/-!
# Workers

A worker generates its first samples and then mutates, one request after another,
samples it has kept. It keeps a sample if its rendering is novel to this worker:
the rendering is written out if the plan asks for it, the sample's tree enters the
shared corpus, and later requests may start from it. All its choices come from one
stream, whose seed is the plan's seed advanced by the worker's number.

Workers share a corpus, the files and the log, and get at them by accesses. What a
worker has done to them stays, also if it ends with an error or a fault.
-/

namespace Graft.Campaign

open Graft.Random

/-- Why a worker ends with an error. -/
inductive WorkerError where
  | mutation (error : MutationError)
  | sample (error : SampleError)
  | output (path : String) (cause : FileError)
deriving DecidableEq, Repr

/-- The message of an error that ends a worker. -/
def WorkerError.message : WorkerError → String
  | .mutation error => error.message
  | .sample error => error.message
  | .output path cause =>
    "Failed to write output " ++ Text.Quoted.quote path ++ ": " ++ cause.message

/-- A worker between two requests. -/
structure Worker (σ : Type) where
  /-- The worker's place among the others. -/
  number : Nat
  plan : Plan
  mutator : Mutator
  source : σ
  novelty : Novelty := {}
  /-- The samples that it keeps, in the order of their discovery. -/
  samples : Array Bytes := #[]
  /-- The trees that requests start from, one for every sample that it keeps. -/
  contexts : Array Tree := #[]
  /-- The samples it has made, whether it keeps them or not, the latest first. -/
  made : List Bytes := []

/-- What a worker reports in the end. -/
structure Report where
  worker : Nat
  tally : Tally
  /-- The number of novel renderings. -/
  discovered : Nat
deriving DecidableEq, Repr

/-- How a worker ends. -/
structure Ending (σ : Type) where
  result : Except (Stop WorkerError) Report
  /-- The source that its draws have led to. -/
  source : σ
  /-- The samples it has made, the latest first. -/
  made : List Bytes

/-- Something a worker does. -/
abbrev Work (σ α : Type) := Errand (Stop WorkerError) (Worker σ) α

namespace Worker

variable {σ : Type} [Source σ]

/-- End with an error. -/
def report {α : Type} (error : WorkerError) : Work σ α :=
  throw (.error error)

/-- Take what has an error of its own, or end with that error. -/
def orReport {ε α : Type} (wrap : ε → WorkerError) (result : Except (Stop ε) α) : Work σ α :=
  match result with
  | .ok value => pure value
  | .error stop => throw (stop.mapError wrap)

/-- Let the mutator do an errand with the worker's source. -/
def carry {α : Type} (errand : Errand (Stop MutationError) σ α) : Work σ α := fun worker => do
  let (result, source) ← errand worker.source
  return (result.mapError fun stop => stop.mapError .mutation, { worker with source })

/-- Write a rendering to the output directory, under its digest. -/
def writeOutput (directory : String) (digest : Md5.Digest) (rendering : Bytes) :
    Work σ Unit := do
  let path := FilePath.join directory digest.hex
  let written : Except FileError Unit ← Errand.ask (.write path rendering)
  match written with
  | .ok _ => return
  | .error cause => report (.output path cause)

/-- Keep a sample that has just been made if its rendering is novel. -/
def keepIfNovel (sample : Bytes) : Work σ Unit := do
  modify fun worker => { worker with made := sample :: worker.made }
  let worker ← get
  let tree ← orReport .sample (worker.mutator.engine.grammar.readSample sample)
  let rendering := tree.render
  let (novel, novelty) := worker.novelty.observe rendering
  set { worker with novelty }
  match novel with
  | none => return
  | some digest =>
    match worker.plan.outputDir with
    | some directory => writeOutput directory digest rendering
    | none => pure ()
    let tree ← carry (worker.mutator.creatingContext sample)
    modify fun worker => { worker with contexts := worker.contexts.push tree }
    modify fun worker => { worker with samples := worker.samples.push sample }

/-- Generate a sample, and keep it if it is novel. -/
def generate : Work σ Unit := do
  let sample ← carry (← get).mutator.generating
  keepIfNovel sample

/-- Pick one of the kept samples. Its tree is what a request starts from. -/
def pick : Work σ Tree := do
  let worker ← get
  let (word, source) := Source.next64 worker.source
  set { worker with source }
  if worker.samples.size = 0 then
    throw (.fault .noKeptSample)
  else
    let place := word.toNat % worker.samples.size
    match worker.contexts[place]? with
    | none => throw (.fault (.positionPastEnd place worker.contexts.size))
    | some context => return context

/-- Make one request, starting from a kept sample. -/
def request (iteration : Nat) : Work σ Unit := do
  let context ← pick
  let (mutator, sample) ← carry ((← get).mutator.initRound context).mutating
  modify fun worker => { worker with mutator }
  keepIfNovel sample
  let worker ← get
  if worker.number = 0 ∧ 0 < iteration ∧ iteration % max worker.plan.reportInterval 1 = 0 then
    let corpus : Corpus ← Errand.ask .look
    Errand.ask (.note (.progress iteration worker.plan.iterations worker.samples.size corpus.size))

/-- Generate so many samples. -/
def generateAll : (samples : Nat) → Work σ Unit
  | 0 => return
  | samples + 1 => do
    generate
    generateAll samples

/-- Make so many further requests, of all the plan asks for. -/
def requestAll : (remaining : Nat) → Work σ Unit
  | 0 => return
  | remaining + 1 => do
    request ((← get).plan.iterations - (remaining + 1))
    requestAll remaining

/-- All of a worker's work. -/
def run : Work σ Report := do
  generateAll (← get).plan.initialSamples
  let worker ← get
  Errand.ask (.note (.workerStarted worker.number worker.samples.size))
  requestAll worker.plan.iterations
  let worker ← get
  return {
    worker := worker.number
    tally := worker.mutator.tally
    discovered := worker.novelty.size }

/-- The seed of a worker: seeds wrap around. -/
def seedOf (plan : Plan) (number : Nat) : UInt64 :=
  UInt64.ofNat plan.seed + UInt64.ofNat number

end Worker

/-- What a worker does, from its first draw to its end. -/
def workerProcess (grammar : Grammar) (configuration : Configuration) (patience number : Nat) :
    Process (Ending ChaCha) :=
  let plan := configuration.plan
  let source := ChaCha.ofSeed (Worker.seedOf plan number)
  match Mutator.create grammar configuration.settings patience with
  | .error error => return { result := .error (.error (.mutation error)), source, made := [] }
  | .ok mutator => do
    let (result, worker) ← Worker.run { number, plan, mutator, source }
    return { result, source := worker.source, made := worker.made }

/-- Run a worker with nobody beside it. The shared state it leaves behind is returned in any
    case. -/
def runWorker (grammar : Grammar) (configuration : Configuration) (patience number : Nat)
    (shared : Shared) : Except (Stop WorkerError) Report × Shared :=
  let (ending, shared) := (workerProcess grammar configuration patience number).alone shared
  (ending.result, shared)

/-- Run workers one after the other, each with the shared state that the one before
    it has left. A result comes with the size of the corpus right after it. -/
def runWorkers (grammar : Grammar) (configuration : Configuration) (patience : Nat) :
    (numbers : List Nat) → (shared : Shared) →
      List (Except (Stop WorkerError) Report × Nat) × Shared
  | [], shared => ([], shared)
  | number :: numbers, shared =>
    let (result, shared) := runWorker grammar configuration patience number shared
    let size := shared.corpus.size
    let (results, shared) := runWorkers grammar configuration patience numbers shared
    ((result, size) :: results, shared)

end Graft.Campaign
