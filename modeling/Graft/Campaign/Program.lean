import Graft.Campaign.Configure
import Graft.Campaign.Statements
import Graft.Campaign.Worker

/-!
# A whole campaign

A campaign is configured from the command line and the files it finds, runs its
workers on the grammar of statements, and sums up what they did. It fails as a
whole if any worker does: with the error of the first one that did, in the order
of the workers.
-/

namespace Graft.Campaign

/-- Why a campaign fails. -/
inductive CampaignError where
  | configuring (error : ConfiguringError)
  | outputDirectory (path : String) (cause : FileError)
  | grammar (error : RuleError)
  | worker (error : WorkerError)
  /-- A worker was abandoned by a fault. -/
  | workerAbandoned

/-- The message of a failed campaign. -/
def CampaignError.message : CampaignError → String
  | .configuring error => error.message
  | .outputDirectory path cause =>
    "Failed to create output dir " ++ Text.Quoted.quote path ++ ": " ++ cause.message
  | .grammar error => error.message
  | .worker error => error.message
  | .workerAbandoned => "Worker thread panicked"

/-- What a finished campaign adds up to. -/
structure Summary where
  tally : Tally
  /-- The number of trees in the corpus. -/
  shared : Nat
  discovered : Nat
deriving DecidableEq, Repr

namespace Summary

/-- A text with blanks after it up to a width. -/
def padRight (width : Nat) (text : String) : String :=
  text ++ String.ofList (List.replicate (width - text.length) ' ')

/-- A text with blanks before it up to a width. -/
def padLeft (width : Nat) (text : String) : String :=
  String.ofList (List.replicate (width - text.length) ' ') ++ text

/-- The line about one strategy. -/
def strategyLine (tally : Tally) (strategy : Strategy) : String :=
  "  " ++ padRight 14 strategy.name ++ " attempts: " ++
    padLeft 8 (toString (tally.attempts.get strategy)) ++ "  successes: " ++
    padLeft 8 (toString (tally.successes.get strategy))

/-- The lines printed after a campaign. How long it took and how many requests it
    made in a second are measured outside. -/
def lines (summary : Summary) (elapsed rate : String) : List String :=
  ["Mutation finished in " ++ elapsed ++ ".",
    "Requests: " ++ toString summary.tally.requests ++ ", Mutations/sec: " ++ rate ++
      ", Shared trees: " ++ toString summary.shared ++ ", Discovered: " ++
      toString summary.discovered,
    "Regenerations: " ++ toString summary.tally.regenerations ++ ", Unproductive requests: " ++
      toString summary.tally.unproductive] ++
    Strategy.all.map (strategyLine summary.tally)

end Summary

/-- How a campaign ends. -/
inductive Outcome where
  /-- The command line is refused. -/
  | usage
  | failed (error : CampaignError)
  | finished (summary : Summary)

/-- The exit code of an outcome. -/
def Outcome.code : Outcome → Nat
  | .usage => 2
  | .failed _ => 1
  | .finished _ => 0

/-- The reports of all workers, or the error of the first one that failed. -/
def collectReports (results : List (Except (Stop WorkerError) Report × Nat)) :
    Except CampaignError (List Report) :=
  results.mapM fun (result, _) =>
    match result with
    | .ok report => .ok report
    | .error (.error error) => .error (.worker error)
    | .error (.fault _) => .error .workerAbandoned

/-- What the reports of a campaign add up to. -/
def summarize (reports : List Report) (shared : Shared) : Summary where
  tally := Tally.mergeAll (reports.map Report.tally)
  shared := shared.corpus.size
  discovered := reports.foldl (fun sum report => sum + report.discovered) 0

/-- The files once there is a directory for new renderings, if the plan names one. -/
def makeOutputDir (plan : Plan) (files : Files) : Except CampaignError Files :=
  match plan.outputDir with
  | none => .ok files
  | some directory => (files.makeDirectories directory).mapError (.outputDirectory directory)

/-- Run the workers of a configured campaign. -/
def runConfigured (configuration : Configuration) (patience : Nat) (events : Array Event)
    (files : Files) : Outcome × Shared :=
  let corpus := configuration.settings.corpus
  match makeOutputDir configuration.plan files with
  | .error error => (.failed error, { corpus, files, events })
  | .ok files =>
    match Statements.grammar with
    | .error error => (.failed (.grammar error), { corpus, files, events })
    | .ok grammar =>
      let plan := configuration.plan
      let events := events.push (.launching plan.threads plan.iterations)
      let (results, shared) :=
        runWorkers grammar configuration patience (List.range plan.threads)
          { corpus, files, events }
      match collectReports results with
      | .error error => (.failed error, shared)
      | .ok reports =>
        let finished := reports.toArray.map fun report =>
          Event.workerFinished report.worker report.discovered report.tally.requests
        (.finished (summarize reports shared), { shared with events := shared.events ++ finished })

/-- Run a campaign as the command line asks. -/
def run (arguments : List String) (patience : Nat) (files : Files) : Outcome × Shared :=
  match Options.parse? arguments with
  | none => (.usage, { corpus := .unbounded, files })
  | some options =>
    let events := #[origin options files]
    match configure options files with
    | .error error => (.failed (.configuring error), { corpus := .unbounded, files, events })
    | .ok configuration => runConfigured configuration patience events files

end Graft.Campaign
