import Graft.Mutation.Strategy
import Graft.Symbol
import Graft.Text.Quoted

/-!
# Events

What happens during a run is noted as events in the order of their occurrence.
Each has a level and a line of text.
-/

namespace Graft

/-- How much attention an event asks for. -/
inductive Level where
  | debug
  | info
  | warn
deriving DecidableEq, Repr

/-- The name of a level. -/
def Level.name : Level → String
  | .debug => "DEBUG"
  | .info => "INFO"
  | .warn => "WARN"

/-- Something that happened during a run. -/
inductive Event where
  /-- An attempt left the tree as it was. -/
  | didNotApply (strategy : Strategy)
  /-- A request was answered by a newly grown tree. -/
  | regenerated
  /-- No attempt of a request changed the tree. -/
  | unproductive
  /-- Growing a sample has failed so often in a row. -/
  | growthFailing (attempts : Nat) (symbol : String)
  /-- Settings are read from a file that was asked for. -/
  | loadingSpecified (path : String)
  /-- Settings are read from the file that is there by default. -/
  | loadingDefault (path : String)
  /-- There is no file to read settings from. -/
  | usingBuiltIn (path : String)
  /-- The workers of a campaign start. -/
  | launching (workers iterations : Nat)
  /-- A worker has made its first samples. -/
  | workerStarted (worker samples : Nat)
  /-- A worker is partway through its iterations. -/
  | progress (iteration iterations samples shared : Nat)
  /-- A worker has finished. -/
  | workerFinished (worker discovered requests : Nat)
deriving DecidableEq, Repr

namespace Event

/-- The level of an event. -/
def level : Event → Level
  | .didNotApply _ | .regenerated | .workerStarted _ _ | .workerFinished _ _ _ => .debug
  | .unproductive | .growthFailing _ _ => .warn
  | .loadingSpecified _ | .loadingDefault _ | .usingBuiltIn _ | .launching _ _
  | .progress _ _ _ _ => .info

/-- The text of an event. -/
def text : Event → String
  | .didNotApply strategy => strategy.name ++ " did not apply"
  | .regenerated => "Replacing sample with a freshly generated tree"
  | .unproductive => "Repeatedly failing to mutate a sample. Check grammar."
  | .growthFailing attempts symbol =>
    "Repeatedly failing to generate sample from grammar (" ++ toString attempts ++
      " attempts for " ++ Symbol.displayed symbol ++ ")"
  | .loadingSpecified path =>
    "Loading configuration from specified path: " ++ Text.Quoted.quote path
  | .loadingDefault path =>
    "No config file specified via CLI, loading default: " ++ Text.Quoted.quote path
  | .usingBuiltIn path =>
    "No config file specified and default '" ++ path ++ "' not found, using built-in defaults."
  | .launching workers iterations =>
    "Starting " ++ toString workers ++ " workers for " ++ toString iterations ++
      " iterations each..."
  | .workerStarted worker samples =>
    "Worker " ++ toString worker ++ " starts with " ++ toString samples ++ " samples"
  | .progress iteration iterations samples shared =>
    "Iter: " ++ toString iteration ++ "/" ++ toString iterations ++ ", Samples: " ++
      toString samples ++ ", Shared trees: " ++ toString shared
  | .workerFinished worker discovered requests =>
    "Worker " ++ toString worker ++ " discovered " ++ toString discovered ++ " outputs in " ++
      toString requests ++ " requests"

/-- An event as a line of the log. -/
def line (event : Event) : String :=
  event.level.name ++ " " ++ event.text

end Event

end Graft
