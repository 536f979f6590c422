import Graft.Campaign.Duration
import Graft.Campaign.Program

/-!
# The command line

The files that a campaign can read are looked at first, the campaign is run on
them, and what it has changed is written back. Events from the informative level
on, and the error of a failed campaign, go to the error output; the summary of a
finished one goes to the output. The workers run one after the other.
-/

namespace Graft.CommandLine

open Campaign

/-- How long loops that only chance ends may run: longer than anybody waits. -/
def patience : Nat := 4611686018427387904

/-- What is at a place now. -/
def entryAt? (place : String) : IO (Option FileEntry) := do
  let place := (← IO.currentDir) / place
  if ← place.isDir then return some .directory
  if ← place.pathExists then return some (.file (← IO.FS.readBinFile place).toList)
  return none

/-- Add what a path leads to and leads through, where it can be used. -/
def look (files : Files) (path : String) : IO Files :=
  match FilePath.check path with
  | .error _ => return files
  | .ok () =>
    (FilePath.places path).foldlM (fun files place => do
      match ← entryAt? place with
      | some entry => return files.put place entry
      | none => return files) files

/-- The files that a campaign can read: its configuration, and what the way to its
    output directory leads through. -/
def lookAround (options : Options) : IO Files := do
  let files ← look {} (options.configFile.getD defaultPath)
  match configure options files with
  | .ok { plan := { outputDir := some directory, .. }, .. } => look files directory
  | _ => return files

/-- Make or write one thing that a campaign has changed. -/
def store (place : String) (entry : FileEntry) : IO Unit := do
  match entry with
  | .directory => IO.FS.createDirAll place
  | .file content => IO.FS.writeBinFile place (ByteArray.mk content.toArray)

/-- Tell how a campaign has ended. -/
def tell (start : Nat) : Outcome → IO Unit
  | .usage =>
    IO.eprintln "Options: --config-file PATH, --threads N, --iterations N, --seed N"
  | .failed error => IO.eprintln ("Error: " ++ error.message)
  | .finished summary => do
    let elapsed : Duration := ⟨(← IO.monoNanosNow) - start⟩
    (summary.lines elapsed.text (elapsed.rate summary.tally.requests)).forM IO.println

/-- Run the campaign that the arguments ask for. -/
def run (arguments : List String) : IO UInt32 := do
  let files ← lookAround ((Options.parse? arguments).getD {})
  let start ← IO.monoNanosNow
  let (outcome, shared) := Campaign.run arguments patience files
  shared.events.forM fun event =>
    if event.level = .debug then return else IO.eprintln event.line
  tell start outcome
  (shared.files.changesSince files).forM fun (place, entry) => store place entry
  return UInt32.ofNat outcome.code

end Graft.CommandLine

/-- The program. What goes wrong with the files outside a campaign ends it like an
    error inside. -/
def main (arguments : List String) : IO UInt32 := do
  try
    Graft.CommandLine.run arguments
  catch error =>
    IO.eprintln ("Error: " ++ toString error)
    return 1
