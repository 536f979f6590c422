import Graft.Files.FilePath
import Graft.Text.Utf8

/-!
# Files

The files of a run as it finds and leaves them: directories and files by their
place. Only what can be told apart through the run's own operations is kept. An
operation that fails changes nothing and says why as the operating system would.
-/

namespace Graft

open FilePath

/-- What a path can lead to. -/
inductive FileEntry where
  | directory
  | file (content : Bytes)
deriving DecidableEq, Repr

/-- The directories and files of a run, by their places. -/
structure Files where
  entries : List (String × FileEntry) := []
deriving Repr

namespace Files

/-- What is at a place if nothing has been put there. The root, the working
    directory and what is around it are always there, and so are the directories of
    devices and of what does not last, and the device that is empty to any reader. -/
def standing? (place : String) : Option FileEntry :=
  if place = "/dev/null" then some (.file [])
  else if place = "/dev" ∨ place = "/tmp" ∨ leadsOutOnly place then some .directory
  else none

/-- What is at a place. -/
def get? (files : Files) (place : String) : Option FileEntry :=
  match files.entries.lookup place with
  | some entry => some entry
  | none => standing? place

/-- Put something at a place. -/
def put (files : Files) (place : String) (entry : FileEntry) : Files :=
  { entries := (place, entry) :: files.entries.filter fun held => held.1 != place }

/-- What is put at a place is there, whatever was there before. -/
theorem get?_put_self (files : Files) (place : String) (entry : FileEntry) :
    (files.put place entry).get? place = some entry := by
  simp [get?, put]

/-- What is put at one place changes nothing at another, even where it replaces something. -/
theorem get?_put_of_ne {place other : String} (files : Files) (entry : FileEntry)
    (distinct : other ≠ place) :
    (files.put place entry).get? other = files.get? other := by
  have kept (entries : List (String × FileEntry)) :
      (entries.filter fun held => held.1 != place).lookup other = entries.lookup other := by
    induction entries with
    | nil => rfl
    | cons held rest inductionHypothesis =>
      obtain ⟨found, what⟩ := held
      by_cases dropped : found = place
      · subst dropped
        have unlike : (other == found) = false := by simpa using distinct
        simp [List.lookup_cons, unlike, inductionHypothesis]
      · simp [dropped, List.lookup_cons, inductionHypothesis]
  have unlike : (other == place) = false := by simpa using distinct
  simp [get?, put, List.lookup_cons, unlike, kept]

/-- Follow names from a place. Each has to be looked for in a directory, even one
    that leads back out of it; the last need not be found. -/
def follow (files : Files) (trail : Trail) : List String → Except FileError Trail
  | [] => .ok trail
  | name :: rest =>
    match files.get? trail.place with
    | none => .error .notFound
    | some (.file _) => .error .notDirectory
    | some .directory =>
      if longestName < name.utf8ByteSize then .error .nameTooLong
      else files.follow (trail.step name) rest

/-- The place that a path leads to. -/
def locate (files : Files) (path : String) : Except FileError String := do
  check path
  return (← files.follow (Trail.start path) (names path)).place

/-- What a path leads to. -/
def find (files : Files) (path : String) : Except FileError FileEntry := do
  match files.get? (← files.locate path) with
  | none => throw .notFound
  | some .directory => return .directory
  | some (.file content) =>
    if endsInSlash path then throw .notDirectory else return .file content

/-- Whether a path leads to something. -/
def isThere (files : Files) (path : String) : Bool :=
  match files.find path with
  | .ok _ => true
  | .error _ => false

/-- The content of a file. -/
def read (files : Files) (path : String) : Except FileError Bytes := do
  match ← files.find path with
  | .directory => throw .isDirectory
  | .file content => return content

/-- The content of a file as text. -/
def readText (files : Files) (path : String) : Except FileError String := do
  match Text.Utf8.decode (← files.read path) with
  | .ok text => return text
  | .error _ => throw .notText

/-- Write a file whole. -/
def write (files : Files) (path : String) (content : Bytes) : Except FileError Files := do
  let place ← files.locate path
  if endsInSlash path || files.get? place = some .directory then throw .isDirectory
  return files.put place (.file content)

/-- Make a directory where names lead, unless there is one already. -/
def ensureAt (files : Files) (trail : Trail) (names : List String) :
    Except FileError (Files × Trail) := do
  let trail ← files.follow trail names
  match files.get? trail.place with
  | none => return (files.put trail.place .directory, trail)
  | some .directory => return (files, trail)
  | some (.file _) => throw .alreadyThere

/-- Make a directory where stages lead, given last to first. Only if something on
    the way is missing, the directory before the last stage is made first. -/
def ensureStages (files : Files) (start : Trail) :
    List (List String) → Except FileError (Files × Trail)
  | [] => .ok (files, start)
  | stage :: before =>
    match files.ensureAt start (stage :: before).reverse.flatten with
    | .error .notFound => do
      let (files, trail) ← files.ensureStages start before
      files.ensureAt trail stage
    | made => made

/-- Make a directory with all that lead to it. The empty path and the root need
    none. -/
def makeDirectories (files : Files) (path : String) : Except FileError Files :=
  if path.isEmpty || startsAtRoot path && (names path).all (fun name => name == ".") then .ok files
  else do
    check path
    return (← files.ensureStages (Trail.start path) (stages [] [] (names path))).1

/-- Put a file at the place of a path, and directories at those before it. -/
def supply (files : Files) (path : String) (content : Bytes) : Files :=
  match (places path).reverse with
  | [] => files
  | place :: before =>
    (before.foldr (fun directory files => files.put directory .directory) files).put place
      (.file content)

/-- The files directly inside a directory, with their names. -/
def filesIn (files : Files) (directory : String) : List (String × Bytes) :=
  match files.locate directory with
  | .error _ => []
  | .ok around =>
    files.entries.filterMap fun (place, entry) =>
      match entry with
      | .directory => none
      | .file content => (nameWithin? around place).map fun name => (name, content)

/-- What is different from before, the oldest difference first, so that a
    directory comes before what it contains. -/
def changesSince (files before : Files) : List (String × FileEntry) :=
  files.entries.reverse.filter fun (place, entry) => before.entries.lookup place != some entry

end Files

end Graft
