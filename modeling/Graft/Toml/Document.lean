import Graft.Toml.Moment
import Graft.Toml.Number
import Graft.Toml.Text

/-!
# Configuration files

A file consists of entries, headers, comments and empty lines. A header opens the
table that the entries after it go to. A table is opened once; before that, it may
have come about on the way to another one, and it then moves to the end of the
table it stands in. Dotted keys make tables on the way, which only further dotted
keys of the same part of the file may add to.

A text that breaks a rule is refused as a whole.
-/

namespace Graft.Toml

/-- The number of parts that a dotted key must stay below. -/
def keyLimit : Nat := 80

/-- How deep values may stand inside each other. -/
def nestingLimit : Nat := 79

/-- A character of a key without quotes. -/
def isBare (character : Char) : Bool :=
  character.isAlphanum || character == '-' || character == '_'

/-- One part of a key. -/
def readKeyPart : Reader String := fun input =>
  match input with
  | '"' :: _ | '\'' :: _ => readLineText input
  | _ =>
    let bare := input.takeWhile isBare
    if bare.isEmpty then none else some (String.ofList bare, input.dropWhile isBare)

/-- The parts of a key after its first, at most so many of them. -/
def readKeyParts : (limit : Nat) → Reader (List String)
  | 0, _ => none
  | limit + 1, input => do
    let (part, rest) ← readKeyPart (skipBlanks input)
    match skipBlanks rest with
    | '.' :: rest =>
      let (parts, rest) ← readKeyParts limit rest
      return (part :: parts, rest)
    | rest => return ([part], rest)

/-- A key, which is a path of parts, with the blanks around it. -/
def readKey : Reader (List String) :=
  readKeyParts (keyLimit - 1)

/-- A table under construction. -/
structure Open where
  form : Form
  entries : Entries

/-- Change a table that is reached from another by a path of keys. Tables that are
    missing on the way come about in the given form. A dotted path does not lead
    through a table that has a header or is complete as written. -/
def editAlong (form : Form) (path : List String) (change : Open → Option Open) (table : Open) :
    Option Open :=
  match path with
  | [] => change table
  | key :: path =>
    match table.entries.get? key with
    | none => do
      let made ← editAlong form path change ⟨form, []⟩
      return { table with entries := table.entries.set key (.table made.form made.entries) }
    | some (.table .inline _) => none
    | some (.table present entries) =>
      if form = .dotted && present = .header then none
      else do
        let changed ← editAlong form path change ⟨present, entries⟩
        return { table with entries := table.entries.set key (.table changed.form changed.entries) }
    | some (.tables rows) =>
      match rows.getLast? with
      | some (.table present entries) => do
        let changed ← editAlong form path change ⟨present, entries⟩
        let rows := rows.dropLast ++ [.table changed.form changed.entries]
        return { table with entries := table.entries.set key (.tables rows) }
      | _ => none
    | some _ => none

/-- Enter a value under a dotted key. The table that takes it must itself be named
    by dotted keys alone, unless the key has a single part. -/
def Open.enter (table : Open) (path : List String) (value : Value) : Option Open :=
  match path.getLast? with
  | none => none
  | some key =>
    let way := path.dropLast
    editAlong .dotted way (fun target =>
      if target.form = .dotted ∨ way.isEmpty then
        (target.entries.insertNew? key value).map fun entries => { target with entries }
      else none) table

/-- Read the entries of an inline table up to its closing brace, at most so many
    of them. Dotted keys make inline tables on the way. -/
def readInlineEntries (value : Reader Value) : (limit : Nat) → (table : Open) → Reader Open
  | 0, _, _ => none
  | limit + 1, table, input => do
    let (path, rest) ← readKey input
    let ((), rest) ← expect '=' rest
    let (held, rest) ← value (skipBlanks rest)
    let table ← table.enter path held
    match skipBlanks rest with
    | '\x7d' :: rest => return (table, rest)
    | ',' :: rest => readInlineEntries value limit table rest
    | _ => none

/-- An inline table after its opening brace. -/
def readInlineTable (value : Reader Value) : Reader Value := fun input =>
  match skipBlanks input with
  | '\x7d' :: rest => some (.table .inline [], rest)
  | rest => do
    let (table, rest) ← readInlineEntries value (rest.length + 1) ⟨.inline, []⟩ rest
    return (.table .inline table.entries, rest)

/-- The items of an array after its opening bracket, at most so many of them. -/
def readItems (value : Reader Value) : (limit : Nat) → Reader (List Value)
  | 0, _ => none
  | limit + 1, input =>
    match skipAllLayout input with
    | ']' :: rest => some ([], rest)
    | rest => do
      let (item, rest) ← value rest
      match skipAllLayout rest with
      | ']' :: rest => return ([item], rest)
      | ',' :: rest =>
        let (items, rest) ← readItems value limit rest
        return (item :: items, rest)
      | _ => none

/-- A value that holds no other values. -/
def readScalar : Reader Value := fun input =>
  match input with
  | '"' :: _ | '\'' :: _ => (readText input).map fun (text, rest) => (.string text, rest)
  | 't' :: 'r' :: 'u' :: 'e' :: rest => some (.boolean true, rest)
  | 'f' :: 'a' :: 'l' :: 's' :: 'e' :: rest => some (.boolean false, rest)
  | _ => (readMoment input).or (readNumber input)

/-- A value inside which values may stand so deep. -/
def readValue : (nesting : Nat) → Reader Value
  | 0, input => readScalar input
  | nesting + 1, input =>
    match input with
    | '[' :: rest =>
      (readItems (readValue nesting) (rest.length + 1) rest).map fun (items, rest) =>
        (.array items, rest)
    | '\x7b' :: rest => readInlineTable (readValue nesting) rest
    | _ => readScalar input

/-- A file read up to the end of some line. -/
structure Progress where
  /-- The tables that are closed. -/
  root : Open := ⟨.header, []⟩
  /-- The table that entries go to. -/
  current : Open := ⟨.header, []⟩
  /-- Where the current table belongs; the file itself has the empty path. -/
  path : List String := []
  /-- Whether the current table is one of several of its name. -/
  isRow : Bool := false

namespace Progress

/-- Put the current table in its place. -/
def close (progress : Progress) : Option Progress :=
  match progress.path.getLast? with
  | none => some { progress with root := progress.current }
  | some key => do
    let table : Value := .table progress.current.form progress.current.entries
    let root ← editAlong .implicit progress.path.dropLast (fun parent =>
      if progress.isRow then
        match parent.entries.get? key with
        | none => some { parent with entries := parent.entries.set key (.tables [table]) }
        | some (.tables rows) =>
          some { parent with entries := parent.entries.set key (.tables (rows ++ [table])) }
        | some _ => none
      else
        (parent.entries.insertNew? key table).map fun entries => { parent with entries })
      progress.root
    return { progress with root }

/-- The table that a header opens, out of the table that has come about at its
    place if there is one. -/
def openedAt (parent : Open) (key : String) : Option Entries :=
  match parent.entries.get? key with
  | none => some []
  | some (.table .implicit entries) => some entries
  | some _ => none

/-- Open a table by a header. -/
def openTable (progress : Progress) (path : List String) : Option Progress := do
  let progress ← progress.close
  let key ← path.getLast?
  let way := path.dropLast
  let entries ← lookUp way key progress.root
  let root ← editAlong .implicit way
    (fun parent => some { parent with entries := parent.entries.erase key }) progress.root
  return { root, current := ⟨.header, entries⟩, path, isRow := false }
where
  /-- The entries that a table at a path already has. -/
  lookUp (way : List String) (key : String) (table : Open) : Option Entries :=
    match way with
    | [] => openedAt table key
    | step :: way =>
      match table.entries.get? step with
      | none => some []
      | some (.table .inline _) => none
      | some (.table form entries) => lookUp way key ⟨form, entries⟩
      | some (.tables rows) =>
        match rows.getLast? with
        | some (.table form entries) => lookUp way key ⟨form, entries⟩
        | _ => none
      | some _ => none

/-- Open one more table of a name by a header in double brackets. -/
def openRow (progress : Progress) (path : List String) : Option Progress := do
  let progress ← progress.close
  return { progress with current := ⟨.header, []⟩, path, isRow := true }

/-- Take in an entry of the current table. -/
def enter (progress : Progress) (path : List String) (value : Value) : Option Progress := do
  return { progress with current := ← progress.current.enter path value }

end Progress

/-- Read a header after its first bracket. -/
def readHeader (progress : Progress) : Reader Progress
  | '[' :: rest => do
    let (path, rest) ← readKey rest
    let ((), rest) ← expect ']' rest
    let ((), rest) ← expect ']' rest
    return (← progress.openRow path, rest)
  | rest => do
    let (path, rest) ← readKey rest
    let ((), rest) ← expect ']' rest
    return (← progress.openTable path, rest)

/-- Read an entry. -/
def readEntry (progress : Progress) : Reader Progress := fun input => do
  let (path, rest) ← readKey input
  let ((), rest) ← expect '=' rest
  let (value, rest) ← readValue nestingLimit (skipBlanks rest)
  return (← progress.enter path value, rest)

/-- Read lines to the end of the file, at most so many of them. -/
def readLines : (limit : Nat) → Progress → List Char → Option Progress
  | 0, _, _ => none
  | limit + 1, progress, input =>
    match skipBlanks input with
    | [] => some progress
    | '[' :: rest => do
      let (progress, rest) ← readHeader progress rest
      readLines limit progress (← afterLine? rest)
    | '#' :: rest => do readLines limit progress (← afterLine? ('#' :: rest))
    | rest =>
      match afterNewline? rest with
      | some rest => readLines limit progress rest
      | none => do
        let (progress, rest) ← readEntry progress rest
        readLines limit progress (← afterLine? rest)

/-- The entries of a file, or none where it is refused. A byte order mark at the
    front is left out. -/
def parse? (text : String) : Option Entries := do
  let input :=
    match text.toList with
    | '\ufeff' :: rest => rest
    | input => input
  let progress ← readLines (input.length + 1) {} input
  let progress ← progress.close
  return progress.root.entries

end Graft.Toml
