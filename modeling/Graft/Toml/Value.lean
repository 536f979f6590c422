/-!
# Values of a configuration file

A file is a table of named values. The entries of a table keep the order in which
they were entered. Tables remember how they came about, because that decides
whether a later line may add to them.
-/

namespace Graft.Toml

/-- How a table came about. -/
inductive Form where
  /-- Opened by a header of its own, or the file itself. -/
  | header
  /-- Named on the way to another header. -/
  | implicit
  /-- Named on the way to an entry by a dotted key. -/
  | dotted
  /-- Written between braces, and complete as written. -/
  | inline
deriving DecidableEq, Repr

/-- A value. -/
inductive Value where
  | string (text : String)
  | integer (value : Int)
  | float (value : Float)
  | boolean (value : Bool)
  /-- A date, a time, or both. Only its being one is of interest. -/
  | datetime
  /-- Values between brackets. -/
  | array (items : List Value)
  | table (form : Form) (entries : List (String × Value))
  /-- Tables of one name, each opened by a header in double brackets. -/
  | tables (rows : List Value)
deriving Inhabited

/-- The named values of a table. -/
abbrev Entries := List (String × Value)

namespace Entries

/-- The value of a key. -/
def get? (entries : Entries) (key : String) : Option Value :=
  List.lookup key entries

/-- Exchange the value of a key in its place, or enter a new key at the end. -/
def set (entries : Entries) (key : String) (value : Value) : Entries :=
  match entries with
  | [] => [(key, value)]
  | (present, held) :: rest =>
    if present == key then (present, value) :: rest else (present, held) :: set rest key value

/-- Take out a key. -/
def erase (entries : Entries) (key : String) : Entries :=
  entries.filter fun entry => entry.1 != key

/-- Enter a key that is not there yet. -/
def insertNew? (entries : Entries) (key : String) (value : Value) : Option Entries :=
  match entries.get? key with
  | none => some (entries ++ [(key, value)])
  | some _ => none

end Entries

end Graft.Toml
