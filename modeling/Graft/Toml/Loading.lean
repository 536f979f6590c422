import Graft.Files
import Graft.Toml.Document
import Graft.Toml.Record

/-!
# Loading configuration files

A configuration file is read as text, parsed as a whole, and only then taken apart
into a record. The three steps fail in three ways.
-/

namespace Graft.Toml

/-- Why a configuration file cannot be loaded. -/
inductive LoadError where
  | unreadable (path : String) (cause : FileError)
  /-- The text breaks the rules of configuration files. -/
  | malformed (path : String)
  | misfit (path : String) (cause : Misfit)
deriving DecidableEq, Repr

/-- The message of a failed loading. -/
def LoadError.message : LoadError → String
  | .unreadable path cause =>
    "Failed to read config file at " ++ Text.Quoted.quote path ++ ": " ++ cause.message
  | .malformed path =>
    "Failed to parse TOML from config file " ++ Text.Quoted.quote path ++ ": TOML parse error"
  | .misfit path cause =>
    "Failed to parse TOML from config file " ++ Text.Quoted.quote path ++ ": " ++ cause.message

/-- Load a record from a file. -/
def load {ρ : Type} (decode : Decoder ρ) (files : Files) (path : String) : Except LoadError ρ :=
  match files.readText path with
  | .error cause => .error (.unreadable path cause)
  | .ok text =>
    match parse? text with
    | none => .error (.malformed path)
    | some entries => (decode (.table .header entries)).mapError (.misfit path)

end Graft.Toml
