import Graft.Symbol
import Graft.Text.Utf8

/-!
# Refused samples

A sample is refused where its octets end early, continue past the tree, or
cannot be a tree, and where the tree names a symbol that the grammar lacks.
-/

namespace Graft

/-- Why a sample is refused. -/
inductive SampleError where
  /-- There are no octets at all. -/
  | empty
  /-- So many octets follow the tree. -/
  | trailing (count : Nat)
  /-- The present field lacks so many octets. -/
  | unexpectedEnd (additional : Nat)
  /-- A node starts with a number that is no variant. -/
  | unexpectedVariant (found : Nat)
  /-- A name is not text. -/
  | invalidName (fault : Text.Utf8.Fault)
  /-- A name is no symbol of the grammar. -/
  | unknownSymbol (name : String)
deriving DecidableEq, Repr

namespace SampleError

/-- The length of a failing character as messages show it. -/
def shownLength : Option Nat → String
  | none => "None"
  | some length => "Some(" ++ toString length ++ ")"

/-- What is wrong with the octets of a sample, if the octets are to blame. -/
def decodingFault? : SampleError → Option String
  | .empty => some "sample is empty"
  | .trailing count => some (toString count ++ " trailing bytes after tree")
  | .unexpectedEnd additional =>
    some ("UnexpectedEnd \x7b additional: " ++ toString additional ++ " \x7d")
  | .unexpectedVariant found =>
    some ("UnexpectedVariant \x7b type_name: \"WireNode\", " ++
      "allowed: Range \x7b min: 0, max: 1 \x7d, found: " ++ toString found ++ " \x7d")
  | .invalidName fault =>
    some ("Utf8 \x7b inner: Utf8Error \x7b valid_up_to: " ++ toString fault.validUpTo ++
      ", error_len: " ++ shownLength fault.errorLength ++ " \x7d \x7d")
  | .unknownSymbol _ => none

/-- The message of a refused sample. -/
def message (error : SampleError) : String :=
  match error, error.decodingFault? with
  | .unknownSymbol name, _ => "Symbol " ++ Symbol.displayed name ++ " not found in grammar"
  | _, some fault => "Error decoding grammar sample: " ++ fault
  | _, none => ""

end SampleError

end Graft
