/-!
# Reading characters

A reader takes something from the front of the characters and leaves the rest, or
refuses. Blanks, comments and line ends are what separates the parts of a
configuration file.
-/

namespace Graft.Toml

/-- Something read, with the characters left. -/
abbrev Reader (α : Type) := List Char → Option (α × List Char)

/-- A space or a tab. -/
def isBlank (character : Char) : Bool :=
  character == ' ' || character == '\t'

/-- A character that text and comments may contain: anything but controls, with
    the exception of the tab. -/
def isShown (character : Char) : Bool :=
  character == '\t' || 0x20 ≤ character.toNat && character.toNat != 0x7f

/-- Leave out blanks. -/
def skipBlanks (input : List Char) : List Char :=
  input.dropWhile isBlank

/-- Leave out a comment up to the end of its line. -/
def skipComment : List Char → List Char
  | '#' :: rest => rest.dropWhile isShown
  | input => input

/-- The characters after a line end. -/
def afterNewline? : List Char → Option (List Char)
  | '\n' :: rest => some rest
  | '\r' :: '\n' :: rest => some rest
  | _ => none

/-- The characters after the rest of a line that holds no more than blanks and a
    comment. The end of the input ends a line. -/
def afterLine? (input : List Char) : Option (List Char) :=
  match skipComment (skipBlanks input) with
  | [] => some []
  | rest => afterNewline? rest

/-- Leave out blanks, comments and line ends, at most so many of them. -/
def skipLayout : (limit : Nat) → List Char → List Char
  | 0, input => input
  | limit + 1, input =>
    match input with
    | [] => []
    | first :: rest =>
      if isBlank first then skipLayout limit rest
      else if first == '#' then skipLayout limit (skipComment input)
      else
        match afterNewline? input with
        | some rest => skipLayout limit rest
        | none => input

/-- Leave out all blanks, comments and line ends. -/
def skipAllLayout (input : List Char) : List Char :=
  skipLayout input.length input

/-- Read pieces until what closes them, at most so many of them. -/
def readUntil {α β : Type} (close : Reader β) (piece : Reader α) :
    (limit : Nat) → Reader (List α × β)
  | 0, _ => none
  | limit + 1, input =>
    match close input with
    | some (closing, rest) => some (([], closing), rest)
    | none => do
      let (first, rest) ← piece input
      let ((others, closing), rest) ← readUntil close piece limit rest
      return ((first :: others, closing), rest)

/-- The number a digit stands for, letters included. -/
def digitValue? (character : Char) : Option Nat :=
  if '0' ≤ character && character ≤ '9' then some (character.toNat - '0'.toNat)
  else if 'a' ≤ character && character ≤ 'z' then some (character.toNat - 'a'.toNat + 10)
  else if 'A' ≤ character && character ≤ 'Z' then some (character.toNat - 'A'.toNat + 10)
  else none

/-- Whether a character is a digit of the base. -/
def isDigitOf (base : Nat) (character : Char) : Bool :=
  (digitValue? character).any (· < base)

/-- The number that digits stand for. -/
def numberOf (base : Nat) (digits : List Char) : Nat :=
  digits.foldl (fun value digit => value * base + (digitValue? digit).getD 0) 0

end Graft.Toml
