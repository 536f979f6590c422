import Graft.Toml.Lexeme

/-!
# Quoted text

Text in double quotes has escapes; text in single quotes stands as it is. Either
may extend over several lines between triple quotes, where a line end directly
after the opening is left out and each line end counts as one line feed. Up to
two quotes right before a closing triple belong to the text.
-/

namespace Graft.Toml

/-- The character of a code written in so many hexadecimal digits. -/
def readCode (digits : Nat) : Reader Char := fun input =>
  let written := input.take digits
  let code := numberOf 16 written
  if written.length = digits && written.all (isDigitOf 16) && code.isValidChar then
    some (Char.ofNat code, input.drop digits)
  else none

/-- The character that an escape stands for, its backslash already read. -/
def readEscape : Reader Char
  | 'b' :: rest => some ('\x08', rest)
  | 't' :: rest => some ('\t', rest)
  | 'n' :: rest => some ('\n', rest)
  | 'f' :: rest => some ('\x0c', rest)
  | 'r' :: rest => some ('\r', rest)
  | '"' :: rest => some ('"', rest)
  | '\\' :: rest => some ('\\', rest)
  | 'u' :: rest => readCode 4 rest
  | 'U' :: rest => readCode 8 rest
  | _ => none

/-- A line feed for a line end. -/
def readNewline : Reader (List Char) := fun input =>
  (afterNewline? input).map fun rest => (['\n'], rest)

/-- One shown character. -/
def readShown : Reader (List Char)
  | first :: rest => if isShown first then some ([first], rest) else none
  | [] => none

/-- One character of text in double quotes, or its escape. -/
def readBasicPiece : Reader (List Char)
  | '\\' :: rest => (readEscape rest).map fun (character, rest) => ([character], rest)
  | input => readShown input

/-- One piece of text in triple double quotes. A backslash at the end of a line
    takes away the line end and the layout before the next piece. -/
def readMultilineBasicPiece : Reader (List Char) := fun input =>
  match input with
  | '\\' :: rest =>
    match afterNewline? (skipBlanks rest) with
    | some rest => some ([], skipBlankLines rest.length rest)
    | none => readBasicPiece input
  | _ => (readNewline input).or (readBasicPiece input)
where
  /-- Leave out blanks and line ends, at most so many of them. -/
  skipBlankLines : (limit : Nat) → List Char → List Char
    | 0, input => input
    | limit + 1, input =>
      match afterNewline? input with
      | some rest => skipBlankLines limit rest
      | none =>
        match input with
        | first :: rest => if isBlank first then skipBlankLines limit rest else input
        | [] => []

/-- The closing of a text on one line. -/
def closeWith (quote : Char) : Reader (List Char)
  | first :: rest => if first == quote then some ([], rest) else none
  | [] => none

/-- The closing triple of a text, with the quotes before it that belong to the
    text. -/
def closeWithTriple (quote : Char) : Reader (List Char) := fun input =>
  let quotes := (input.takeWhile (· == quote)).length
  if quotes < 3 then none
  else
    let kept := min (quotes - 3) 2
    some (List.replicate kept quote, input.drop (kept + 3))

/-- Read the pieces of a text up to its closing. -/
def readPieces (close piece : Reader (List Char)) : Reader String := fun input => do
  let ((pieces, closing), rest) ← readUntil close piece (input.length + 1) input
  return (String.ofList (pieces.flatten ++ closing), rest)

/-- The characters after an opening triple, without a line end right after it. -/
def afterOpening (input : List Char) : List Char :=
  (afterNewline? input).getD input

/-- Read a text on one line. -/
def readLineText : Reader String
  | '"' :: rest => readPieces (closeWith '"') readBasicPiece rest
  | '\'' :: rest => readPieces (closeWith '\'') readShown rest
  | _ => none

/-- Read a text in any quotes. -/
def readText : Reader String
  | '"' :: '"' :: '"' :: rest =>
    readPieces (closeWithTriple '"') readMultilineBasicPiece (afterOpening rest)
  | '\'' :: '\'' :: '\'' :: rest =>
    readPieces (closeWithTriple '\'')
      (fun input => (readNewline input).or (readShown input)) (afterOpening rest)
  | input => readLineText input

end Graft.Toml
