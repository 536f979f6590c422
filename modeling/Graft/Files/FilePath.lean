/-!
# Paths

A path names, one after the other, the steps that lead to a place: from the root
if it starts with a slash, and from the working directory if it does not. The
trail of a path says where its steps lead; whether there is something to step
into is a question to the files.
-/

namespace Graft

/-- Why an operation on files fails. -/
inductive FileError where
  | notFound
  | alreadyThere
  | notDirectory
  | isDirectory
  /-- A path, or a name in it, is longer than paths and names can be. -/
  | nameTooLong
  /-- A path contains the character that ends paths. -/
  | brokenPath
  /-- A file to be read as text is not text. -/
  | notText
deriving DecidableEq, Repr

/-- The message of a failed operation. -/
def FileError.message : FileError → String
  | .notFound => "No such file or directory (os error 2)"
  | .alreadyThere => "File exists (os error 17)"
  | .notDirectory => "Not a directory (os error 20)"
  | .isDirectory => "Is a directory (os error 21)"
  | .nameTooLong => "File name too long (os error 36)"
  | .brokenPath => "file name contained an unexpected NUL byte"
  | .notText => "stream did not contain valid UTF-8"

namespace FilePath

/-- The most bytes of a path. -/
def longestPath : Nat := 4095

/-- The most bytes of one name in a path. -/
def longestName : Nat := 255

/-- The pieces between slashes, the first of which has begun with the characters
    given last to first. -/
def pieces (begun : List Char) : List Char → List (List Char)
  | [] => [begun.reverse]
  | character :: rest =>
    if character = '/' then begun.reverse :: pieces [] rest else pieces (character :: begun) rest

/-- The names in a path, in order. Slashes that follow each other count as one. -/
def names (path : String) : List String :=
  ((pieces [] path.toList).filter fun piece => !piece.isEmpty).map String.ofList

/-- Whether a path starts at the root. -/
def startsAtRoot (path : String) : Bool :=
  path.toList.head? == some '/'

/-- Whether a path insists on a directory. -/
def endsInSlash (path : String) : Bool :=
  path.toList.getLast? == some '/'

/-- The path of a name inside a directory. -/
def join (directory name : String) : String :=
  if directory.isEmpty || endsInSlash directory then directory ++ name
  else directory ++ "/" ++ name

/-- The name of a place that lies directly inside a directory. -/
def nameWithin? (directory place : String) : Option String :=
  let lead := (join directory "").toList
  let name := place.toList.drop lead.length
  if lead.isPrefixOf place.toList && !name.contains '/' then some (String.ofList name) else none

/-- Refuse a path that no operation can follow. -/
def check (path : String) : Except FileError Unit :=
  if path.toList.contains '\x00' then .error .brokenPath
  else if path.isEmpty then .error .notFound
  else if longestPath < path.utf8ByteSize then .error .nameTooLong
  else .ok ()

/-- Where steps have led. A place is written as the shortest path that leads to it
    through directories only, so that one place has one text; the working directory
    is the empty text. -/
structure Trail where
  place : String
  /-- The directories around the place that lie inside the one where the trail
      starts, and that one itself, the innermost first. -/
  around : List String
deriving DecidableEq, Repr

/-- The trail of a path before its first step. -/
def Trail.start (path : String) : Trail :=
  ⟨if startsAtRoot path then "/" else "", []⟩

/-- One step out. There is nothing around the root; outside the place where the
    trail starts, each step is a part of the path. -/
def Trail.out (trail : Trail) : Trail :=
  match trail.around with
  | directory :: around => ⟨directory, around⟩
  | [] => if trail.place = "/" then trail else ⟨join trail.place "..", []⟩

/-- One step. The name of a single dot is the place itself, and that of two dots is
    the directory around it. -/
def Trail.step (trail : Trail) (name : String) : Trail :=
  if name = "." then trail
  else if name = ".." then trail.out
  else ⟨join trail.place name, trail.place :: trail.around⟩

/-- The places that a trail leads through, the present one first. -/
def Trail.places (trail : Trail) : List String → List String
  | [] => [trail.place]
  | name :: rest => trail.place :: (trail.step name).places rest

/-- The places that a path leads through, the last one being its own. -/
def places (path : String) : List String :=
  (Trail.start path).places (names path)

/-- Whether a place is where a trail can start, or around it. -/
def leadsOutOnly (place : String) : Bool :=
  (names place).all fun name => name == ".."

/-- The names of a path cut into stages, each of which adds one name that is not a
    single dot. Dots belong to the name after them, and at the end to the last one.
    The stages come last to first, after those that have been cut already. -/
def stages (dots : List String) (cut : List (List String)) : List String → List (List String)
  | [] =>
    match cut with
    | [] => if dots.isEmpty then [] else [dots]
    | last :: before => (last ++ dots) :: before
  | name :: rest =>
    if name = "." then stages (dots ++ [name]) cut rest
    else stages [] ((dots ++ [name]) :: cut) rest

example : places "a//b/../c" = ["", "a", "a/b", "a", "a/c"] := by decide +kernel
example : places "../x/../.." = ["", "..", "../x", "..", "../.."] := by decide +kernel
example : places "/../a" = ["/", "/", "/a"] := by decide +kernel
example : stages [] [] (names "a//b/./c/") = [[".", "c"], ["b"], ["a"]] := by decide +kernel
example : stages [] [] (names "a/b/.") = [["b", "."], ["a"]] := by decide +kernel

end FilePath

end Graft
