/-!
# Options on the command line

Four options are known, each with a value and each given at most once. A long
option takes its value from the next argument or after an equals sign; a short
one also from the characters directly after its letter. A value in an argument of
its own does not start with a hyphen, unless it is nothing else. Two hyphens alone end
the options, and nothing may follow them. Anything else is refused.
-/

namespace Graft.Campaign

/-- What the command line says. -/
structure Options where
  configFile : Option String := none
  threads : Option Nat := none
  iterations : Option Nat := none
  seed : Option Nat := none
deriving DecidableEq, Repr

namespace Options

/-- The options there are. -/
inductive Key where
  | configFile
  | threads
  | iterations
  | seed
deriving DecidableEq, Repr

/-- The option of a letter. -/
def Key.ofLetter? : Char → Option Key
  | 'c' => some .configFile
  | 't' => some .threads
  | 'i' => some .iterations
  | 's' => some .seed
  | _ => none

/-- The option of a name. -/
def Key.ofName? : String → Option Key
  | "config-file" => some .configFile
  | "threads" => some .threads
  | "iterations" => some .iterations
  | "seed" => some .seed
  | _ => none

/-- The number of words of 64 bits. -/
def wordBound : Nat := 18446744073709551616

/-- A number of 64 bits in decimal digits, perhaps after a plus sign. -/
def number? (text : String) : Option Nat :=
  let digits :=
    match text.toList with
    | '+' :: digits => digits
    | digits => digits
  let value := digits.foldl (fun value digit => 10 * value + (digit.toNat - '0'.toNat)) 0
  if !digits.isEmpty && digits.all Char.isDigit && value < wordBound then some value else none

/-- Take in the value of an option that has none yet. -/
def assign (options : Options) (key : Key) (value : String) : Option Options :=
  if value.isEmpty then none
  else
    match key with
    | .configFile =>
      if options.configFile.isSome then none else some { options with configFile := some value }
    | .threads => do
      if options.threads.isSome then none
      else return { options with threads := some (← number? value) }
    | .iterations => do
      if options.iterations.isSome then none
      else return { options with iterations := some (← number? value) }
    | .seed => do
      if options.seed.isSome then none
      else return { options with seed := some (← number? value) }

/-- An argument that names an option, with the value attached to it if there is
    one. -/
def named? (argument : String) : Option (Key × Option String) :=
  match argument.toList with
  | '-' :: '-' :: long =>
    let name := long.takeWhile (· != '=')
    match Key.ofName? (String.ofList name), long.drop name.length with
    | some key, '=' :: value => some (key, some (String.ofList value))
    | some key, _ => some (key, none)
    | none, _ => none
  | '-' :: letter :: attached =>
    match Key.ofLetter? letter, attached with
    | some key, [] => some (key, none)
    | some key, '=' :: value => some (key, some (String.ofList value))
    | some key, value => some (key, some (String.ofList value))
    | none, _ => none
  | _ => none

/-- Whether an argument can be the value of the option before it. -/
def isValue (argument : String) : Bool :=
  argument.toList.head? != some '-' || argument == "-"

/-- Take in further arguments. -/
def parseFrom (options : Options) : List String → Option Options
  | [] => some options
  | ["--"] => some options
  | argument :: rest =>
    match named? argument, rest with
    | none, _ => none
    | some (key, some value), rest => do parseFrom (← options.assign key value) rest
    | some (key, none), value :: rest =>
      if isValue value then do parseFrom (← options.assign key value) rest else none
    | some (_, none), [] => none

/-- What the arguments say, or none where they are refused. -/
def parse? (arguments : List String) : Option Options :=
  parseFrom {} arguments

end Options

end Graft.Campaign
