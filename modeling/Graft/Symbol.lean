/-!
# Grammar symbols

A symbol is the label of an inner node of a derivation tree. Its number is its
place in a grammar's table and alone decides which symbol it is; the name and the
element of a repetition are what the symbol carries with it.
-/

namespace Graft

/-- A symbol of a grammar. -/
inductive Symbol where
  /-- A symbol with alternatives. -/
  | plain (id : Nat) (name : String)
  /-- A symbol that stands for one or more of its element. -/
  | repetition (id : Nat) (name : String) (element : Symbol)
deriving DecidableEq, Repr, Inhabited

namespace Symbol

/-- The place of a symbol in its grammar. -/
def id : Symbol → Nat
  | .plain id _ => id
  | .repetition id _ _ => id

/-- The name of a symbol, under which samples refer to it. -/
def name : Symbol → String
  | .plain _ name => name
  | .repetition _ name _ => name

/-- What a repetition repeats. -/
def element? : Symbol → Option Symbol
  | .plain _ _ => none
  | .repetition _ _ element => some element

/-- Whether a symbol is a repetition. -/
def isRepetition (symbol : Symbol) : Bool :=
  symbol.element?.isSome

/-- Two occurrences denote one symbol when their numbers agree. -/
def same (left right : Symbol) : Bool :=
  left.id == right.id

/-- A name as messages show it. -/
def displayed (name : String) : String :=
  "<" ++ name ++ ">"

end Symbol

end Graft
