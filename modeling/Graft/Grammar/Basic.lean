import Graft.Bytes
import Graft.Symbol

/-!
# Grammars

A grammar is a table of symbols with one production each, the symbol numbered by
its place. A production offers alternatives, each a row of literals and symbols,
or repeats one symbol one or more times. Beside them stands the number of every
name, by which samples and settings refer to symbols. The two remaining fields
steer the growth of random trees: how deep a tree may reach, and how likely a
repetition goes on after each element.
-/

namespace Graft

/-- One part of an alternative, its symbol given by number. -/
inductive Part where
  | literal (octets : Bytes)
  | symbol (id : Nat)
deriving DecidableEq, Repr

/-- How a symbol expands. -/
inductive Production where
  /-- One of several rows of parts. -/
  | alternatives (rows : List (List Part))
  /-- A run of the symbol with this number. -/
  | repetition (element : Nat)
deriving DecidableEq, Repr

/-- The numbers of names, in the order in which the names were entered. -/
abbrev NameTable := List (String × Nat)

/-- A table of symbols and their productions. -/
structure Grammar where
  symbols : List Symbol
  productions : List Production
  /-- The number of each symbol by its name. -/
  byName : NameTable
  /-- No node is grown below this depth. -/
  maxDepth : Nat
  /-- The probability that a growing repetition goes on. -/
  repeatProbability : Float

namespace Grammar

/-- The symbol of a name: the number is looked up by the name, and the symbol stands
    at its number. -/
def symbol? (grammar : Grammar) (name : String) : Option Symbol := do
  let id ← grammar.byName.lookup name
  grammar.symbols[id]?

end Grammar

end Graft
