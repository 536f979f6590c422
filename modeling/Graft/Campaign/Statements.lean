import Graft.Grammar.Declaration

/-!
# A small statement language

The grammar that campaigns run on: assignments and print statements over sums,
products, numbers and a few variables.
-/

namespace Graft.Campaign.Statements

/-- A literal part of a row. -/
def literal (text : String) : NamedPart := .literal (Bytes.ofString text)

/-- A reference to a symbol. -/
def symbol (name : String) : NamedPart := .symbol name

/-- The declarations of the language. -/
def declarations : List Declaration :=
  [.rule "root" [symbol "statements"],
    .repetition "statements" "statement",
    .rule "statement" [symbol "ident", literal " = ", symbol "expr", literal ";\n"],
    .rule "statement" [literal "print(", symbol "expr", literal ");\n"],
    .rule "expr" [symbol "term"],
    .rule "expr" [symbol "term", symbol "addop", symbol "expr"],
    .rule "term" [symbol "factor"],
    .rule "term" [symbol "factor", literal " * ", symbol "factor"],
    .rule "factor" [symbol "number"],
    .rule "factor" [symbol "ident"],
    .rule "factor" [literal "-", symbol "number"],
    .rule "factor" [symbol "ident", literal "[", symbol "number", literal "]"],
    .rule "factor" [literal "(", symbol "expr", literal ")"],
    .literals "addop" ([" + ", " - "].map Bytes.ofString),
    .repetition "number" "digit",
    .literals "digit" (["0", "1", "2", "3", "4", "5", "6", "7", "8", "9"].map Bytes.ofString),
    .literals "ident" (["x", "y", "z", "acc"].map Bytes.ofString)]

/-- The grammar of the language. -/
def grammar : Except RuleError Grammar :=
  Grammar.ofDeclarations declarations

end Graft.Campaign.Statements
