import Graft.Proofs.Grammar.Derivation
import Graft.Proofs.Mutation.Request
import Graft.Random.SplitMix

/-!
# Generation derives

Whatever is drawn, a symbol grows only into its derivations, and so does every
symbol below it: one that has none within the greatest depth is never expanded. A
sample is generated from a derivation of the root symbol and is read as that tree.
Short of an answer, growth can only outlast the patience.
-/

namespace Graft

/-- Where the greatest depth has a depth below it, growth is abandoned only because it goes on
for too long. -/
theorem Grammar.Abandons.eq_patienceExhausted {grammar : Grammar} {fault : Fault}
    (abandons : grammar.Abandons fault) (limited : grammar.maxDepth < Depth.greatest) :
    fault = .patienceExhausted := by
  cases fault with
  | patienceExhausted => rfl
  | depthUncountable => exact absurd limited (Nat.not_lt_of_le abandons)
  | _ => cases abandons

/-- A derivation conforms. Conforming asks for the same of every node, except that it lets
repetitions be empty. -/
theorem Grammar.Derives.conforms {grammar : Grammar} {symbol : Symbol} {tree : Tree}
    (derives : grammar.Derives symbol tree) : tree.Conforms grammar :=
  Tree.Everywhere.mono derives.2 fun _ _ yields => yields.1

open Graft.Random

variable {σ : Type} [Source σ]

/-- From every source, what a symbol grows into at a depth derives at that depth, and so does
every inner node in it from its own symbol. A symbol that nothing derives from does not grow. A
sample that is generated is that of a derivation of the root symbol, and is read as that tree
if an allocation can hold it. Growth that does not come to an answer has lasted too long. -/
theorem generation_derives {declarations : List Declaration} {grammar : Grammar}
    (built : Grammar.ofDeclarations declarations = .ok grammar)
    (limited : grammar.maxDepth < Depth.greatest) (patience : Nat) :
    (∀ symbol depth, Ends (grammar.grow patience symbol depth : Chance σ (Option Tree))
      (fun grown => ∀ tree, grown = some tree → grammar.DerivesAt symbol depth tree ∧
        ∀ path label children, tree.at? path = some (.expansion label children) →
          grammar.DerivesAt label (depth + path.length) (.expansion label children))
      (· = .patienceExhausted)) ∧
    (∀ symbol depth, (∀ tree, ¬ grammar.DerivesAt symbol depth tree) →
      Ends (grammar.grow patience symbol depth : Chance σ (Option Tree)) (· = none)
        (· = .patienceExhausted)) ∧
    (∀ (mutator : Mutator) (settings : Settings),
      Engine.ofSettings? grammar settings patience = some mutator.engine →
        Ends (mutator.generateSample : Trial MutationError σ Bytes)
          (fun sample => ∃ root tree, grammar.symbol? settings.rootSymbol = some root ∧
            sample = tree.toSample ∧ grammar.Derives root tree ∧
              tree.DepthWithin 0 grammar.maxDepth ∧
                (tree.Storable → grammar.readSample sample = .ok tree))
          (· = .fault .patienceExhausted)) := by
  have wellFormed := Grammar.wellFormed_of_ofDeclarations built
  have grows (symbol : Symbol) (depth : Nat) :
      Ends (grammar.grow patience symbol depth : Chance σ (Option Tree))
        (fun grown => ∀ tree, grown = some tree → grammar.DerivesAt symbol depth tree)
        (· = .patienceExhausted) :=
    (Grammar.grow_ends patience symbol depth).mono
      (fun _ known tree grown => (Grammar.growsAt_iff_derivesAt wellFormed).mp (known tree grown))
      fun _ abandons => abandons.eq_patienceExhausted limited
  refine ⟨?derives, ?barren, ?sample⟩
  case derives =>
    intro symbol depth
    refine (grows symbol depth).mono (fun grown known tree present => ?_) fun _ stop => stop
    exact ⟨known tree present, fun path label children => (known tree present).at?⟩
  case barren =>
    intro symbol depth barren
    refine (grows symbol depth).mono (fun grown known => ?_) fun _ stop => stop
    cases grown with
    | none => rfl
    | some tree => exact absurd (known tree rfl) (barren tree)
  case sample =>
    intro mutator settings made
    obtain ⟨engine, bound, sites, donors, tally⟩ := mutator
    obtain ⟨root, rooted, rfl⟩ := Option.map_eq_some_iff.mp made
    have owned : grammar.Owns root := wellFormed.owns_of_symbol? rooted
    refine (Mutator.generateSample_ends _).mono ?_ ?_
    · rintro sample ⟨tree, rfl, grown⟩
      have derives := ((Grammar.growsAt_iff_derivesAt wellFormed).mp grown).derives owned
      exact ⟨root, tree, rooted, rfl, derives, grown.depthWithin wellFormed,
        derives.conforms.readSample wellFormed⟩
    · rintro stop ⟨fault, rfl, abandons⟩
      rw [abandons.eq_patienceExhausted limited]

/-- The symbol of binary numerals. -/
def numeral : Symbol := .repetition 0 "list" (.plain 1 "digit")

/-- Below the greatest depth of its grammar nothing derives, for the node itself would lie too
deep. -/
theorem Grammar.not_derivesAt_of_lt {grammar : Grammar} {symbol : Symbol} {depth : Nat}
    (tooDeep : grammar.maxDepth < depth) (tree : Tree) :
    ¬ grammar.DerivesAt symbol depth tree := by
  rintro ⟨own, -, -, -, derives, within⟩
  obtain ⟨children, rfl, -⟩ := derives.expansion
  exact absurd (within [] own children rfl) (Nat.not_le_of_lt tooDeep)

/-- A mutator of binary numerals. -/
def ofNumerals : Mutator where
  engine :=
    { grammar := .numerals
      settings := { rootSymbol := "list" }
      root := numeral
      patience := 50 }

/-- One level above the greatest depth a binary numeral grows, from one source at least, and
derives. One level below it nothing grows. A numeral is generated, from the same source, and
read as a derivation. -/
theorem generation_derives_numerals :
    Grammar.numerals.maxDepth < Depth.greatest ∧
    (∃ tree reached,
      Grammar.numerals.grow 50 numeral 99 (⟨1⟩ : SplitMix) = .ok (some tree) reached ∧
        Grammar.numerals.DerivesAt numeral 99 tree) ∧
    (∃ reached, Grammar.numerals.grow 50 numeral 101 (⟨1⟩ : SplitMix) = .ok none reached) ∧
    ∃ sample reached tree, ofNumerals.generateSample ({ source := ⟨1⟩ } : Journal SplitMix) =
        (.ok sample reached : EStateM.Result (Stop MutationError) _ _) ∧
      Grammar.numerals.readSample sample = .ok tree ∧ Grammar.numerals.Derives numeral tree := by
  have limited : Grammar.numerals.maxDepth < Depth.greatest := by decide
  obtain ⟨derives, barren, generates⟩ :=
    generation_derives (σ := SplitMix) Grammar.ofDeclarations_numerals limited 50
  refine ⟨limited, ?grows, ?fails, ?sample⟩
  case grows =>
    obtain ⟨grown, reached, ended, present, known⟩ :=
      (derives numeral 99).exists_answer ⟨1⟩ Option.isSome (by decide +kernel)
    obtain ⟨tree, rfl⟩ := Option.isSome_iff_exists.mp present
    exact ⟨tree, reached, ended, (known tree rfl).1⟩
  case fails =>
    have nothing (tree : Tree) : ¬ Grammar.numerals.DerivesAt numeral 101 tree :=
      Grammar.not_derivesAt_of_lt (by decide) tree
    obtain ⟨grown, reached, ended, -, rfl⟩ :=
      (barren numeral 101 nothing).exists_answer ⟨1⟩ Option.isNone (by decide +kernel)
    exact ⟨reached, ended⟩
  case sample =>
    have generated := generates ofNumerals { rootSymbol := "list" } rfl
    obtain ⟨sample, reached, ended, short, root, tree, rooted, rfl, derived, -, read⟩ :=
      generated.exists_answer { source := ⟨1⟩ }
        (fun sample => decide (4 * sample.length ≤ Sample.allocationLimit)) (by decide +kernel)
    obtain rfl : numeral = root := Option.some.inj rooted
    have storable : tree.Storable :=
      Wire.storable_of_short tree.toWire (of_decide_eq_true short)
    exact ⟨_, reached, tree, ended, read storable, derived⟩

end Graft
