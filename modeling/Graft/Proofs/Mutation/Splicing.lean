import Graft.Proofs.Mutation.Choice
import Graft.Proofs.Mutation.RepetitionEdit

/-!
# Where spliced material comes from

The two splices make nothing up. What a splice puts in place of a node is a subtree of the corpus,
of the same symbol, that sits no deeper in its tree than the node does. What a copy puts among
the children of a repetition is a slice of the children of such a subtree, and the children that
were there before keep their order, with one run at most taken out.
-/

namespace Graft

open Graft.Random

/-- The corpus has the node in one of its trees, no deeper than the path is long. -/
def Corpus.Offers (corpus : Corpus) (path : Path) (node : Tree) : Prop :=
  ∃ other ∈ corpus.trees, ∃ place : Path, place.length ≤ path.length ∧ other.at? place = some node

/-- To take a run out is to leave what is before it and what is after it, wherever it lies and
however long it is. -/
theorem exists_run (position count : Nat) (children : List Tree) :
    ∃ before run after, children = before ++ run ++ after ∧
      withoutRun position count children = before ++ after := by
  use children.take position, (children.drop position).take count,
    children.drop (position + count)
  constructor
  · rw [List.append_assoc, ← List.drop_drop, List.take_append_drop, List.take_append_drop]
  · rfl

/-- To put elements in is to part the children in two. Where they are parted depends on the position
only. -/
theorem exists_parting (position : Nat) (elements children : List Tree) :
    ∃ left right, children = left ++ right ∧
      withRun position elements children = left ++ elements ++ right := by
  let place := if position < children.length then position + 1 else position
  use children.take place, children.drop place
  constructor
  · exact (List.take_append_drop place children).symm
  · rfl

namespace Engine

variable {σ : Type} [Source σ] {engine : Engine} {corpus : Corpus} {tree : Tree} {only : Bool}
  {source : σ}

/-- A donor is offered by the corpus: it stands in one of its trees, no deeper than the node that it
is for. -/
theorem Pairing.Chosen.offers {pairing : Pairing}
    (chosen : pairing.Chosen engine corpus tree only source) :
    corpus.Offers pairing.site.path (.expansion pairing.label pairing.grandchildren) :=
  ⟨pairing.other, chosen.member, pairing.donor.path, chosen.shallow, chosen.taken⟩

/-- On the source the node that is chosen gives way to a subtree of the corpus. The subtree is of
the same symbol and sits no deeper in its tree. -/
def Splices (engine : Engine) (corpus : Corpus) (tree : Tree) (source : σ) (result : Tree) :
    Prop :=
  ∃ site symbol children label grandchildren,
    Candidate.select (engine.sites tree).nodes source =
      .ok (some site) (Source.after source 1) ∧
    tree.at? site.path = some (.expansion symbol children) ∧ label.id = symbol.id ∧
    corpus.Offers site.path (.expansion label grandchildren) ∧
    tree.replaceAt? site.path (.expansion label grandchildren) = some result ∧
    result.at? site.path = some (.expansion label grandchildren)

/-- On the source the node that is chosen is of a repetition, and its children give up a run at most
and take a slice in. The slice is of the children of a repetition of the corpus, which is of the
same symbol and sits no deeper in its tree. -/
def Copies (engine : Engine) (corpus : Corpus) (tree : Tree) (source : σ) (result : Tree) :
    Prop :=
  ∃ site symbol label grandchildren before run after left slice right,
    Candidate.select (engine.sites tree).repetitions source =
      .ok (some site) (Source.after source 1) ∧
    tree.at? site.path = some (.expansion symbol (before ++ run ++ after)) ∧
    symbol.isRepetition = true ∧ label.isRepetition = true ∧ label.id = symbol.id ∧
    corpus.Offers site.path (.expansion label grandchildren) ∧ slice <:+: grandchildren ∧
    before ++ after = left ++ right ∧
    tree.replaceAt? site.path (.expansion symbol (left ++ slice ++ right)) = some result ∧
    result.at? site.path = some (.expansion symbol (left ++ slice ++ right))

/-- A splice ends. With a donor it puts a subtree of the corpus in place of the node that is chosen,
and without one it leaves the tree as it is. The search decides which of the two it is. -/
theorem splice_moves (engine : Engine) (corpus : Corpus) (tree : Tree) (held : List Candidate)
    (source : σ) :
    ∃ attempt final,
      engine.splice corpus (engine.sites tree) tree held source = .ok attempt final ∧
      (NoDonor engine corpus tree false source ∧ attempt.edited = .unchanged tree ∨
        ∃ result, attempt.edited = .changed result ∧
          engine.Splices corpus tree source result) := by
  by_cases nothing : NoDonor engine corpus tree false source
  · obtain ⟨attempt, final, ended, kept⟩ := search_of_noDonor nothing
    rw [← splice_eq] at ended
    exact ⟨attempt, final, ended, .inl ⟨nothing, kept⟩⟩
  · obtain ⟨pairing, chosen⟩ := exists_chosen nothing
    obtain ⟨attempt, final, ended, applied⟩ := splice_of_chosen held chosen
    have replaced := Tree.replaceAt?_eq_some_putAt chosen.found
      (.expansion pairing.label pairing.grandchildren)
    use attempt, final, ended
    right
    refine ⟨_, applied, pairing.site, pairing.symbol, pairing.children, pairing.label,
      pairing.grandchildren, ?_⟩
    exact ⟨chosen.selected, chosen.found, chosen.same, chosen.offers, replaced,
      Tree.at?_replaceAt?_self replaced⟩

/-- A copy ends. With a donor it takes a run at most out of the children of the repetition that is
chosen and puts a slice of the donor's children in, and without one it leaves the tree as it is. -/
theorem repeatSplice_moves (engine : Engine) (corpus : Corpus) (tree : Tree)
    (held : List Candidate) (source : σ) :
    ∃ attempt final,
      engine.repeatSplice corpus (engine.sites tree) tree held source = .ok attempt final ∧
      (NoDonor engine corpus tree true source ∧ attempt.edited = .unchanged tree ∨
        ∃ result, attempt.edited = .changed result ∧
          engine.Copies corpus tree source result) := by
  by_cases nothing : NoDonor engine corpus tree true source
  · obtain ⟨attempt, final, ended, kept⟩ := search_of_noDonor nothing
    rw [← repeatSplice_eq] at ended
    exact ⟨attempt, final, ended, .inl ⟨nothing, kept⟩⟩
  · obtain ⟨pairing, chosen⟩ := exists_chosen nothing
    obtain ⟨attempt, final, position, count, start, copied, ended, -, applied⟩ :=
      repeatSplice_of_chosen held chosen
    obtain ⟨before, run, after, kept, without⟩ := exists_run position count pairing.children
    obtain ⟨left, right, parted, put⟩ := exists_parting position
      ((pairing.grandchildren.drop start).take copied) (before ++ after)
    have slice : (pairing.grandchildren.drop start).take copied <:+: pairing.grandchildren :=
      (List.take_prefix _ _).isInfix.trans (List.drop_suffix _ _).isInfix
    have found := chosen.found
    have replaced := Tree.replaceAt?_eq_some_putAt found (.expansion pairing.symbol
      (left ++ (pairing.grandchildren.drop start).take copied ++ right))
    rw [without, put] at applied
    rw [kept] at found
    use attempt, final, ended
    right
    refine ⟨_, applied, pairing.site, pairing.symbol, pairing.label, pairing.grandchildren,
      before, run, after, left, (pairing.grandchildren.drop start).take copied, right, ?_⟩
    exact ⟨chosen.selected, found, chosen.wanted rfl, chosen.repeats rfl, chosen.same,
      chosen.offers, slice, parted, replaced, Tree.at?_replaceAt?_self replaced⟩

/-- The two splices only move what the corpus has, and with a donor they do. The node that is chosen
for a splice gives way to a subtree of the corpus, of the same symbol and no deeper in its tree.
The node that is chosen for a copy is of a repetition; its children lose a run at most, and a slice
of the children of a repetition of the corpus, of the same symbol and no deeper in its tree, is put
among them. Without a donor either of them is refused and leaves the tree as it was. -/
theorem splices_move (engine : Engine) (corpus : Corpus) (tree : Tree) (held : List Candidate)
    (source : σ) :
    (∃ attempt final,
      engine.apply corpus .splice (engine.sites tree) tree held source = .ok attempt final ∧
      (NoDonor engine corpus tree false source ∧ attempt.edited = .unchanged tree ∨
        ∃ result, attempt.edited = .changed result ∧
          engine.Splices corpus tree source result)) ∧
    ∃ attempt final,
      engine.apply corpus .repeatSplice (engine.sites tree) tree held source =
        .ok attempt final ∧
      (NoDonor engine corpus tree true source ∧ attempt.edited = .unchanged tree ∨
        ∃ result, attempt.edited = .changed result ∧
          engine.Copies corpus tree source result) := by
  constructor
  · exact splice_moves engine corpus tree held source
  · exact repeatSplice_moves engine corpus tree held source

/-- A corpus of one numeral. -/
def ofNumeral : Corpus := Corpus.unbounded.register (numeral [49, 49, 48])

/-- A digit of a numeral gives way to one of the corpus. Then three digits of the numeral in the
corpus are copied among those that are there. -/
theorem splices_move_numeral :
    (∃ (source : Script) (attempt : Attempt) (final : Script) (site : Candidate) (node : Tree),
      ofDigits.apply ofNumeral .splice (ofDigits.sites (numeral [48, 49])) (numeral [48, 49]) []
        source = .ok attempt final ∧
      attempt.edited = .changed (numeral [49, 49]) ∧ ofNumeral.Offers site.path node ∧
      (numeral [49, 49]).at? site.path = some node) ∧
    ∃ (source : Script) (attempt : Attempt) (final : Script) (site : Candidate) (label : Symbol)
      (grandchildren slice : List Tree),
      ofDigits.apply ofNumeral .repeatSplice (ofDigits.sites (numeral [48, 49])) (numeral [48, 49])
        [] source = .ok attempt final ∧
      attempt.edited = .changed (numeral [48, 49, 49, 48, 49]) ∧ label.isRepetition = true ∧
      ofNumeral.Offers site.path (.expansion label grandchildren) ∧ slice <:+: grandchildren := by
  constructor
  · let source : Script :=
      { words := [9223372036854775808, 0, 0], generator := .splitMix ⟨0⟩ }
    obtain ⟨attempt, final, ended, applied⟩ : ∃ attempt final,
        ofDigits.apply ofNumeral .splice (ofDigits.sites (numeral [48, 49])) (numeral [48, 49]) []
          source = .ok attempt final ∧ attempt.edited = .changed (numeral [49, 49]) :=
      ⟨_, _, rfl, rfl⟩
    obtain ⟨other, reached, again, refused | moved⟩ :=
      (splices_move ofDigits ofNumeral (numeral [48, 49]) [] source).1
    · cases ended.symm.trans again
      cases applied.symm.trans refused.2
    · cases ended.symm.trans again
      obtain ⟨result, new, site, symbol, children, label, grandchildren, -, -, -, offers, -,
        there⟩ := moved
      cases applied.symm.trans new
      exact ⟨source, attempt, final, site, _, ended, applied, offers, there⟩
  · let source : Script :=
      { words := [0, 0, 0, 0, 1294967295, 18446744073709551615, 0, 0, 0]
        generator := .splitMix ⟨0⟩ }
    obtain ⟨attempt, final, ended, applied⟩ : ∃ attempt final,
        ofDigits.apply ofNumeral .repeatSplice (ofDigits.sites (numeral [48, 49]))
          (numeral [48, 49]) [] source = .ok attempt final ∧
            attempt.edited = .changed (numeral [48, 49, 49, 48, 49]) :=
      ⟨_, _, rfl, rfl⟩
    obtain ⟨other, reached, again, refused | moved⟩ :=
      (splices_move ofDigits ofNumeral (numeral [48, 49]) [] source).2
    · cases ended.symm.trans again
      cases applied.symm.trans refused.2
    · cases ended.symm.trans again
      obtain ⟨result, -, site, symbol, label, grandchildren, before, run, after, left, slice,
        right, -, -, -, repetition, -, offers, part, -⟩ := moved
      exact ⟨source, attempt, final, site, label, grandchildren, slice, ended, applied,
        repetition, offers, part⟩

end Engine

end Graft
