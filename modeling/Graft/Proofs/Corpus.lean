import Graft.Corpus

/-!
# What a corpus holds

A corpus is what remains of all the trees that have ever been put into it: the
latest of them, as many as its limit leaves room for. A new tree takes the place
of at most one other. To draw from a corpus is to choose among what it holds, and
nothing that it holds is out of reach.
-/

namespace Graft.Corpus

open Graft.Random

/-- The latest of some trees, as many as a limit leaves room for. There is always room for
one, and without a limit there is room for all. -/
def newest (limit? : Option Nat) (trees : List Tree) : List Tree :=
  match limit? with
  | none => trees
  | some limit => trees.drop (trees.length - max 1 limit)

/-- A corpus, made with a limit or without, holds what it can of the trees that have been put
into it one after the other. -/
structure Holds (corpus : Corpus) (limit? : Option Nat) (trees : List Tree) : Prop where
  limit : corpus.limit = (ofCapacity limit?).limit
  held : corpus.trees.toList = newest limit? trees

/-- A new corpus holds nothing, which is the last of what has been put into it, however little it
can hold. -/
theorem holds_nothing (limit? : Option Nat) : (ofCapacity limit?).Holds limit? [] := by
  refine ⟨rfl, ?_⟩
  cases limit? with
  | none => rfl
  | some limit => exact List.drop_nil.symm

/-- To put a tree into a corpus adds it to what has been put there. In a full corpus the oldest tree
makes way for it, so that the newest trees are held and their order is kept. -/
theorem Holds.register {corpus : Corpus} {limit? : Option Nat} {trees : List Tree}
    (holds : corpus.Holds limit? trees) (tree : Tree) :
    (corpus.register tree).Holds limit? (trees ++ [tree]) := by
  obtain ⟨limit, held⟩ := holds
  cases limit? with
  | none =>
    have unlimited : corpus.limit = none := limit
    constructor
    · simp only [Corpus.register, unlimited]
      rfl
    · simp only [Corpus.register, unlimited, Array.toList_push, held, newest]
  | some capacity =>
    have limited : corpus.limit = some (max capacity 1) := limit
    constructor
    · simp only [Corpus.register, limited]
      rfl
    · have size : corpus.trees.size = trees.length - (trees.length - max 1 capacity) := by
        rw [← Array.length_toList, held, newest, List.length_drop]
      have kept : (corpus.trees.extract (corpus.trees.size + 1 - max capacity 1)
          corpus.trees.size).toList =
            trees.drop (trees.length + 1 - max 1 capacity) := by
        rw [Array.toList_extract, List.extract_eq_take_drop, held, newest, List.drop_drop,
          List.take_of_length_le]
        · congr 1
          omega
        · simp only [List.length_drop]
          omega
      simp only [Corpus.register, limited, Corpus.size, Array.toList_push, newest, kept,
        List.length_append, List.length_singleton]
      rw [List.drop_append_of_le_length]
      omega

/-- A registered corpus holds what it held and the new tree. The converse fails for the tree that
had to make way. -/
theorem mem_of_mem_register {corpus : Corpus} {tree other : Tree}
    (member : other ∈ (corpus.register tree).trees) : other ∈ corpus.trees ∨ other = tree := by
  unfold register at member
  split at member
  · exact Array.mem_push.mp member
  · rcases Array.mem_push.mp member with kept | new
    · rw [← Array.mem_toList_iff, Array.toList_extract, List.extract_eq_take_drop] at kept
      exact .inl (Array.mem_toList_iff.mp (List.mem_of_mem_drop (List.mem_of_mem_take kept)))
    · exact .inr new

variable {σ : Type} [Source σ]

/-- A word that is drawn from a corpus names a place by its remainder. One word is drawn, whatever
the number of trees. -/
theorem random_eq {corpus : Corpus} (inhabited : corpus.size ≠ 0) (source : σ) :
    corpus.random source =
      .ok (corpus.get? ((Source.next64 source).1.toNat % corpus.size))
        (Source.next64 source).2 := by
  simp only [random, inhabited, ↓reduceIte]
  simp only [Chance.remainder, inhabited, ↓reduceIte]
  rfl

/-- Whatever word is drawn, it yields a tree that the corpus holds, as a remainder is less than the
number of trees. -/
theorem random_mem {corpus : Corpus} (inhabited : corpus.size ≠ 0) (source : σ) :
    ∃ tree ∈ corpus.trees, corpus.random source = .ok (some tree) (Source.next64 source).2 := by
  have inside : (Source.next64 source).1.toNat % corpus.size < corpus.trees.size :=
    Nat.mod_lt _ (Nat.pos_of_ne_zero inhabited)
  refine ⟨_, Array.getElem_mem inside, ?_⟩
  rw [random_eq inhabited, get?, Array.getElem?_eq_getElem inside]

/-- Every tree that a corpus holds is drawn by some word, if there are as many words. The word is
the number of its place. -/
theorem random_onto {corpus : Corpus} (countable : corpus.size ≤ UInt64.size) {tree : Tree}
    (present : tree ∈ corpus.trees) :
    ∃ word, ∀ source : σ, (Source.next64 source).1 = word →
      corpus.random source = .ok (some tree) (Source.next64 source).2 := by
  obtain ⟨place, inside, found⟩ := Array.mem_iff_getElem.mp present
  have inhabited : corpus.size ≠ 0 := Nat.ne_zero_of_lt inside
  refine ⟨UInt64.ofNat place, fun source drawn => ?_⟩
  have small : (UInt64.ofNat place).toNat = place :=
    UInt64.toNat_ofNat_of_lt (Nat.lt_of_lt_of_le inside countable)
  have same : place % corpus.size = place := Nat.mod_eq_of_lt inside
  rw [random_eq inhabited, drawn, small, same, get?, Array.getElem?_eq_getElem inside, found]

end Graft.Corpus
