import Graft.Proofs.Random.Drawing

/-!
# Ways without zeros

A fraction is zero if its word has none of the 53 upper bits. A computation that gets from one state
of its source to another meets no such word if none can be drawn on the way. What can be drawn on
the way may be more than what is drawn; a source that records its words tells what that was.
-/

namespace Graft.Random.Source

variable {σ : Type} [Source σ] {source between final : σ}

/-- On the way from one state to another no word can be drawn that makes a fraction of zero. A
state on the way counts also if half a word is drawn from it, unless the source itself tells the
two apart. -/
def Clear (source final : σ) : Prop :=
  ∀ state, Reaches source state → Reaches (Source.next64 state).2 final →
    (Source.next64 state).1 >>> 11 ≠ 0

namespace Clear

/-- The first part of a way without zeros is without them, as whatever is drawn on it is also on the
way to the end. -/
theorem left (clear : Clear source final) (rest : Reaches between final) : Clear source between :=
  fun state before after => clear state before (after.trans rest)

/-- The last part of a way without zeros is without them, as it is reached from the start. -/
theorem right (clear : Clear source final) (first : Reaches source between) : Clear between final :=
  fun state before after => clear state (first.trans before) after

end Clear

/-- A source with the words that have been drawn from it, the last one first. -/
structure Recorded (σ : Type) where
  source : σ
  words : List UInt64 := []

instance : Source (Recorded σ) where
  next64 recorded :=
    let (word, source) := Source.next64 recorded.source
    (word, { source, words := word :: recorded.words })
  next32 recorded :=
    let (halfWord, source) := Source.next32 recorded.source
    (halfWord, { recorded with source })

namespace Recorded

variable {recorded final : Recorded σ}

/-- Draws only add to the words that have been drawn. A word is put in front of those from before,
and half a word is not recorded. -/
theorem suffix_of_leads {drawn : Nat} (leads : Leads drawn recorded final) :
    recorded.words <:+ final.words := by
  induction leads with
  | here recorded => exact List.suffix_rfl
  | word rest inductionHypothesis => exact (List.suffix_cons _ _).trans inductionHypothesis
  | halfWord rest inductionHypothesis => exact inductionHypothesis

/-- A way without zeros is one on which no word without any of the 53 upper bits has been drawn. A
word that is drawn on the way is among those that are recorded at its end. -/
theorem clear (nonzero : ∀ word ∈ final.words, word >>> 11 ≠ 0) : Clear recorded final := by
  rintro state - ⟨drawn, leads⟩
  exact nonzero _ ((suffix_of_leads leads).subset List.mem_cons_self)

/-- Where a run is seen to answer and to draw no zeros, and its value to pass a test, it is a way
without zeros to such a value. The source is a part of the state. A run on fixed words can thus be
evaluated, and what follows from a way without zeros applied to it. -/
theorem exists_clear {ε τ α : Type} (view : τ → Recorded σ) (program : EStateM ε τ α) (state : τ)
    (passes : α → Bool)
    (seen : (match program state with
      | .ok value final => passes value && (view final).words.all fun word => word >>> 11 != 0
      | .error _ _ => false) = true) :
    ∃ value final, program state = .ok value final ∧ passes value = true ∧
      Clear (view state) (view final) := by
  cases ended : program state with
  | ok value final =>
    rw [ended] at seen
    obtain ⟨passed, nonzero⟩ := Bool.and_eq_true_iff.mp seen
    refine ⟨value, final, rfl, passed, Recorded.clear fun word member => ?_⟩
    simpa using List.all_eq_true.mp nonzero word member
  | error cause final =>
    rw [ended] at seen
    cases seen

end Recorded

end Graft.Random.Source
