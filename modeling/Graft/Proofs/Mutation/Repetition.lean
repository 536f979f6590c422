import Graft.Mutation.Repetition
import Graft.Proofs.Grammar.Growth
import Graft.Proofs.Tree.Lens

/-!
# What becomes of the children of a repetition

A run of children is removed from a position on, and a run of elements is put in
after the child at a position, or at the end where there is none. Positions are
drawn within the children and runs are capped by what is left, so that no edit is
aimed past the end.

An edit that is refused hands back the node that it was given. Put in its place
again, the node leaves the tree as it was.
-/

namespace Graft

/-! ## What is left of a tree -/

/-- An edit is refused and leaves the tree as it was, or it turns the tree into one of a kind. -/
def Edited.Turns (edited : Edited) (tree : Tree) (kind : Tree → Prop) : Prop :=
  edited = .unchanged tree ∨ ∃ made, edited = .changed made ∧ kind made

namespace Edited

variable {edited : Edited} {tree node : Tree} {path : Path} {kind : Tree → Prop}

/-- To leave a tree as it was is to be refused. Nothing is asked of the tree then. -/
theorem Turns.unchanged : (Edited.unchanged tree).Turns tree kind :=
  .inl rfl

/-- A tree is turned into what is made of it, if that is of the kind. -/
theorem Turns.changed {made : Tree} (holds : kind made) : (Edited.changed made).Turns tree kind :=
  .inr ⟨made, rfl, holds⟩

/-- What is of one kind is also of a wider one, and a refusal stays a refusal. -/
theorem Turns.mono {wider : Tree → Prop} (turns : edited.Turns tree kind)
    (widens : ∀ made, kind made → wider made) : edited.Turns tree wider := by
  obtain rfl | ⟨made, rfl, holds⟩ := turns
  · exact .unchanged
  · exact .changed (widens made holds)

/-- With word of a refusal the tree is handed back as it was. The flag alone tells that, without a
look at the tree. -/
theorem Turns.tree_of_refused (turns : edited.Turns tree kind) (refused : edited.applied = false) :
    edited.tree = tree := by
  obtain rfl | ⟨made, rfl, -⟩ := turns
  · rfl
  · cases refused

/-- A node that is not changed does not change the tree that has it, as it is put back where it
was found. -/
theorem within_unchanged (found : tree.at? path = some node) :
    (Edited.unchanged node).within tree path = .unchanged tree := by
  rw [within, unchanged, Tree.putAt_at? found]
  rfl

/-- A node that is changed takes the place of the one that the path leads to, which there has to be
one for. -/
theorem exists_within_changed (found : tree.at? path = some node) (new : Tree) :
    ∃ result, (Edited.changed new).within tree path = .changed result ∧
      tree.replaceAt? path new = some result :=
  ⟨tree.putAt path new, rfl, Tree.replaceAt?_eq_some_putAt found new⟩

/-- The edit of a node turns the tree into one with another node in its place, or is refused. -/
theorem Turns.within (turns : edited.Turns node kind) (found : tree.at? path = some node) :
    (edited.within tree path).Turns tree fun result =>
      ∃ new, kind new ∧ tree.replaceAt? path new = some result := by
  obtain rfl | ⟨new, rfl, holds⟩ := turns
  · rw [within_unchanged found]
    exact .unchanged
  · obtain ⟨result, put, replaced⟩ := exists_within_changed found new
    rw [put]
    exact .changed ⟨new, holds, replaced⟩

end Edited

/-! ## Runs of children -/

/-- The children without a run of them from a position on. -/
def withoutRun (position count : Nat) (children : List Tree) : List Tree :=
  children.take position ++ children.drop (position + count)

/-- The children with elements put in after the one at a position, or at the end. -/
def withRun (position : Nat) (elements children : List Tree) : List Tree :=
  let place := if position < children.length then position + 1 else position
  children.take place ++ elements ++ children.drop place

/-- What a mode does around a position of the children: it deletes so many of them, none unless
it is a mode that deletes and one at least where there is one, and it puts elements in, none
unless it is a mode that inserts and one at least if it is. -/
structure RepeatMode.Does (mode : RepeatMode) (position count : Nat) (staged children : List Tree) :
    Prop where
  within : position + count ≤ children.length
  deleted : mode.deletes = true → position < children.length → 0 < count
  kept : mode.deletes = false → count = 0
  inserted : mode.inserts = true → staged ≠ []
  nothing : mode.inserts = false → staged = []

/-- Nothing is left that was not there, wherever the run lies. -/
theorem mem_of_mem_withoutRun {position count : Nat} {children : List Tree} {tree : Tree}
    (member : tree ∈ withoutRun position count children) : tree ∈ children := by
  rcases List.mem_append.mp member with before | after
  · exact List.mem_of_mem_take before
  · exact List.mem_of_mem_drop after

/-- Whatever is there was put in or was there before. What holds of both kinds of children holds of
all, therefore. -/
theorem mem_of_mem_withRun {position : Nat} {elements children : List Tree} {tree : Tree}
    (member : tree ∈ withRun position elements children) : tree ∈ elements ∨ tree ∈ children := by
  rw [withRun, List.mem_append, List.mem_append] at member
  rcases member with (before | between) | after
  · exact .inr (List.mem_of_mem_take before)
  · exact .inl between
  · exact .inr (List.mem_of_mem_drop after)

/-- Putting nothing in changes nothing, at whatever position. -/
@[simp] theorem withRun_nil (position : Nat) (children : List Tree) :
    withRun position [] children = children := by
  simp [withRun]

/-- An empty run is not missed, wherever it is said to lie. -/
@[simp] theorem withoutRun_zero (position : Nat) (children : List Tree) :
    withoutRun position 0 children = children := by
  simp [withoutRun]

/-- So many children are left, if the run lies within them. A run that reached beyond them would
take fewer away than it is long. -/
theorem length_withoutRun {position count : Nat} {children : List Tree}
    (inside : position + count ≤ children.length) :
    (withoutRun position count children).length = children.length - count := by
  rw [withoutRun, List.length_append, List.length_take, List.length_drop]
  omega

namespace Engine

open Graft.Random

variable {σ : Type} {stops : Fault → Prop}

/-- Elements are put in without fail at every position within the children, the one past the last
included. -/
theorem insertAfter_eq {position : Nat} {elements children : List Tree}
    (inside : position ≤ children.length) :
    (insertAfter position elements children : Chance σ (List Tree)) =
      pure (withRun position elements children) := by
  have within :
      ¬ children.length < if position < children.length then position + 1 else position := by
    split <;> omega
  simp only [insertAfter, within, ↓reduceIte]
  rfl

/-- Where a mode does not insert nothing is staged, so that what is staged is always put in. -/
theorem insertion_eq {mode : RepeatMode} {position : Nat} {staged left : List Tree}
    (nothing : mode.inserts = false → staged = []) (inside : position ≤ left.length) :
    (if mode.inserts then insertAfter position staged left else pure left :
      Chance σ (List Tree)) = pure (withRun position staged left) := by
  by_cases inserts : mode.inserts = true
  · rw [if_pos inserts, insertAfter_eq inside]
  · rw [if_neg inserts, nothing (by simpa using inserts), withRun_nil]

/-- The depth below is counted, unless there is none. Only below the greatest depth is that so. -/
theorem depthBelow_ends (depth : Nat) :
    Ends (MonadExcept.ofExcept (Depth.below depth) : Chance σ Nat) (· = depth + 1)
      (fun fault => fault = .depthUncountable ∧ Depth.greatest ≤ depth) := by
  unfold Depth.below
  split
  · exact Ends.pure rfl
  · next uncountable => exact Ends.throw ⟨rfl, Nat.le_of_not_gt uncountable⟩

variable [Source σ]

/-- Whether a run goes on is drawn without fail, whichever way it is. -/
theorem goesOn_ends (engine : Engine) :
    Ends (engine.goesOn : Chance σ Bool) (fun _ => True) stops :=
  Ends.bind Chance.fraction_ends fun _ _ => Ends.pure trivial

/-- A run has one element at least where there is one, and no more than there are. The induction is
on what is available, and the first element is not asked for. -/
theorem runLength_ends (engine : Engine) (available : Nat) :
    Ends (engine.runLength available : Chance σ Nat)
      (fun count => count ≤ available ∧ (0 < available → 0 < count)) stops := by
  induction available with
  | zero => exact Ends.pure ⟨Nat.le_refl 0, id⟩
  | succ available inductionHypothesis =>
    refine Ends.bind (goesOn_ends engine) fun further _ => ?_
    split
    · exact Ends.bind inductionHypothesis fun count known => Ends.pure (by omega)
    · exact Ends.pure (by omega)

/-- A run is deleted without fail from every position within the children. Its length is bounded by
what follows the position, so that it does not reach past the last child. -/
theorem deleteRun_ends (engine : Engine) {position : Nat} {children : List Tree}
    (inside : position ≤ children.length) :
    Ends (engine.deleteRun position children : Chance σ (List Tree))
      (fun remaining => ∃ count, position + count ≤ children.length ∧
        (position < children.length → 0 < count) ∧
          remaining = withoutRun position count children) stops := by
  refine Ends.bind (runLength_ends engine _) fun count known => ?_
  have within : ¬ children.length < position + count := by omega
  simp only [within, ↓reduceIte]
  exact Ends.pure ⟨count, by omega, fun before => known.2 (by omega), rfl⟩

/-- Elements are grown until a draw ends the run. The induction is on the patience, and growths that
fail leave nothing behind. -/
theorem stage_ends (engine : Engine) (element : Symbol) (depth patience : Nat) :
    Ends (engine.stage element depth patience : Chance σ (List Tree))
      (fun staged => ∀ tree ∈ staged, engine.grammar.GrowsAt element depth tree)
      engine.grammar.Abandons := by
  induction patience with
  | zero => exact Ends.throw trivial
  | succ patience inductionHypothesis =>
    refine Ends.bind (Grammar.grow_ends engine.patience element depth) fun grown known => ?_
    have first : ∀ tree ∈ grown.toList, engine.grammar.GrowsAt element depth tree :=
      fun tree member => known tree (Option.mem_toList.mp member)
    refine Ends.bind (goesOn_ends engine) fun further _ => ?_
    split
    · refine Ends.bind inductionHypothesis fun rest knownRest => Ends.pure fun tree member => ?_
      rcases List.mem_append.mp member with here | later
      · exact first tree here
      · exact knownRest tree later
    · exact Ends.pure first

/-- The first half of an edit of a node of the given depth: elements are grown if the mode inserts,
one level below. -/
def staging (engine : Engine) (element : Symbol) (depth : Nat) (mode : RepeatMode) :
    Chance σ (List Tree) :=
  if mode.inserts then do
    engine.stage element (← MonadExcept.ofExcept (Depth.below depth)) engine.patience
  else pure []

/-- The second half of an edit: a run is deleted if the mode deletes, and what is staged is put in
if it inserts. -/
def exchange (engine : Engine) (position : Nat) (mode : RepeatMode) (staged children : List Tree) :
    Chance σ (List Tree) := do
  let left ← if mode.deletes then engine.deleteRun position children else pure children
  if mode.inserts then insertAfter position staged left else return left

/-- An edit does its second half unless it is to insert and has nothing staged. In two halves the
edit can be followed without its case distinctions on the mode. -/
theorem editRepetition_eq (engine : Engine) {symbol element : Symbol} {children : List Tree}
    (carried : symbol.element? = some element) (depth position : Nat) (mode : RepeatMode) :
    (engine.editRepetition (.expansion symbol children) depth position mode :
      Chance σ Edited) = (do
        let staged ← engine.staging element depth mode
        if mode.inserts = true ∧ staged = [] then return .unchanged (.expansion symbol children)
        else do
          let changed ← engine.exchange position mode staged children
          return .changed (.expansion symbol changed)) := by
  cases mode <;>
    simp [editRepetition, carried, staging, exchange, RepeatMode.inserts, RepeatMode.deletes]

/-- Elements are staged one level below if the mode inserts, and none if not. The level below may be
past the greatest depth, which is a fault. -/
theorem staging_ends (engine : Engine) (element : Symbol) (depth : Nat) (mode : RepeatMode) :
    Ends (engine.staging element depth mode : Chance σ (List Tree))
      (fun staged => (mode.inserts = false → staged = []) ∧
        ∀ tree ∈ staged, engine.grammar.GrowsAt element (depth + 1) tree)
      (fun fault => engine.grammar.Abandons fault ∨
        fault = .depthUncountable ∧ Depth.greatest ≤ depth) := by
  by_cases inserts : mode.inserts = true
  · simp only [staging, inserts, ↓reduceIte, Bool.true_eq_false, false_implies, true_and]
    refine Ends.bind ((depthBelow_ends depth).mono (fun _ lower => lower) fun _ => .inr) ?_
    rintro lower rfl
    exact (stage_ends engine element (depth + 1) engine.patience).mono (fun _ grown => grown)
      fun _ => .inl
  · simp only [staging, inserts, Bool.false_eq_true, ↓reduceIte]
    exact Ends.pure ⟨fun _ => rfl, by simp⟩

/-- A run is exchanged without fail for what is staged. It has one element at least if the mode
deletes and there is one, and none if it does not. -/
theorem exchange_ends (engine : Engine) {position : Nat} {children : List Tree}
    (inside : position ≤ children.length) {mode : RepeatMode} {staged : List Tree}
    (nothing : mode.inserts = false → staged = []) :
    Ends (engine.exchange position mode staged children : Chance σ (List Tree))
      (fun changed => ∃ count, position + count ≤ children.length ∧
        (mode.deletes = true → position < children.length → 0 < count) ∧
          (mode.deletes = false → count = 0) ∧
            changed = withRun position staged (withoutRun position count children)) stops := by
  by_cases deletes : mode.deletes = true
  · simp only [exchange, deletes, ↓reduceIte]
    refine Ends.bind (deleteRun_ends engine inside) ?_
    rintro remaining ⟨count, within, deleted, rfl⟩
    have placed : position ≤ (withoutRun position count children).length := by
      rw [length_withoutRun within]
      omega
    rw [insertion_eq nothing placed]
    exact Ends.pure ⟨count, within, fun _ => deleted, by simp, rfl⟩
  · simp only [exchange, deletes, Bool.false_eq_true, ↓reduceIte, pure_bind,
      insertion_eq nothing inside]
    exact Ends.pure ⟨0, inside, by simp, fun _ => rfl, by rw [withoutRun_zero]⟩

/-- An edit of a repetition does what its mode says, with elements grown one level below. It puts
the two halves together: what is staged, and what it is exchanged for. -/
theorem editRepetition_ends (engine : Engine) {symbol element : Symbol} {children : List Tree}
    (carried : symbol.element? = some element) (depth : Nat) {position : Nat}
    (inside : position ≤ children.length) (mode : RepeatMode) :
    Ends (engine.editRepetition (.expansion symbol children) depth position mode :
        Chance σ Edited)
      (fun edited => edited.Turns (.expansion symbol children) fun node => ∃ count staged,
        mode.Does position count staged children ∧
          (∀ tree ∈ staged, engine.grammar.GrowsAt element (depth + 1) tree) ∧
            node = .expansion symbol (withRun position staged (withoutRun position count children)))
      (fun fault => engine.grammar.Abandons fault ∨
        fault = .depthUncountable ∧ Depth.greatest ≤ depth) := by
  rw [editRepetition_eq engine carried]
  refine Ends.bind (staging_ends engine element depth mode) ?_
  rintro staged ⟨nothing, grown⟩
  by_cases refused : mode.inserts = true ∧ staged = []
  · rw [if_pos refused]
    exact Ends.pure .unchanged
  · rw [if_neg refused]
    refine Ends.bind (exchange_ends engine inside nothing) ?_
    rintro changed ⟨count, within, deleted, kept, rfl⟩
    have does : mode.Does position count staged children :=
      ⟨within, deleted, kept, fun inserts none => refused ⟨inserts, none⟩, nothing⟩
    exact Ends.pure (.changed ⟨count, staged, does, grown, rfl⟩)

/-- A copy puts a run of the donor's children into the children of a node, which may have
lost a run before. The run has one element at least where there is one, and the copy is never
refused. -/
theorem spliceRepetition_ends (engine : Engine) {symbol : Symbol} {children : List Tree}
    (donor : Tree) {position : Nat} (inside : position ≤ children.length) (donorPosition : Nat)
    (delete : Bool) :
    Ends (engine.spliceRepetition (.expansion symbol children) donor position donorPosition delete :
        Chance σ Edited)
      (fun edited => ∃ count copied, position + count ≤ children.length ∧
        (donorPosition < donor.children.length → 0 < copied) ∧
          edited = .changed (.expansion symbol (withRun position
            ((donor.children.drop donorPosition).take copied)
            (withoutRun position count children))))
      stops := by
  have copying : ∀ count, position + count ≤ children.length →
      Ends (do
        let available := donor.children.drop donorPosition
        let copied ← engine.runLength available.length
        if available.length < copied then throw (.positionPastEnd copied available.length)
        return .changed (.expansion symbol
          (← insertAfter position (available.take copied) (withoutRun position count children))) :
            Chance σ Edited)
        (fun edited => ∃ count copied, position + count ≤ children.length ∧
          (donorPosition < donor.children.length → 0 < copied) ∧
            edited = .changed (.expansion symbol (withRun position
              ((donor.children.drop donorPosition).take copied)
              (withoutRun position count children)))) stops := by
    intro count within
    have placed : position ≤ (withoutRun position count children).length := by
      rw [length_withoutRun within]
      omega
    refine Ends.bind (runLength_ends engine _) fun copied known => ?_
    simp only [Nat.not_lt_of_le known.1, ↓reduceIte, insertAfter_eq placed, pure_bind]
    refine Ends.pure ⟨count, copied, within, fun before => known.2 ?_, rfl⟩
    rw [List.length_drop]
    omega
  cases delete with
  | false =>
    have kept := copying 0 inside
    rw [withoutRun_zero] at kept
    exact kept
  | true =>
    refine Ends.bind (deleteRun_ends engine inside) ?_
    rintro remaining ⟨count, within, -, rfl⟩
    exact copying count within

end Engine

end Graft
