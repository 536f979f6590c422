import Mathlib.Data.List.Forall2

/-!
# Lists and options in correspondence

Two lists correspond if they do place by place, and two options correspond if they
hold corresponding values or hold none. What is looked up in corresponding lists
corresponds, and corresponding lists stay so if they are changed alike.

A list that is gone through with a function that may fail corresponds to its outcome:
all of it if none of its values fails, and otherwise one of them is to blame.
-/

namespace Graft

variable {α β γ δ : Type} {related : α → β → Prop} {after : γ → δ → Prop}

/-- What two lists have to do with each other place by place may be changed at one place. What is
there now is told with it, since whoever changes a place wants to know what it held. -/
theorem forall₂_at {left : List α} {right : List β} (all : List.Forall₂ related left right)
    {place : Nat} {first : α} (found : left[place]? = some first) :
    ∃ second, right[place]? = some second ∧ related first second ∧
      ∀ next other, related next other →
        List.Forall₂ related (left.set place next) (right.set place other) := by
  induction all generalizing place with
  | nil => cases found
  | cons here there inductionHypothesis =>
    cases place with
    | zero =>
      obtain rfl := Option.some.inj found
      exact ⟨_, rfl, here, fun next other together => .cons together there⟩
    | succ place =>
      obtain ⟨second, placed, together, change⟩ := inductionHypothesis found
      exact ⟨second, placed, together, fun next other also => .cons here (change next other also)⟩

/-- Corresponding lists stay so if a value of one of them gives way to another that corresponds to
whatever the old one corresponds to. The other list is changed too, to what it holds already. -/
theorem forall₂_set {left : List α} {right : List β} (all : List.Forall₂ related left right)
    {place : Nat} {old new : β} (found : right[place]? = some old)
    (stands : ∀ value, related value old → related value new) :
    List.Forall₂ related left (right.set place new) := by
  obtain ⟨value, placed, together, change⟩ := forall₂_at all.flip found
  have changed := (change new value (stands value together)).flip
  obtain ⟨inside, rfl⟩ := List.getElem?_eq_some_iff.mp placed
  rwa [List.set_getElem_self] at changed

/-- Each value of one of two corresponding lists has one in the other that it corresponds to, which
is the one at the same place. -/
theorem related_of_mem {left : List α} {right : List β} (all : List.Forall₂ related left right)
    {other : β} (member : other ∈ right) : ∃ value ∈ left, related value other := by
  obtain ⟨place, found⟩ := List.getElem?_of_mem member
  obtain ⟨value, placed, together, -⟩ := forall₂_at all.flip found
  exact ⟨value, List.mem_of_getElem? placed, together⟩

/-- Lists that correspond in one way correspond in another if the first implies the second. It has
to for the values in the lists only, so that what is known of these may be made use of. -/
theorem forall₂_imp_of_mem {weaker : α → β → Prop} {left : List α} {right : List β}
    (all : List.Forall₂ related left right)
    (weakens : ∀ value, ∀ other ∈ right, related value other → weaker value other) :
    List.Forall₂ weaker left right := by
  induction all with
  | nil => exact .nil
  | cons first _ inductionHypothesis =>
    refine .cons (weakens _ _ List.mem_cons_self first) (inductionHypothesis ?_)
    exact fun value other later => weakens value other (List.mem_cons_of_mem _ later)

/-- Corresponding lists hold corresponding values at each place, and end at the same one. -/
theorem rel_getElem? {left : List α} {right : List β} (all : List.Forall₂ related left right)
    (place : Nat) : Option.Rel related left[place]? right[place]? := by
  cases found : left[place]? with
  | none =>
    rw [List.getElem?_eq_none_iff, all.length_eq, ← List.getElem?_eq_none_iff] at found
    rw [found]
    exact .none
  | some first =>
    obtain ⟨second, placed, together, -⟩ := forall₂_at all found
    rw [placed]
    exact .some together

/-- Two lists correspond to each other if what corresponds to one value does. The list that both
come from is in no step of the conclusion, and is only walked along. -/
theorem forall₂_across {origin : List γ} {left : List α} {right : List β}
    {leftward : γ → α → Prop} {rightward : γ → β → Prop}
    (toLeft : List.Forall₂ leftward origin left) (toRight : List.Forall₂ rightward origin right)
    (across : ∀ source value other, leftward source value → rightward source other →
      related value other) : List.Forall₂ related left right := by
  induction toLeft generalizing right with
  | nil =>
    cases toRight
    exact .nil
  | cons first _ inductionHypothesis =>
    cases toRight with
    | cons second rest => exact .cons (across _ _ _ first second) (inductionHypothesis rest)

/-- Corresponding lists are both empty or neither is, so that a branch on it is the same for
both. -/
theorem isEmpty_eq_of_forall₂ {left : List α} {right : List β}
    (all : List.Forall₂ related left right) : left.isEmpty = right.isEmpty := by
  cases all with
  | nil => rfl
  | cons _ _ => rfl

/-- If every value of a list has a value that corresponds to it, there is a list of them. The choice
is made value by value, with no function that makes it for all. -/
theorem exists_forall₂ {left : List α} (each : ∀ value ∈ left, ∃ other, related value other) :
    ∃ right, List.Forall₂ related left right := by
  induction left with
  | nil => exact ⟨[], .nil⟩
  | cons value rest inductionHypothesis =>
    obtain ⟨other, first⟩ := each value List.mem_cons_self
    obtain ⟨others, further⟩ :=
      inductionHypothesis fun later member => each later (List.mem_cons_of_mem _ member)
    exact ⟨other :: others, .cons first further⟩

/-- Only the empty option corresponds to the empty option. -/
theorem rel_none_iff {right : Option β} : Option.Rel related none right ↔ right = none := by
  constructor
  · rintro ⟨⟩
    rfl
  · rintro rfl
    exact .none

/-- Corresponding options are both empty, or they hold corresponding values. The two cases are those
of a branch on both. -/
theorem rel_taken_apart {left : Option α} {right : Option β}
    (both : Option.Rel related left right) :
    (left = none ∧ right = none) ∨
      ∃ value other, left = some value ∧ right = some other ∧ related value other := by
  cases both with
  | none => exact .inl ⟨rfl, rfl⟩
  | some together => exact .inr ⟨_, _, rfl, rfl, together⟩

/-- Corresponding options are both filled or both empty, whatever is in them. -/
theorem isSome_eq_of_rel {left : Option α} {right : Option β}
    (both : Option.Rel related left right) : left.isSome = right.isSome := by
  cases both with
  | none => rfl
  | some _ => rfl

/-- The images of corresponding options correspond, if the images of corresponding values do. -/
theorem rel_map {left : Option α} {right : Option β} {image : α → γ} {otherImage : β → δ}
    (both : Option.Rel related left right)
    (images : ∀ value other, related value other → after (image value) (otherImage other)) :
    Option.Rel after (left.map image) (right.map otherImage) := by
  cases both with
  | none => exact .none
  | some together => exact .some (images _ _ together)

/-- Corresponding options are followed by corresponding options. An option that is missing is so on
both sides, and then nothing follows. -/
theorem rel_bind {left : Option α} {right : Option β} {next : α → Option γ}
    {otherNext : β → Option δ} (both : Option.Rel related left right)
    (rest : ∀ value other, related value other → Option.Rel after (next value) (otherNext other)) :
    Option.Rel after (left.bind next) (right.bind otherNext) := by
  cases both with
  | none => exact .none
  | some together => exact rest _ _ together

/-- Corresponding options make corresponding lists, of one value or of none. -/
theorem forall₂_toList {left : Option α} {right : Option β}
    (both : Option.Rel related left right) :
    List.Forall₂ related left.toList right.toList := by
  cases both with
  | none => exact .nil
  | some together => exact .cons together .nil

/-! ## Going through a list -/

section Traversals

variable {ε : Type} {step : α → Except ε β} {inputs : List α}

/-- A list that is gone through yields another one exactly if each of its values yields the value
at the same place. -/
theorem mapM_eq_ok_iff {outputs : List β} :
    inputs.mapM step = .ok outputs ↔
      List.Forall₂ (fun input output => step input = .ok output) inputs outputs := by
  induction inputs generalizing outputs with
  | nil => simp [pure, Except.pure, eq_comm]
  | cons first rest inductionHypothesis =>
    rw [List.mapM_cons, List.forall₂_cons_left_iff]
    simp only [← inductionHypothesis]
    cases firstMapped : step first with
    | error cause => simp [bind, Except.bind]
    | ok value =>
      cases restMapped : rest.mapM step with
      | error cause => simp [bind, Except.bind]
      | ok values => simp [bind, Except.bind, pure, Except.pure, eq_comm]

/-- A list that is not gone through to the end holds a value that fails. The others need not: what
fails is the first to do so, and its cause is the cause of all. -/
theorem exists_of_mapM_eq_error {cause : ε} (refused : inputs.mapM step = .error cause) :
    ∃ input ∈ inputs, step input = .error cause := by
  induction inputs with
  | nil => cases refused
  | cons first rest inductionHypothesis =>
    rw [List.mapM_cons] at refused
    cases mapped : step first with
    | error other =>
      rw [mapped] at refused
      cases refused
      exact ⟨first, List.mem_cons_self, mapped⟩
    | ok output =>
      cases further : rest.mapM step with
      | error other =>
        simp only [mapped, further, bind, Except.bind] at refused
        cases refused
        obtain ⟨input, member, same⟩ := inductionHypothesis further
        exact ⟨input, List.mem_cons_of_mem _ member, same⟩
      | ok outputs =>
        simp only [mapped, further, bind, Except.bind] at refused
        cases refused

end Traversals

end Graft
