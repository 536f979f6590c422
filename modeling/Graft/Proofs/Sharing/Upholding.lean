import Graft.Proofs.Sharing.Course

/-!
# What a crew lets into the corpus

A process upholds a condition on trees if it puts only such trees into the corpus as
long as it finds no others there. Processes side by side that all uphold a condition
keep it together: the corpus has only such trees at every moment, by whatever
schedule they take their turns, and so each of them finds no others.
-/

namespace Graft

variable {α : Type} {good : Tree → Prop}

/-- All trees that the deed has found in the corpus are good. -/
def Deed.Finds (good : Tree → Prop) : Deed → Prop
  | ⟨.look, corpus⟩ => ∀ tree ∈ corpus.trees, good tree
  | _ => True

/-- As long as deeds find only good trees in the corpus, they put only such trees there. -/
def Upholds (good : Tree → Prop) : List Deed → Prop
  | [] => True
  | deed :: deeds =>
    (∀ tree ∈ deed.registered, good tree) ∧ (deed.Finds good → Upholds good deeds)

/-- Deeds that put only good trees into the corpus do so whatever they find there. Upholding asks
less: only after good finds. -/
theorem upholds_of_registered {deeds : List Deed}
    (registered : ∀ tree ∈ registeredBy deeds, good tree) : Upholds good deeds := by
  induction deeds with
  | nil => trivial
  | cons deed deeds inductionHypothesis =>
    obtain ⟨first, further⟩ := List.forall_mem_append.mp registered
    exact ⟨first, fun _ => inductionHypothesis further⟩

/-- Deeds that change nothing uphold any condition, for they put nothing into the corpus. -/
theorem upholds_of_unchanging {deeds : List Deed}
    (unchanging : ∀ deed ∈ deeds, ¬ deed.access.Changes) : Upholds good deeds :=
  upholds_of_registered ((nothing_of_unchanging unchanging).1 ▸ List.forall_mem_nil _)

/-- Deeds in two parts uphold what the first part does, and the second one after good finds. Once a
bad tree has been found nothing more is asked. -/
theorem upholds_append {first second : List Deed} :
    Upholds good (first ++ second) ↔ Upholds good first ∧
      ((∀ deed ∈ first, deed.Finds good) → Upholds good second) := by
  induction first with
  | nil => simp [Upholds]
  | cons deed deeds inductionHypothesis =>
    simp only [List.cons_append, Upholds, inductionHypothesis, List.forall_mem_cons]
    tauto

/-- Whatever the replies to its accesses, the process upholds the condition. -/
def Process.Upholds (good : Tree → Prop) (process : Process α) : Prop :=
  ∀ value deeds, process.ComesTo value deeds → Graft.Upholds good deeds

/-- The next access of a process that upholds a condition puts only good trees into the corpus.
Nothing has been found before it that could excuse it. -/
theorem Process.Upholds.registered {access : Access} {next : access.Reply → Process α}
    (upholds : (Process.seek access next).Upholds good) :
    ∀ tree ∈ access.registered, good tree := by
  -- Some course begins with the access, for instance the one that the process takes alone.
  obtain ⟨deeds, comes, -⟩ := (Process.seek access next).alone_comes { corpus := .unbounded }
  obtain ⟨reply, rest, same, -⟩ := Process.comesTo_seek.mp comes
  have all := upholds _ _ comes
  rw [same] at all
  exact all.1

/-- A process that has found only good trees goes on to uphold the condition. Its courses are the
later parts of those from before. -/
theorem Process.Upholds.next {access : Access} {next : access.Reply → Process α}
    (upholds : (Process.seek access next).Upholds good) {reply : access.Reply}
    (finds : Deed.Finds good ⟨access, reply⟩) : (next reply).Upholds good :=
  fun value _ comes => (upholds value _ (.seek reply comes)).2 finds

/-- An access to a good corpus finds only good trees: what it finds is the corpus as it is. -/
theorem Shared.finds_grant {shared : Shared} (held : ∀ tree ∈ shared.corpus.trees, good tree)
    (access : Access) : Deed.Finds good ⟨access, (shared.grant access).1⟩ := by
  cases access with
  | look => exact held
  | register tree => trivial
  | write path content => trivial
  | note event => trivial

/-- A good corpus stays good when good trees are put there, also where others are let go for
them. -/
theorem Shared.held_grant {shared : Shared} (held : ∀ tree ∈ shared.corpus.trees, good tree)
    {access : Access} (registered : ∀ tree ∈ access.registered, good tree) :
    ∀ tree ∈ (shared.grant access).2.corpus.trees, good tree := fun tree member =>
  (Shared.mem_of_mem_grant member).elim (held tree) (registered tree)

/-- Deeds that put only good trees into a good corpus find no others there. The induction is on what
is granted. -/
theorem Shared.Grants.finds {shared final : Shared} {deeds : List Deed}
    (granted : shared.Grants deeds final) (held : ∀ tree ∈ shared.corpus.trees, good tree)
    (registered : ∀ tree ∈ registeredBy deeds, good tree) : ∀ deed ∈ deeds, deed.Finds good := by
  induction granted with
  | nothing shared => exact List.forall_mem_nil _
  | @deed shared final deeds access further inductionHypothesis =>
    obtain ⟨first, rest⟩ := List.forall_mem_append.mp registered
    exact List.forall_mem_cons.mpr
      ⟨Shared.finds_grant held access, inductionHypothesis (Shared.held_grant held first) rest⟩

namespace Crew

/-- The corpus is good, only good trees have been put there, and all members go on to uphold
that. -/
structure Upholds (good : Tree → Prop) (crew : Crew α) : Prop where
  held : ∀ tree ∈ crew.shared.corpus.trees, good tree
  registered : ∀ tree ∈ crew.registered, good tree
  members : ∀ member ∈ crew.members, member.Upholds good

variable {crew : Crew α}

/-- A crew goes on to uphold a condition when a member makes its next access. The member has found a
good corpus, and the others are as they were. -/
theorem Upholds.move (upholds : crew.Upholds good) (turn : Nat) :
    (crew.move turn).Upholds good := by
  rcases crew.move_cases turn with same | ⟨access, next, found, moved⟩
  · exact same.symm ▸ upholds
  have member := upholds.members _ (List.mem_of_getElem? found)
  rw [moved]
  refine ⟨Shared.held_grant upholds.held member.registered,
    List.forall_mem_append.mpr ⟨upholds.registered, member.registered⟩, fun other present => ?_⟩
  rcases List.mem_or_eq_of_mem_set present with old | rfl
  · exact upholds.members other old
  · exact member.next (Shared.finds_grant upholds.held access)

/-- A crew upholds a condition by every schedule. The induction is on the turns. -/
theorem Upholds.after (upholds : crew.Upholds good) (schedule : List Nat) :
    (crew.after schedule).Upholds good := by
  induction schedule generalizing crew with
  | nil => exact upholds
  | cons turn schedule inductionHypothesis => exact inductionHypothesis (upholds.move turn)

/-- The members of a crew that upholds a condition have come to their values by courses on which
they have found only good trees. -/
theorem Upholds.courses (upholds : crew.Upholds good) {schedule : List Nat} {values : List α}
    (ended : (crew.after schedule).Ended values) :
    List.Forall₂ (fun member value => ∃ deeds, member.ComesTo value deeds ∧
      ∀ deed ∈ deeds, deed.Finds good) crew.members values := by
  obtain ⟨courses, log, each, rfl, parts, granted, registered⟩ := ended_comes ended
  have finds : ∀ deed ∈ log, deed.Finds good := by
    refine granted.finds upholds.held fun tree member => ?_
    refine (upholds.after schedule).registered tree ?_
    rw [registered]
    exact List.mem_append_right _ member
  have clean : ∀ course ∈ courses, ∀ deed ∈ course.1, deed.Finds good :=
    fun course present deed inside => finds deed <| parts.mem_iff.mp <|
      List.mem_flatten_of_mem (List.mem_map_of_mem present) inside
  have both := (List.forall₂_and_left ..).mpr ⟨clean, List.Forall₂.flip each⟩
  refine List.forall₂_map_right_iff.mpr (List.Forall₂.flip (both.imp ?_))
  exact fun course member ⟨clean, comes⟩ => ⟨course.1, comes, clean⟩

end Crew

end Graft
