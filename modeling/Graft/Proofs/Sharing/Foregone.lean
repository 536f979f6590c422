import Graft.Proofs.Correspondence
import Graft.Sharing.Crew
import Mathlib.Data.List.Forall2
import Mathlib.Data.List.Perm.Basic

/-!
# Foregone conclusions

The end of a process is foregone if it depends on nothing that the others do, as
long as they keep something up: whatever the replies to its accesses can then be,
it comes to one value and puts the same trees into the corpus in the same order.
The process keeps it up as well, so the ends of all the members of a crew may be
foregone together. Then they do not depend on the schedule, and what the crew puts
into the corpus depends on it in its order alone.
-/

namespace Graft

variable {ε σ α β : Type}

/-- As long as something holds of what is shared, which it keeps up itself, the process comes to
one value, and puts these trees into the corpus. -/
inductive Process.Foregone (holds : Shared → Prop) (value : α) : Process α → List Tree → Prop where
  | done : Foregone holds value (.done value) []
  | seek {access : Access} {next : access.Reply → Process α} {trees : List Tree}
      (kept : ∀ shared, holds shared → holds (shared.grant access).2)
      (further : ∀ shared, holds shared →
        Foregone holds value (next (shared.grant access).1) trees) :
      Foregone holds value (.seek access next) (access.registered ++ trees)

/-- Accesses that keep something up one by one keep it up together. The induction is on the
accesses. -/
theorem Shared.grantAll_keeps {holds : Shared → Prop} {accesses : List Access}
    (keep : ∀ access ∈ accesses, ∀ shared, holds shared → holds (shared.grant access).2)
    {shared : Shared} (start : holds shared) : holds (shared.grantAll accesses) := by
  induction accesses generalizing shared with
  | nil => exact start
  | cons access accesses inductionHypothesis =>
    have first := keep access List.mem_cons_self shared start
    exact inductionHypothesis (fun other later => keep other (List.mem_cons_of_mem _ later)) first

namespace Process.Foregone

variable {holds : Shared → Prop} {value : α} {process : Process α} {trees : List Tree}

/-- The end of two processes one after the other is foregone if those of both are. The second one
relies on the same of what is shared. -/
theorem bind {result : β} {rest : α → Process β} {more : List Tree}
    (first : process.Foregone holds value trees)
    (second : (rest value).Foregone holds result more) :
    (process.bind rest).Foregone holds result (trees ++ more) := by
  induction first with
  | done => exact second
  | seek kept further inductionHypothesis =>
    rw [List.append_assoc]
    exact .seek kept inductionHypothesis

/-- To note events has a foregone end, since the reply to a note tells nothing. -/
theorem noteAll (noted : ∀ (shared : Shared) event, holds shared →
    holds (shared.grant (.note event)).2) (events : List Event) :
    (Process.noteAll events).Foregone holds () [] := by
  induction events with
  | nil => exact .done
  | cons event events inductionHypothesis =>
    exact .seek (fun shared => noted shared event) fun _ _ => inductionHypothesis

/-- A process alone comes to what is foregone, and keeps up what it relies on. Nobody else is there
who could break it. -/
theorem alone (foregone : process.Foregone holds value trees) {shared : Shared}
    (start : holds shared) : (process.alone shared).1 = value ∧ holds (process.alone shared).2 := by
  induction foregone generalizing shared with
  | done => exact ⟨rfl, start⟩
  | seek kept further inductionHypothesis =>
    exact inductionHypothesis shared start (kept shared start)

/-- A process comes to what is foregone amid others that keep up what it relies on. What they do
besides does not matter. -/
theorem amid (foregone : process.Foregone holds value trees) {shared : Shared}
    (start : holds shared) {others : Nat → List Access}
    (keep : ∀ moment, ∀ access ∈ others moment, ∀ shared, holds shared →
      holds (shared.grant access).2) : process.amid others shared = (value, trees) := by
  induction foregone generalizing shared others with
  | done => rfl
  | seek kept further inductionHypothesis =>
    have before := Shared.grantAll_keeps (keep 0) start
    have rest := inductionHypothesis _ before (kept _ before) fun moment => keep (moment + 1)
    simp only [Process.amid, rest]

end Process.Foregone

/-! ## Errands -/

/-- As long as something holds of what is shared, which the errand keeps up itself, its end is
foregone from every state of one kind, whether it comes to a value or ends with an error. The
state it reaches is of that kind, and the value, if there is one, is as it is said to be. -/
def Errand.Settled (holds : Shared → Prop) (keeps : σ → Prop) (answers : α → Prop)
    (errand : Errand ε σ α) : Prop :=
  ∀ state, keeps state → ∃ result reached trees,
    Process.Foregone holds (result, reached) (errand state) trees ∧ keeps reached ∧
      ∀ value, result = .ok value → answers value

namespace Errand.Settled

variable {holds : Shared → Prop} {keeps : σ → Prop} {answers : α → Prop}

/-- A value at hand is the end, whatever is shared. -/
theorem pure {value : α} (answer : answers value) :
    Errand.Settled holds keeps answers (Pure.pure value : Errand ε σ α) := by
  intro state start
  refine ⟨_, _, _, .done, start, ?_⟩
  rintro _ ⟨⟩
  exact answer

/-- An error at hand is the end, whatever is shared. Of errors nothing is asked. -/
theorem throw (error : ε) :
    Errand.Settled holds keeps answers (MonadExcept.throw error : Errand ε σ α) :=
  fun state start => ⟨_, state, _, .done, start, nofun⟩

/-- The state can be asked for, and is of the kind that is kept. -/
theorem get : Errand.Settled holds keeps keeps (MonadState.get : Errand ε σ σ) := by
  intro state start
  refine ⟨_, _, _, .done, start, ?_⟩
  rintro _ ⟨⟩
  exact start

/-- A state of the same kind can be put in place of the state. -/
theorem set {next : σ} (kept : keeps next) :
    Errand.Settled holds keeps (fun _ => True) (MonadStateOf.set next : Errand ε σ PUnit) :=
  fun _ _ => ⟨_, next, _, .done, kept, fun _ _ => trivial⟩

/-- A state can be changed to one of the same kind, as long as every state of the kind is. -/
theorem modify {change : σ → σ} (kept : ∀ state, keeps state → keeps (change state)) :
    Errand.Settled holds keeps (fun _ => True) (modify change : Errand ε σ PUnit) :=
  fun state start => ⟨_, change state, _, .done, kept state start, fun _ _ => trivial⟩

/-- An errand whose steps are settled is settled. What is known of the answer of a step may be used
in the next. -/
theorem bind {between : α → Prop} {answers : β → Prop} {errand : Errand ε σ α}
    {rest : α → Errand ε σ β} (first : Errand.Settled holds keeps between errand)
    (second : ∀ value, between value → Errand.Settled holds keeps answers (rest value)) :
    Errand.Settled holds keeps answers (errand >>= rest) := by
  intro state start
  obtain ⟨result, reached, trees, foregone, kept, answer⟩ := first state start
  cases result with
  | error error => exact ⟨_, _, _, foregone.bind .done, kept, nofun⟩
  | ok value =>
    obtain ⟨last, final, more, further, keptOn, answers⟩ :=
      second value (answer value rfl) reached kept
    exact ⟨last, final, _, foregone.bind further, keptOn, answers⟩

/-- Whether the reply to an access may differ or not, what follows it has to come to the same. That
is the only place where something shared could come in. -/
theorem ask {access : Access} {rest : access.Reply → Errand ε σ α}
    (kept : ∀ shared, holds shared → holds (shared.grant access).2)
    (further : ∀ state, keeps state → ∃ result reached trees,
      (∀ shared, holds shared →
        Process.Foregone holds (result, reached) (rest (shared.grant access).1 state) trees) ∧
      keeps reached ∧ ∀ value, result = .ok value → answers value) :
    Errand.Settled holds keeps answers (Errand.ask access >>= rest) := by
  intro state start
  obtain ⟨result, reached, trees, foregone, keptOn, answer⟩ := further state start
  exact ⟨result, reached, _, .seek kept foregone, keptOn, answer⟩

/-- To note an event is settled, if the event keeps up what is relied on. -/
theorem note {event : Event}
    (noted : ∀ shared, holds shared → holds (shared.grant (.note event)).2) :
    Errand.Settled holds keeps (fun _ => True) (Errand.ask (.note event) : Errand ε σ Unit) :=
  fun state start =>
    ⟨.ok (), state, [], .seek noted fun _ _ => .done, start, fun _ _ => trivial⟩

/-- The corpus may be looked at if what follows is the same for every corpus. The look itself
changes nothing. -/
theorem look {rest : Corpus → Errand ε σ α} (same : ∀ corpus other, rest corpus = rest other)
    (settled : ∀ corpus, Errand.Settled holds keeps answers (rest corpus)) :
    Errand.Settled holds keeps answers (Errand.ask .look >>= rest) := by
  refine Errand.Settled.ask (fun _ start => start) fun state start => ?_
  obtain ⟨result, reached, trees, foregone, kept, answer⟩ := settled {} state start
  refine ⟨result, reached, trees, fun shared _ => ?_, kept, answer⟩
  rw [same _ {}]
  exact foregone

/-- A trial is settled, as it has nothing to do with what is shared but for the events that it
has noted. -/
theorem trial (noted : ∀ (shared : Shared) event, holds shared →
    holds (shared.grant (.note event)).2) {program : Trial ε σ α}
    (ends : ∀ journal value next, program journal = .ok value next → answers value) :
    Errand.Settled holds (fun _ => True) answers (Errand.trial program) := by
  intro source _
  simp only [Errand.trial]
  have note (journal : Journal σ) := Process.Foregone.noteAll noted journal.events.toList
  cases ended : program { source } with
  | error stop journal => exact ⟨_, _, _, (note journal).bind .done, trivial, nofun⟩
  | ok value journal =>
    refine ⟨_, _, _, (note journal).bind .done, trivial, ?_⟩
    rintro _ ⟨⟩
    exact ends _ value journal ended

end Errand.Settled

/-! ## Crews -/

namespace Crew

/-- What is foregone of every member: what it comes to, and what it has yet to put into the
corpus. -/
def Foresees (holds : Shared → Prop) (crew : Crew α) (prospects : List (α × List Tree)) : Prop :=
  holds crew.shared ∧
    List.Forall₂ (fun process prospect => process.Foregone holds prospect.1 prospect.2)
      crew.members prospects

/-- What is taken from the front of one list among others comes before all that is left. In what
order the lists give it up is thereby left open. -/
theorem perm_flatten_set {lists : List (List β)} {place : Nat} {front back : List β}
    (found : lists[place]? = some (front ++ back)) :
    (front ++ (lists.set place back).flatten).Perm lists.flatten := by
  induction lists generalizing place with
  | nil => cases found
  | cons list lists inductionHypothesis =>
    cases place with
    | zero =>
      obtain rfl := Option.some.inj found
      simp only [List.set_cons_zero, List.flatten_cons, List.append_assoc]
      exact .refl _
    | succ place =>
      simp only [List.set_cons_succ, List.flatten_cons]
      have swapped : (front ++ list).Perm (list ++ front) := List.perm_append_comm
      rw [← List.append_assoc]
      apply (swapped.append_right _).trans
      rw [List.append_assoc]
      exact (inductionHypothesis found).append_left list

variable {holds : Shared → Prop} {crew : Crew α} {prospects : List (α × List Tree)}

/-- A turn brings a crew nearer to what is foregone of it. What each member comes to remains, and
so does what has been put into the corpus with what has yet to be, but for its order. -/
theorem Foresees.move (foresees : crew.Foresees holds prospects) (member : Nat) :
    ∃ next, (crew.move member).Foresees holds next ∧
      next.map Prod.fst = prospects.map Prod.fst ∧
        ((crew.move member).registered ++ (next.map Prod.snd).flatten).Perm
          (crew.registered ++ (prospects.map Prod.snd).flatten) := by
  obtain ⟨start, all⟩ := foresees
  simp only [Crew.move]
  split
  · next access further found =>
    obtain ⟨⟨value, trees⟩, placed, foregone, change⟩ := forall₂_at all found
    cases foregone with
    | @seek _ _ rest kept after =>
      refine ⟨prospects.set member (value, rest), ⟨kept _ start, ?_⟩, ?_, ?_⟩
      · exact change _ (value, rest) (after _ start)
      · obtain ⟨inside, same⟩ := List.getElem?_eq_some_iff.mp placed
        have within : member < (prospects.map Prod.fst).length := by simpa using inside
        have own : (prospects.map Prod.fst)[member] = value := by rw [List.getElem_map, same]
        rw [List.map_set, ← own, List.set_getElem_self]
      · have left : (prospects.map Prod.snd)[member]? = some (access.registered ++ rest) := by
          rw [List.getElem?_map, placed]
          rfl
        rw [List.map_set, List.append_assoc]
        exact (perm_flatten_set left).append_left _
  · exact ⟨prospects, ⟨start, all⟩, rfl, .refl _⟩

/-- Members that are done have come to what is foregone of them, and have put what they were to put
into the corpus. Nothing is left that they could still put there. -/
theorem prospects_of_done {values : List α}
    (all : List.Forall₂ (fun process prospect => process.Foregone holds prospect.1 prospect.2)
      (values.map Process.done) prospects) :
    values = prospects.map Prod.fst ∧ (prospects.map Prod.snd).flatten = [] := by
  induction values generalizing prospects with
  | nil =>
    cases all
    exact ⟨rfl, rfl⟩
  | cons value values inductionHypothesis =>
    cases all with
    | @cons _ prospect _ _ here there =>
      obtain ⟨same, nothing⟩ := inductionHypothesis there
      obtain ⟨other, trees⟩ := prospect
      cases here
      exact ⟨congrArg _ same, nothing⟩

/-- Whatever the schedule, a crew that has ended has come to what is foregone of its members, and
has put into the corpus what they were to put there, in some order. -/
theorem Foresees.ended (foresees : crew.Foresees holds prospects) {schedule : List Nat}
    {values : List α} (ended : (crew.after schedule).Ended values) :
    values = prospects.map Prod.fst ∧
      (crew.after schedule).registered.Perm
        (crew.registered ++ (prospects.map Prod.snd).flatten) := by
  induction schedule generalizing crew prospects with
  | nil =>
    obtain ⟨-, all⟩ := foresees
    rw [show crew.members = values.map .done from ended] at all
    obtain ⟨same, nothing⟩ := prospects_of_done all
    rw [nothing, List.append_nil]
    exact ⟨same, .refl _⟩
  | cons member schedule inductionHypothesis =>
    obtain ⟨next, nearer, values, registered⟩ := foresees.move member
    obtain ⟨same, together⟩ := inductionHypothesis nearer ended
    exact ⟨same.trans values, together.trans registered⟩

/-- A member can be brought to its end by turns of its own. The induction is on what it has left
to do. -/
theorem exists_done (crew : Crew α) {member : Nat} {process : Process α}
    (found : crew.members[member]? = some process) :
    ∃ schedule value, (crew.after schedule).members = crew.members.set member (.done value) := by
  induction process generalizing crew with
  | done value =>
    obtain ⟨inside, same⟩ := List.getElem?_eq_some_iff.mp found
    refine ⟨[], value, ?_⟩
    rw [← same, List.set_getElem_self]
    rfl
  | seek access next inductionHypothesis =>
    obtain ⟨inside, -⟩ := List.getElem?_eq_some_iff.mp found
    have turn : (crew.move member).members =
        crew.members.set member (next (crew.shared.grant access).1) := by
      simp only [Crew.move, found]
    have there : (crew.move member).members[member]? =
        some (next (crew.shared.grant access).1) := by
      rw [turn, List.getElem?_set_self inside]
    obtain ⟨schedule, value, done⟩ := inductionHypothesis _ (crew.move member) there
    refine ⟨member :: schedule, value, done.trans ?_⟩
    rw [turn, List.set_set]

/-- A crew can be brought to its end, whatever it has come to. Its members may be brought to theirs
one after the other. -/
theorem exists_ended (crew : Crew α) : ∃ schedule values, (crew.after schedule).Ended values := by
  suffices fromHere : ∀ (busy : List (Process α)) (values : List α) (crew : Crew α),
      crew.members = values.map .done ++ busy →
        ∃ schedule all, (crew.after schedule).Ended all from
    fromHere crew.members [] crew rfl
  intro busy
  induction busy with
  | nil =>
    intro values crew done
    exact ⟨[], values, done.trans (List.append_nil _)⟩
  | cons process busy inductionHypothesis =>
    intro values crew members
    have found : crew.members[values.length]? = some process := by
      rw [members, List.getElem?_append_right (by simp)]
      simp
    obtain ⟨first, value, done⟩ := crew.exists_done found
    have further : (crew.after first).members = (values ++ [value]).map .done ++ busy := by
      rw [done, members, List.set_append_right _ _ (by simp)]
      simp
    obtain ⟨second, all, ended⟩ := inductionHypothesis (values ++ [value]) _ further
    refine ⟨first ++ second, all, ?_⟩
    rw [Crew.after, List.foldl_append]
    exact ended

end Crew

end Graft
