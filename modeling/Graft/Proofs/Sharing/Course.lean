import Graft.Sharing.Crew
import Graft.Proofs.Corpus
import Graft.Proofs.Sharing.Avoidance
import Graft.Proofs.Sharing.Foregone

/-!
# The course of a process

The course of a process is the accesses that it has made so far, each with the
reply it got. It is spoken of for all replies at once, so whatever holds of every
course holds among others who make accesses of theirs. A course is taken apart in
step with the process: that of two processes one after the other is a course of
the first and then one of the second.

What others do only decides which replies are granted. Every member of a crew has
a course of its own at every moment, and the log of the crew holds the same deeds
in the order in which the schedule brought them about.
-/

namespace Graft

variable {ε σ α β : Type}

/-- An access that has been made, and the reply to it. -/
structure Deed where
  access : Access
  reply : access.Reply

namespace Deed

/-- What the deed has put into the corpus. -/
def registered (deed : Deed) : List Tree := deed.access.registered

/-- The file that the deed has written, with its content. -/
def written : Deed → List (String × Bytes)
  | ⟨.write path content, .ok _⟩ => [(path, content)]
  | _ => []

/-- A file is written. -/
def writing (output : String × Bytes) : Deed := ⟨.write output.1 output.2, .ok ()⟩

/-- An event is noted. -/
def noted (event : Event) : Deed := ⟨.note event, ()⟩

end Deed

/-- What deeds have put into the corpus, in the order of the deeds. -/
def registeredBy (deeds : List Deed) : List Tree := deeds.flatMap Deed.registered

/-- What deeds have written, in the order of the deeds. -/
def writtenBy (deeds : List Deed) : List (String × Bytes) := deeds.flatMap Deed.written

/-- Deeds one after the other register what they register each. -/
@[simp] theorem registeredBy_append (first second : List Deed) :
    registeredBy (first ++ second) = registeredBy first ++ registeredBy second :=
  List.flatMap_append

/-- Deeds one after the other write what they write each. -/
@[simp] theorem writtenBy_append (first second : List Deed) :
    writtenBy (first ++ second) = writtenBy first ++ writtenBy second :=
  List.flatMap_append

/-- Files that are written put nothing into the corpus, which only an access to register does. -/
@[simp] theorem registeredBy_writing (outputs : List (String × Bytes)) :
    registeredBy (outputs.map Deed.writing) = [] := by
  induction outputs with
  | nil => rfl
  | cons output outputs inductionHypothesis => exact inductionHypothesis

/-- Files that are written are what has been written. -/
@[simp] theorem writtenBy_writing (outputs : List (String × Bytes)) :
    writtenBy (outputs.map Deed.writing) = outputs := by
  induction outputs with
  | nil => rfl
  | cons output outputs inductionHypothesis => exact congrArg (output :: ·) inductionHypothesis

/-- The access changes the corpus or the files. -/
def Access.Changes : Access → Prop
  | .look | .note _ => False
  | .register _ | .write _ _ => True

/-- Deeds that change nothing register and write nothing, as these are the two ways to change what
is shared. -/
theorem nothing_of_unchanging {deeds : List Deed}
    (unchanging : ∀ deed ∈ deeds, ¬ deed.access.Changes) :
    registeredBy deeds = [] ∧ writtenBy deeds = [] := by
  constructor <;> refine List.flatMap_eq_nil_iff.mpr fun deed member => ?_
  all_goals
    have unchanged := unchanging deed member
    obtain ⟨access, reply⟩ := deed
    cases access with
    | look | note => rfl
    | register | write => exact absurd trivial unchanged

/-! ## Processes -/

/-- With the replies of the deeds the process comes to a value. -/
inductive Process.ComesTo (value : α) : Process α → List Deed → Prop where
  | done : ComesTo value (.done value) []
  | seek {access : Access} {next : access.Reply → Process α} {deeds : List Deed}
      (reply : access.Reply) (further : ComesTo value (next reply) deeds) :
      ComesTo value (.seek access next) (⟨access, reply⟩ :: deeds)

namespace Process

/-- What the process has come to, if it is done. -/
def value? : Process α → Option α
  | .done value => some value
  | .seek _ _ => none

/-- A process that is done makes no more accesses. Its value is the one it is done with. -/
theorem comesTo_done {value result : α} {deeds : List Deed} :
    (Process.done value).ComesTo result deeds ↔ deeds = [] ∧ result = value := by
  constructor
  · rintro ⟨⟩
    exact ⟨rfl, rfl⟩
  · rintro ⟨rfl, rfl⟩
    exact .done

/-- A process that seeks an access goes on with the reply, whatever that is. Courses leave open
which replies a process gets. -/
theorem comesTo_seek {access : Access} {next : access.Reply → Process α} {value : α}
    {deeds : List Deed} :
    (Process.seek access next).ComesTo value deeds ↔
      ∃ reply rest, deeds = ⟨access, reply⟩ :: rest ∧ (next reply).ComesTo value rest := by
  constructor
  · intro comes
    cases comes with
    | seek reply further => exact ⟨reply, _, rfl, further⟩
  · rintro ⟨reply, rest, rfl, further⟩
    exact .seek reply further

/-- The course of two processes one after the other is a course of the first, which has come to
some value, and then one of the second. -/
theorem comesTo_bind {process : Process α} {rest : α → Process β} {deeds : List Deed}
    {result : β} :
    (process.bind rest).ComesTo result deeds ↔
      ∃ value first second, process.ComesTo value first ∧ (rest value).ComesTo result second ∧
        deeds = first ++ second := by
  constructor
  · intro comes
    induction process generalizing deeds with
    | done value => exact ⟨value, [], deeds, .done, comes, rfl⟩
    | seek access next inductionHypothesis =>
      obtain ⟨reply, more, rfl, further⟩ := comesTo_seek.mp comes
      obtain ⟨value, first, second, before, after, rfl⟩ := inductionHypothesis reply further
      exact ⟨value, _ :: first, second, .seek reply before, after, rfl⟩
  · rintro ⟨value, first, second, before, after, rfl⟩
    induction process generalizing first with
    | done other =>
      obtain ⟨rfl, rfl⟩ := comesTo_done.mp before
      exact after
    | seek access next inductionHypothesis =>
      obtain ⟨reply, more, rfl, further⟩ := comesTo_seek.mp before
      exact .seek reply (inductionHypothesis reply more further)

/-- Of three processes one after the other the first two may be taken together. The induction is on
the first. -/
theorem bind_assoc {γ : Type} (process : Process α) (second : α → Process β)
    (third : β → Process γ) :
    (process.bind second).bind third = process.bind fun value => (second value).bind third := by
  induction process with
  | done value => rfl
  | seek access next inductionHypothesis =>
    exact congrArg (Process.seek access) (funext inductionHypothesis)

/-- To note events is to make these deeds, and no others. The reply to a note tells nothing, so that
the course is the only one. -/
theorem comesTo_noteAll {events : List Event} {deeds : List Deed} :
    (noteAll events).ComesTo () deeds ↔ deeds = events.map Deed.noted := by
  induction events generalizing deeds with
  | nil => simp only [noteAll, comesTo_done, and_true, List.map_nil]
  | cons event events inductionHypothesis =>
    simp only [noteAll, comesTo_seek, inductionHypothesis, List.map_cons]
    constructor
    · rintro ⟨reply, rest, rfl, rfl⟩
      rfl
    · rintro rfl
      exact ⟨(), _, rfl, rfl⟩

/-- Events that are noted before a process is done are its deeds. This is how a trial ends among
others. -/
theorem comesTo_noteAll_done {events : List Event} {value result : α} {deeds : List Deed} :
    ((noteAll events).bind fun _ => .done value).ComesTo result deeds ↔
      deeds = events.map Deed.noted ∧ result = value := by
  rw [comesTo_bind]
  constructor
  · rintro ⟨⟨⟩, first, second, noted, after, rfl⟩
    obtain ⟨rfl, same⟩ := comesTo_done.mp after
    exact ⟨(List.append_nil _).trans (comesTo_noteAll.mp noted), same⟩
  · rintro ⟨noted, rfl⟩
    exact ⟨(), deeds, [], comesTo_noteAll.mpr noted, .done, (List.append_nil _).symm⟩

/-- What a process avoids is not among its deeds, whatever replies it has got. -/
theorem Avoids.of_comesTo {forbidden : Access → Prop} {process : Process α} {value : α}
    {deeds : List Deed} (avoids : process.Avoids forbidden) (comes : process.ComesTo value deeds) :
    ∀ deed ∈ deeds, ¬ forbidden deed.access := by
  induction comes with
  | done => exact List.forall_mem_nil _
  | seek reply further inductionHypothesis =>
    exact List.forall_mem_cons.mpr ⟨avoids.1, inductionHypothesis (avoids.2 reply)⟩

end Process

/-! ## Errands -/

/-- From a state, and with the replies of the deeds, the errand ends with a result in another
state. -/
def Errand.Comes (errand : Errand ε σ α) (state : σ) (deeds : List Deed) (result : Except ε α)
    (reached : σ) : Prop :=
  Process.ComesTo (result, reached) (errand state) deeds

namespace Errand

variable {state reached : σ} {deeds : List Deed} {result : Except ε α}

/-- A value at hand takes no deeds, and leaves the state as it is. -/
theorem comes_pure {value : α} :
    Comes (pure value : Errand ε σ α) state deeds result reached ↔
      deeds = [] ∧ result = .ok value ∧ reached = state := by
  refine Process.comesTo_done.trans ?_
  rw [Prod.mk.injEq]

/-- An error at hand takes no deeds, and leaves the state as it is. What would have followed it is
not reached. -/
theorem comes_throw {error : ε} :
    Comes (throw error : Errand ε σ α) state deeds result reached ↔
      deeds = [] ∧ result = .error error ∧ reached = state := by
  refine Process.comesTo_done.trans ?_
  rw [Prod.mk.injEq]

/-- The state is changed without deeds, since it is the errand's own. -/
theorem comes_modify {change : σ → σ} {result : Except ε PUnit} :
    Comes (modify change : Errand ε σ PUnit) state deeds result reached ↔
      deeds = [] ∧ result = .ok () ∧ reached = change state := by
  refine Process.comesTo_done.trans ?_
  rw [Prod.mk.injEq]

/-- An access is a deed with some reply. Which one it is depends on what is shared, of which a
course knows nothing. -/
theorem comes_ask {access : Access} {result : Except ε access.Reply} :
    Comes (ask access : Errand ε σ access.Reply) state deeds result reached ↔
      ∃ reply, deeds = [⟨access, reply⟩] ∧ result = .ok reply ∧ reached = state := by
  refine Process.comesTo_seek.trans ?_
  constructor
  · rintro ⟨reply, rest, rfl, further⟩
    obtain ⟨rfl, same⟩ := Process.comesTo_done.mp further
    obtain ⟨rfl, rfl⟩ := Prod.mk.inj same
    exact ⟨reply, rfl, rfl, rfl⟩
  · rintro ⟨reply, rfl, rfl, rfl⟩
    exact ⟨reply, [], rfl, .done⟩

/-- The course of two errands one after the other is one of the first, and if that has come to a
value, then one of the second. -/
theorem comes_bind {errand : Errand ε σ β} {rest : β → Errand ε σ α} :
    Comes (errand >>= rest) state deeds result reached ↔
      (∃ error, errand.Comes state deeds (.error error) reached ∧ result = .error error) ∨
        ∃ value between first second, errand.Comes state first (.ok value) between ∧
          (rest value).Comes between second result reached ∧ deeds = first ++ second := by
  refine Process.comesTo_bind.trans ?_
  constructor
  · rintro ⟨⟨ended, between⟩, first, second, before, after, rfl⟩
    cases ended with
    | error error =>
      obtain ⟨rfl, same⟩ := Process.comesTo_done.mp after
      obtain ⟨rfl, rfl⟩ := Prod.mk.inj same
      rw [List.append_nil]
      exact .inl ⟨error, before, rfl⟩
    | ok value => exact .inr ⟨value, between, first, second, before, after, rfl⟩
  · rintro (⟨error, before, rfl⟩ | ⟨value, between, first, second, before, after, rfl⟩)
    · exact ⟨(.error error, reached), deeds, [], before, .done, (List.append_nil _).symm⟩
    · exact ⟨(.ok value, between), first, second, before, after, rfl⟩

/-- Of three errands one after the other the first two may be taken together, as with processes. -/
theorem bind_assoc {γ : Type} (errand : Errand ε σ α) (second : α → Errand ε σ β)
    (third : β → Errand ε σ γ) :
    errand >>= second >>= third = errand >>= fun value => second value >>= third := by
  funext state
  refine (Process.bind_assoc (errand state) _ _).trans ?_
  refine congrArg (Process.bind (errand state)) (funext fun outcome => ?_)
  obtain ⟨result, between⟩ := outcome
  cases result with
  | ok value => rfl
  | error error => rfl

/-- An errand that comes to a value does so by way of values. Of the two cases of a course only this
one is left. -/
theorem comes_bind_ok {errand : Errand ε σ β} {rest : β → Errand ε σ α} {answer : α} :
    Comes (errand >>= rest) state deeds (.ok answer) reached ↔
      ∃ value between first second, errand.Comes state first (.ok value) between ∧
        (rest value).Comes between second (.ok answer) reached ∧ deeds = first ++ second := by
  rw [comes_bind]
  constructor
  · rintro (⟨error, -, ended⟩ | comes)
    · cases ended
    · exact comes
  · exact .inr

/-- What follows a look at the state goes on from there, and the look is no deed. -/
theorem comes_get_bind {rest : σ → Errand ε σ α} :
    Comes (get >>= rest) state deeds result reached ↔
      (rest state).Comes state deeds result reached :=
  Iff.rfl

/-- What follows a new state goes on from it, and to set it is no deed. -/
theorem comes_set_bind {next : σ} {rest : PUnit → Errand ε σ α} :
    Comes (set next >>= rest) state deeds result reached ↔
      (rest ()).Comes next deeds result reached :=
  Iff.rfl

/-- What follows a change of the state goes on from the new one, and the change is no deed. -/
theorem comes_modify_bind {change : σ → σ} {rest : PUnit → Errand ε σ α} :
    Comes (modify change >>= rest) state deeds result reached ↔
      (rest ()).Comes (change state) deeds result reached :=
  Iff.rfl

/-- A trial ends as it does by itself, and then notes its events. Nothing comes in between while it
runs. -/
theorem comes_trial {program : Trial ε σ α} {result : Except (Stop ε) α} :
    Comes (trial program) state deeds result reached ↔
      match program { source := state } with
      | .ok value journal => deeds = journal.events.toList.map Deed.noted ∧
          result = .ok value ∧ reached = journal.source
      | .error stop journal => deeds = journal.events.toList.map Deed.noted ∧
          result = .error stop ∧ reached = journal.source := by
  simp only [Comes, trial]
  cases program { source := state } with
  | ok value journal => exact Process.comesTo_noteAll_done.trans (by rw [Prod.mk.injEq])
  | error stop journal => exact Process.comesTo_noteAll_done.trans (by rw [Prod.mk.injEq])

end Errand

/-! ## What is granted -/

/-- The replies of the deeds are those that are granted, one after the other, and what is shared
is then this. -/
inductive Shared.Grants : Shared → List Deed → Shared → Prop where
  | nothing (shared : Shared) : Grants shared [] shared
  | deed {shared final : Shared} {deeds : List Deed} (access : Access)
      (further : Grants (shared.grant access).2 deeds final) :
      Grants shared (⟨access, (shared.grant access).1⟩ :: deeds) final

/-- A process alone has the course that is granted to it: its replies are those that what is shared
gives, access by access. -/
theorem Process.alone_comes (process : Process α) (shared : Shared) :
    ∃ deeds, process.ComesTo (process.alone shared).1 deeds ∧
      shared.Grants deeds (process.alone shared).2 := by
  induction process generalizing shared with
  | done value => exact ⟨[], .done, .nothing _⟩
  | seek access next inductionHypothesis =>
    obtain ⟨deeds, comes, granted⟩ := inductionHypothesis _ (shared.grant access).2
    exact ⟨_, .seek _ comes, .deed access granted⟩

/-- An access leaves in the corpus only what it has held and what the access puts there. Trees that
have to make way are not missed here. -/
theorem Shared.mem_of_mem_grant {shared : Shared} {access : Access} {tree : Tree}
    (member : tree ∈ (shared.grant access).2.corpus.trees) :
    tree ∈ shared.corpus.trees ∨ tree ∈ access.registered := by
  cases access with
  | look | note => exact .inl member
  | register new =>
    exact (Corpus.mem_of_mem_register member).imp_right fun same => List.mem_singleton.mpr same
  | write path content =>
    simp only [grant] at member
    split at member <;> exact .inl member

/-- Accesses leave in the corpus only what it has held and what they have put there. The induction
is on the accesses. -/
theorem Shared.mem_of_mem_grantAll {shared : Shared} {accesses : List Access} {tree : Tree}
    (member : tree ∈ (shared.grantAll accesses).corpus.trees) :
    tree ∈ shared.corpus.trees ∨ ∃ access ∈ accesses, tree ∈ access.registered := by
  induction accesses generalizing shared with
  | nil => exact .inl member
  | cons access accesses inductionHypothesis =>
    rcases @inductionHypothesis (shared.grant access).2 member with held | added
    · rcases Shared.mem_of_mem_grant held with old | new
      · exact .inl old
      · exact .inr ⟨access, List.mem_cons_self, new⟩
    · obtain ⟨other, among, new⟩ := added
      exact .inr ⟨other, List.mem_cons_of_mem _ among, new⟩

/-- A process amid others has a course, too. Where it looks at the corpus, it finds only what was
there at the start, what the others have put there and what it has put there itself. -/
theorem Process.amid_comes (process : Process α) (others : Nat → List Access) (shared : Shared) :
    ∃ deeds, process.ComesTo (process.amid others shared).1 deeds ∧
      ∀ corpus, ⟨.look, corpus⟩ ∈ deeds → ∀ tree ∈ corpus.trees, tree ∈ shared.corpus.trees ∨
        (∃ moment, ∃ access ∈ others moment, tree ∈ access.registered) ∨
          tree ∈ registeredBy deeds := by
  induction process generalizing others shared with
  | done value => exact ⟨[], .done, fun corpus member => nomatch member⟩
  | seek access next inductionHypothesis =>
    let before := shared.grantAll (others 0)
    obtain ⟨deeds, comes, looks⟩ := inductionHypothesis (before.grant access).1
      (fun moment => others (moment + 1)) (before.grant access).2
    refine ⟨⟨access, (before.grant access).1⟩ :: deeds, .seek _ comes, ?_⟩
    intro corpus member tree held
    have found (present : tree ∈ before.corpus.trees) : tree ∈ shared.corpus.trees ∨
        (∃ moment, ∃ access ∈ others moment, tree ∈ access.registered) ∨
          tree ∈ registeredBy (⟨access, (before.grant access).1⟩ :: deeds) :=
      (Shared.mem_of_mem_grantAll present).imp_right fun added => .inl ⟨0, added⟩
    rcases List.mem_cons.mp member with same | later
    · cases access with
      | look =>
        obtain rfl : corpus = before.corpus := by
          injection same
        exact found held
      | register | write | note => cases same
    · rcases looks corpus later tree held with old | ⟨moment, added⟩ | own
      · rcases Shared.mem_of_mem_grant old with present | new
        · exact found present
        · exact .inr (.inr (List.mem_append_left _ new))
      · exact .inr (.inl ⟨moment + 1, added⟩)
      · exact .inr (.inr (List.mem_append_right _ own))

/-- A process amid nobody comes to what it comes to alone. There is nothing in between its
accesses. -/
theorem Process.amid_nobody (process : Process α) (shared : Shared) :
    (process.amid (fun _ => []) shared).1 = (process.alone shared).1 := by
  induction process generalizing shared with
  | done value => rfl
  | seek access next inductionHypothesis => exact inductionHypothesis _ (shared.grant access).2

/-! ## Crews -/

namespace Crew

/-- To put what is there in its place changes nothing. A member that is done is left in this way. -/
theorem set_of_found {list : List β} {place : Nat} {value : β}
    (found : list[place]? = some value) : list.set place value = list := by
  obtain ⟨inside, rfl⟩ := List.getElem?_eq_some_iff.mp found
  exact List.set_getElem_self inside

/-- A crew has ended if all its members are seen to be done. They can be looked at one by one, and
so a certain schedule is known to have run to the end. -/
theorem exists_ended_of_all {crew : Crew α} {good : α → Bool}
    (all : crew.members.all (fun member => member.value?.any good) = true) :
    ∃ values, crew.Ended values ∧ ∀ value ∈ values, good value = true := by
  obtain ⟨shared, members, registered⟩ := crew
  simp only [Ended] at all ⊢
  induction members with
  | nil => exact ⟨[], rfl, List.forall_mem_nil _⟩
  | cons member members inductionHypothesis =>
    rw [List.all_cons, Bool.and_eq_true] at all
    obtain ⟨values, rfl, others⟩ := inductionHypothesis all.2
    cases member with
    | seek access next => cases all.1
    | done value => exact ⟨value :: values, rfl, List.forall_mem_cons.mpr ⟨all.1, others⟩⟩

/-- A turn is one access of a member, or changes nothing. All that turns keep is shown for that one
access. -/
theorem move_cases (crew : Crew α) (turn : Nat) :
    crew.move turn = crew ∨ ∃ access next, crew.members[turn]? = some (.seek access next) ∧
      crew.move turn =
        { shared := (crew.shared.grant access).2
          members := crew.members.set turn (next (crew.shared.grant access).1)
          registered := crew.registered ++ access.registered } := by
  simp only [move]
  split
  · next access next found => exact .inr ⟨access, next, found, rfl⟩
  · exact .inl rfl

/-- Every member of a crew that has ended has come to its value by a course of its own, and the
courses together are what has been granted, in the order that the schedule gave it. The first
turn comes first in the course of the member whose turn it was. -/
theorem ended_comes {crew : Crew α} {schedule : List Nat} {values : List α}
    (ended : (crew.after schedule).Ended values) :
    ∃ (courses : List (List Deed × α)) (log : List Deed),
      List.Forall₂ (fun process course => process.ComesTo course.2 course.1) crew.members courses ∧
        courses.map Prod.snd = values ∧ (courses.map Prod.fst).flatten.Perm log ∧
          crew.shared.Grants log (crew.after schedule).shared ∧
            (crew.after schedule).registered = crew.registered ++ registeredBy log := by
  induction schedule generalizing crew with
  | nil =>
    refine ⟨values.map fun value => ([], value), [], ?_, ?_, ?_, .nothing _, ?_⟩
    · rw [show crew.members = values.map .done from ended, List.forall₂_map_left_iff,
        List.forall₂_map_right_iff, List.forall₂_same]
      exact fun value _ => .done
    · rw [List.map_map]
      exact List.map_id' values
    · rw [List.map_map, List.flatten_eq_nil_iff.mpr]
      intro course member
      obtain ⟨value, -, rfl⟩ := List.mem_map.mp member
      rfl
    · exact (List.append_nil _).symm
  | cons turn schedule inductionHypothesis =>
    obtain ⟨courses, log, each, values, together, granted, registered⟩ :=
      @inductionHypothesis (crew.move turn) ended
    change ∃ courses log, _ ∧ _ ∧ _ ∧
      crew.shared.Grants log ((crew.move turn).after schedule).shared ∧
        ((crew.move turn).after schedule).registered = _
    rcases crew.move_cases turn with same | ⟨access, next, found, moved⟩
    · rw [same] at each granted registered ⊢
      exact ⟨courses, log, each, values, together, granted, registered⟩
    rw [moved] at each granted registered ⊢
    obtain ⟨inside, -⟩ := List.getElem?_eq_some_iff.mp found
    have placed : (crew.members.set turn (next (crew.shared.grant access).1))[turn]? =
        some (next (crew.shared.grant access).1) := List.getElem?_set_self inside
    obtain ⟨⟨course, value⟩, listed, comes, change⟩ := forall₂_at each placed
    let deed : Deed := ⟨access, (crew.shared.grant access).1⟩
    refine ⟨courses.set turn (deed :: course, value), deed :: log, ?_, ?_, ?_,
      .deed access granted, ?_⟩
    · have all := change (.seek access next) (deed :: course, value) (.seek _ comes)
      rw [List.set_set, set_of_found found] at all
      exact all
    · have kept : (courses.map Prod.snd)[turn]? = some value := by
        rw [List.getElem?_map, listed]
        rfl
      rw [List.map_set, set_of_found kept]
      exact values
    · have shorter : (courses.map Prod.fst)[turn]? = some course := by
        rw [List.getElem?_map, listed]
        rfl
      have within := (List.getElem?_eq_some_iff.mp shorter).1
      have first : ((courses.map Prod.fst).set turn (deed :: course))[turn]? =
          some ([deed] ++ course) := List.getElem?_set_self within
      have parts := perm_flatten_set first
      rw [List.set_set, set_of_found shorter] at parts
      rw [List.map_set]
      exact parts.symm.trans (together.cons deed)
    · rw [registered, List.append_assoc]
      rfl

end Crew

end Graft
