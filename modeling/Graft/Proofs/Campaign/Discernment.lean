import Graft.Proofs.Campaign.Books
import Graft.Proofs.Campaign.Statements
import Graft.Proofs.Grammar.Foresight
import Graft.Proofs.Mutation.Conformance
import Graft.Proofs.Sample.Wrapping
import Graft.Proofs.Sharing.Upholding

/-!
# Workers that discern what they make

A worker keeps a sample if the digest of its rendering has not been seen. Two trees of
one rendering are one tree if the grammar is not ambiguous, so a new tree is passed
over only for a collision of digests. That holds after every step, whoever works
beside the worker: all trees in the corpus conform, since nobody puts others there as
long as there are none.

The grammar of the statement language is not ambiguous, for an outlook guides through
it.
-/

namespace Graft

/-- The renderings of a grammar tell its trees apart, and an allocation can hold its names and
literals. -/
structure Grammar.Legible (grammar : Grammar) : Prop where
  wellFormed : grammar.WellFormed
  spellable : grammar.Spellable
  unambiguous : grammar.Unambiguous

/-- The tree conforms to the grammar of the engine, with the root symbol at its root. -/
def Tree.ProgramOf (engine : Engine) (tree : Tree) : Prop :=
  tree.Conforms engine.grammar ∧ tree.symbol? = some engine.root

namespace Campaign

open Graft.Random

namespace Worker

variable {σ : Type} {worker next : Worker σ} {deeds before : List Deed}

/-- The worker keeps the tree, or it keeps one of another rendering that has the same digest. -/
def Knows (worker : Worker σ) (tree : Tree) : Prop :=
  tree ∈ worker.contexts ∨
    ∃ other ∈ worker.contexts, digestOf other = digestOf tree ∧ other.render ≠ tree.render

/-- The worker has made nothing but samples of programs that it knows. -/
structure Discerns (worker : Worker σ) : Prop where
  rooted : worker.mutator.engine.grammar.Owns worker.mutator.engine.root
  kept : ∀ tree ∈ worker.contexts, tree.ProgramOf worker.mutator.engine
  made : ∀ sample ∈ worker.made, ∃ tree : Tree, sample = tree.toSample ∧
    tree.ProgramOf worker.mutator.engine ∧ worker.Knows tree

/-- A worker that has not done anything discerns what it has made, which is nothing so far. -/
theorem Fresh.discerns (fresh : worker.Fresh)
    (rooted : worker.mutator.engine.grammar.Owns worker.mutator.engine.root) : worker.Discerns where
  rooted
  kept := by
    rw [fresh.contexts]
    exact fun tree member => absurd member (Array.not_mem_empty tree)
  made := by
    rw [fresh.made]
    exact List.forall_mem_nil _

/-- A worker discerns what it has made also with another source and another tally. Neither tells
anything of programs. -/
theorem Discerns.pass (discerns : worker.Discerns) (contexts : next.contexts = worker.contexts)
    (made : next.made = worker.made) (engine : next.mutator.engine = worker.mutator.engine) :
    next.Discerns := by
  obtain ⟨rooted, kept, known⟩ := discerns
  constructor
  · rw [engine]
    exact rooted
  · rw [contexts, engine]
    exact kept
  · rw [made, engine]
    simpa only [Knows, contexts] using known

/-- To keep a sample is to read it and to keep its tree, unless the digest has been seen. No other
tree enters the corpus. The two ways of keeping a sample come together here. -/
theorem Keeps.told {sample : Bytes} (keeps : worker.Keeps sample next deeds) :
    ∃ tree, worker.mutator.engine.grammar.readSample sample = .ok tree ∧
      (∀ other ∈ registeredBy deeds, other = tree) ∧ next.made = sample :: worker.made ∧
        (digestOf tree ∈ worker.novelty.seen ∧ next.contexts = worker.contexts ∨
          next.contexts = worker.contexts.push tree) := by
  cases keeps with
  | known tree read seen => exact ⟨tree, read, List.forall_mem_nil _, rfl, .inl ⟨seen, rfl⟩⟩
  | novel tree size read unseen =>
    refine ⟨tree, read, fun other member => ?_, rfl, .inr rfl⟩
    rw [registeredBy_append, registeredBy_writing] at member
    exact List.mem_singleton.mp member

/-- A program whose digest has been seen is known: the tree whose rendering had that digest is the
same, unless its rendering is another one. -/
theorem Discerns.knows (discerns : worker.Discerns) (books : worker.Books before)
    (legible : worker.mutator.engine.grammar.Legible) {tree : Tree}
    (program : tree.ProgramOf worker.mutator.engine)
    (seen : digestOf tree ∈ worker.novelty.seen) : worker.Knows tree := by
  obtain ⟨other, member, sameDigest⟩ := List.mem_map.mp (books.seen.mem_iff.mp seen)
  replace member := Array.mem_toList_iff.mp member
  by_cases same : other.render = tree.render
  · obtain ⟨conforms, rooted⟩ := discerns.kept other member
    obtain rfl : other = tree :=
      legible.unambiguous other tree conforms program.1 (rooted.trans program.2.symm) same
    exact .inl member
  · exact .inr ⟨other, member, sameDigest, same⟩

/-- A worker discerns the sample of a program when it keeps it or passes it over. No tree but that
of the program enters the corpus. Reading gives back the tree that was written, as the grammar is
well formed. -/
theorem Discerns.keep (discerns : worker.Discerns) (books : worker.Books before)
    (legible : worker.mutator.engine.grammar.Legible) {tree : Tree}
    (program : tree.ProgramOf worker.mutator.engine)
    (keeps : worker.Keeps tree.toSample next deeds) :
    Upholds (Tree.Conforms worker.mutator.engine.grammar) deeds ∧ next.Discerns := by
  obtain ⟨read, reads, registered, made, told⟩ := keeps.told
  obtain rfl : read = tree := program.1.eq_of_read legible.wellFormed legible.spellable
    (program.2 ▸ Option.some_ne_none _) reads
  refine ⟨upholds_of_registered fun other member => registered other member ▸ program.1, ?_⟩
  have engine : next.mutator.engine = worker.mutator.engine :=
    congrArg Mutator.engine keeps.steady.2.2
  have growing : ∀ other ∈ worker.contexts, other ∈ next.contexts := by
    obtain ⟨-, same⟩ | pushed := told
    · exact same ▸ fun other member => member
    · exact pushed ▸ fun other member => Array.mem_push_of_mem _ member
  have knows {other : Tree} (known : worker.Knows other) : next.Knows other :=
    known.imp (growing other) fun ⟨twin, member, apart⟩ => ⟨twin, growing twin member, apart⟩
  refine ⟨engine ▸ discerns.rooted, ?kept, ?made⟩
  case kept =>
    rw [engine]
    obtain ⟨-, same⟩ | pushed := told
    · exact same ▸ discerns.kept
    · intro other member
      rw [pushed] at member
      rcases Array.mem_push.mp member with old | rfl
      · exact discerns.kept other old
      · exact program
  case made =>
    rw [made, engine]
    refine List.forall_mem_cons.mpr ⟨⟨read, rfl, program, ?_⟩, fun sample member => ?_⟩
    · obtain ⟨seen, -⟩ | pushed := told
      · exact knows (discerns.knows books legible program seen)
      · exact .inl (pushed ▸ Array.mem_push_self)
    · obtain ⟨other, written, otherProgram, known⟩ := discerns.made sample member
      exact ⟨other, written, otherProgram, knows known⟩

/-- A request that has found only conforming trees is answered with the sample of a program: one
that has grown, or that edits have led to from a tree that the worker keeps. -/
theorem Discerns.answered (discerns : worker.Discerns)
    (wellFormed : worker.mutator.engine.grammar.WellFormed) {place : Nat} {context : Tree}
    (placed : worker.contexts[place]? = some context) {corpus : Nat → Corpus}
    (found : Mutator.Found corpus deeds)
    (finds : ∀ deed ∈ deeds, deed.Finds (Tree.Conforms worker.mutator.engine.grammar))
    {answer : Mutator × Bytes}
    (served : (worker.mutator.initRound context).Served corpus context answer) :
    ∃ tree : Tree, answer.2 = tree.toSample ∧ tree.ProgramOf worker.mutator.engine := by
  obtain ⟨-, -, tree, written, grown | reaches⟩ := served.answers rfl
  · exact ⟨tree, written, grown.conforms wellFormed discerns.rooted⟩
  · obtain ⟨conforms, rooted⟩ := discerns.kept context (Array.mem_of_getElem? placed)
    refine ⟨tree, written, (reaches.conforms wellFormed (fun moment => ?_) conforms).imp_right
      (·.trans rooted)⟩
    rcases found moment with empty | looked
    · rw [empty]
      exact fun other member => absurd member (Array.not_mem_empty other)
    · exact finds _ looked

variable [Source σ]

/-- A step puts only conforming trees into the corpus, as long as no others are found there, and the
worker discerns what it has made after it. -/
theorem Discerns.step (discerns : worker.Discerns) (books : worker.Books before)
    (legible : worker.mutator.engine.grammar.Legible) {step : Step}
    (comes : Errand.Comes (step.work : Work σ Unit) worker deeds (.ok ()) next) :
    Upholds (Tree.Conforms worker.mutator.engine.grammar) deeds ∧
      ((∀ deed ∈ deeds, deed.Finds (Tree.Conforms worker.mutator.engine.grammar)) →
        next.Discerns) := by
  cases step with
  | generate =>
    cases takes_of_comes comes with
    | generated source tree unchanging grown keeps =>
      have drawn : Discerns { worker with source } := discerns.pass rfl rfl rfl
      obtain ⟨upholds, discerned⟩ := drawn.keep
        (books.pass rfl rfl rfl rfl rfl unchanging) legible
        (grown.conforms legible.wellFormed discerns.rooted) keeps
      exact ⟨upholds_append.mpr ⟨upholds_of_unchanging unchanging, fun _ => upholds⟩,
        fun _ => discerned⟩
  | announce =>
    cases takes_of_comes comes with
    | announced unchanging => exact ⟨upholds_of_unchanging unchanging, fun _ => discerns⟩
  | request iteration =>
    obtain ⟨place, context, corpus, source, answer, earlier, kept, later, rfl, placed, unchanging,
      found, served, keeps⟩ := requested_of_comes comes
    obtain ⟨unchangingEarlier, unchangingLater⟩ := List.forall_mem_append.mp unchanging
    have engine : answer.1.engine = worker.mutator.engine := (served.answers rfl).1
    have answers : Discerns { worker with source, mutator := answer.1 } :=
      discerns.pass rfl rfl engine
    -- What is kept is known only once it is known what has been found.
    have kept (finds : ∀ deed ∈ earlier,
        deed.Finds (Tree.Conforms worker.mutator.engine.grammar)) :
        Upholds (Tree.Conforms worker.mutator.engine.grammar) kept ∧ next.Discerns := by
      obtain ⟨tree, written, program⟩ :=
        discerns.answered legible.wellFormed placed found finds served
      rw [← engine] at legible program ⊢
      exact answers.keep (books.pass rfl rfl rfl rfl engine unchangingEarlier) legible program
        (written ▸ keeps)
    refine ⟨?_, fun finds => (kept fun deed member => finds deed (by simp [member])).2⟩
    rw [List.append_assoc]
    refine upholds_append.mpr ⟨upholds_of_unchanging unchangingEarlier, fun finds => ?_⟩
    exact upholds_append.mpr ⟨(kept finds).1, fun _ => upholds_of_unchanging unchangingLater⟩

/-- Steps do so one after the other. The induction is on the steps, of which each relies on good
finds of those before. -/
theorem Discerns.perform (discerns : worker.Discerns) (books : worker.Books before)
    (legible : worker.mutator.engine.grammar.Legible) {steps : List Step}
    (comes : Errand.Comes (perform steps : Work σ Unit) worker deeds (.ok ()) next) :
    Upholds (Tree.Conforms worker.mutator.engine.grammar) deeds ∧
      ((∀ deed ∈ deeds, deed.Finds (Tree.Conforms worker.mutator.engine.grammar)) →
        next.Discerns) := by
  induction steps generalizing worker deeds before with
  | nil =>
    obtain ⟨rfl, -, rfl⟩ := Errand.comes_pure.mp comes
    exact ⟨trivial, fun _ => discerns⟩
  | cons step steps inductionHypothesis =>
    obtain ⟨_, taken, first, second, taking, further, rfl⟩ := Errand.comes_bind_ok.mp comes
    have takes := takes_of_comes taking
    have engine := takes.steady.2.2
    obtain ⟨upholds, discerned⟩ := discerns.step books legible taking
    have rest (finds : ∀ deed ∈ first,
        deed.Finds (Tree.Conforms worker.mutator.engine.grammar)) :=
      inductionHypothesis (discerned finds) (books.step takes) (engine ▸ legible) further
    rw [engine] at rest
    refine ⟨upholds_append.mpr ⟨upholds, fun finds => (rest finds).1⟩, fun finds => ?_⟩
    obtain ⟨firstFinds, secondFinds⟩ := List.forall_mem_append.mp finds
    exact (rest firstFinds).2 secondFinds

/-- Whatever a worker comes to, it puts only conforming trees into the corpus, as long as it finds
no others there. A step in which it stops puts nothing there. -/
theorem upholds_of_run (fresh : worker.Fresh)
    (legible : worker.mutator.engine.grammar.Legible)
    (rooted : worker.mutator.engine.grammar.Owns worker.mutator.engine.root)
    {result : Except (Stop WorkerError) Report}
    (comes : Errand.Comes (run : Work σ Report) worker deeds result next) :
    Upholds (Tree.Conforms worker.mutator.engine.grammar) deeds := by
  have discerns := fresh.discerns rooted
  obtain ⟨ended, steps, -⟩ := comes_run comes
  cases ended with
  | ok value => exact (discerns.perform fresh.books legible steps).1
  | error stop =>
    obtain ⟨front, step, back, -, between, first, second, performed, halting, rfl⟩ :=
      comes_perform_error steps
    refine upholds_append.mpr ⟨(discerns.perform fresh.books legible performed).1, fun _ => ?_⟩
    exact upholds_of_registered ((halts_of_comes halting).registers_nothing ▸
      List.forall_mem_nil _)

end Worker

/-! ## Workers side by side -/

/-- The worker at its start, once it has a mutator. -/
def Launch.worker (launch : Launch) (mutator : Mutator) : Worker ChaCha where
  number := launch.number
  plan := launch.configuration.plan
  mutator
  source := ChaCha.ofSeed (Worker.seedOf launch.configuration.plan launch.number)

/-- After every step of its plan that it has got through, a worker that was launched has discerned
what it had made. If there is no mutator for it, it takes no steps. -/
def Launch.Discerns (launch : Launch) (ending : Ending ChaCha) : Prop :=
  ∀ mutator,
    Mutator.create launch.grammar launch.configuration.settings launch.patience = .ok mutator →
      ∃ deeds final,
        Errand.Comes (Worker.run : Work ChaCha Report) (launch.worker mutator) deeds
          ending.result final ∧ ending.made = final.made ∧
            ∀ front back first second between, launch.configuration.plan.steps = front ++ back →
              deeds = first ++ second →
                Errand.Comes (Worker.perform front : Work ChaCha Unit) (launch.worker mutator) first
                  (.ok ()) between → between.Discerns

namespace Launch

variable {launch : Launch}

/-- The root symbol of a mutator is one of the grammar's, and the worker has not done anything. A
mutator could not have been made without the symbol. -/
theorem starts (wellFormed : launch.grammar.WellFormed) {mutator : Mutator}
    (made : Mutator.create launch.grammar launch.configuration.settings launch.patience =
      .ok mutator) :
    (launch.worker mutator).Fresh ∧ mutator.engine.grammar = launch.grammar ∧
      launch.grammar.Owns mutator.engine.root := by
  obtain ⟨root, named, rfl⟩ := Mutator.create_eq_ok_iff.mp made
  exact ⟨⟨rfl, rfl, rfl, rfl, rfl⟩, rfl, wellFormed.owns_of_symbol? named⟩

/-- A worker that is launched puts only conforming trees into the corpus, as long as it finds no
others there. One whose mutator cannot be made puts nothing there. -/
theorem upholds (legible : launch.grammar.Legible) :
    launch.process.Upholds (Tree.Conforms launch.grammar) := by
  intro ending deeds comes
  cases made : Mutator.create launch.grammar launch.configuration.settings launch.patience with
  | error error =>
    unfold process workerProcess at comes
    rw [made] at comes
    obtain ⟨rfl, -⟩ := Process.comesTo_done.mp comes
    trivial
  | ok mutator =>
    obtain ⟨final, runs, -⟩ := comes_of_workerProcess made comes
    obtain ⟨fresh, grammar, rooted⟩ := starts legible.wellFormed made
    rw [← grammar] at legible rooted ⊢
    exact Worker.upholds_of_run fresh legible rooted runs

/-- A worker that has found only conforming trees discerns what it has made, whether it comes to a
report or stops. -/
theorem discerns_of_comes (legible : launch.grammar.Legible) {ending : Ending ChaCha}
    {deeds : List Deed} (comes : launch.process.ComesTo ending deeds)
    (finds : ∀ deed ∈ deeds, deed.Finds (Tree.Conforms launch.grammar)) :
    launch.Discerns ending := by
  intro mutator made
  obtain ⟨final, runs, same⟩ := comes_of_workerProcess made comes
  refine ⟨deeds, final, runs, same, ?_⟩
  rintro front back first second between - rfl performed
  obtain ⟨fresh, grammar, rooted⟩ := starts legible.wellFormed made
  rw [← grammar] at legible rooted finds
  exact ((fresh.discerns rooted).perform fresh.books legible performed).2
    fun deed member => finds deed (List.mem_append_left _ member)

end Launch

/-- Workers with one grammar that is legible discern what they make, by whatever schedule they take
their turns, if all trees that are in the corpus at first conform. -/
theorem discern_of_ended {grammar : Grammar} (legible : grammar.Legible) {launches : List Launch}
    (together : ∀ launch ∈ launches, launch.grammar = grammar) {shared : Shared}
    (held : ∀ tree ∈ shared.corpus.trees, tree.Conforms grammar) {schedule : List Nat}
    {endings : List (Ending ChaCha)}
    (ended : ((launched launches shared).after schedule).Ended endings) :
    List.Forall₂ Launch.Discerns launches endings := by
  have upholds : (launched launches shared).Upholds (Tree.Conforms grammar) := by
    refine ⟨held, List.forall_mem_nil _, List.forall_mem_map.mpr fun launch member => ?_⟩
    obtain rfl := together launch member
    exact Launch.upholds legible
  have each := List.forall₂_map_left_iff.mp (upholds.courses ended)
  refine ((List.forall₂_and_left ..).mpr ⟨together, each⟩).imp ?_
  rintro launch ending ⟨rfl, deeds, comes, finds⟩
  exact Launch.discerns_of_comes legible comes finds

namespace Statements

/-! ## The statement language -/

/-- What is seen of texts at their front. -/
def shown (texts : List String) : List Glimpse :=
  texts.map fun text => .front (Bytes.ofString text)

/-- The digits. -/
def digits : List Glimpse := shown ["0", "1", "2", "3", "4", "5", "6", "7", "8", "9"]

/-- The names of variables. -/
def names : List Glimpse := shown ["x", "y", "z", "acc"]

/-- The signs between terms. -/
def signs : List Glimpse := shown [" + ", " - "]

/-- What follows an expression. -/
def behindExpr : List Glimpse := .nothing :: shown [";\n", ");\n", ")"]

/-- What follows a term. -/
def behindTerm : List Glimpse := signs ++ behindExpr

/-- What follows a factor. -/
def behindFactor : List Glimpse := shown [" * "] ++ behindTerm

/-- What follows a number. -/
def behindNumber : List Glimpse := shown ["]"] ++ behindFactor

/-- What a number begins with, which may have no digits. -/
def ofNumber : List Glimpse := digits ++ behindNumber

/-- What a factor begins with. -/
def ofFactor : List Glimpse := shown ["-", "("] ++ names ++ ofNumber

/-- What a statement begins with. -/
def ofStatement : List Glimpse := shown ["print("] ++ names

/-- What the symbols of the table begin with and what follows them. -/
def outlook : Outlook where
  first
    | 0 | 1 => ofStatement ++ [.nothing]
    | 2 => ofStatement
    | 3 | 4 | 5 => ofFactor
    | 6 => signs
    | 7 => ofNumber
    | 8 => digits
    | 9 => names
    | _ => []
  follow
    | 2 => ofStatement ++ [.nothing]
    | 3 => behindExpr
    | 4 => behindTerm
    | 5 => behindFactor
    | 6 => ofFactor
    | 7 => behindNumber
    | 8 => ofNumber
    | 9 => shown ["[", " = "] ++ behindFactor
    | _ => [.nothing]

/-- The outlook guides through the table. It is decided by looking at every part of every row. -/
theorem guides_table : outlook.Guides table := by decide

/-- The table is legible: it is well formed, its names and literals can be spelled, and it is
unambiguous, as the outlook guides through it. -/
theorem legible_table : table.Legible where
  wellFormed := wellFormed_table
  spellable := ⟨by decide, by decide⟩
  unambiguous := Grammar.unambiguous_of_guides wellFormed_table guides_table

/-- Renderings tell programs apart. Trees that conform to the grammar of the language and have the
same symbol at the root are the same if they are rendered alike, with statements, digits or none.

Now let any workers with this grammar run side by side by any schedule, with a corpus that is empty
at first, until all of them have ended. Then after every step that a worker has got through it had
made nothing but samples of programs, and each of these programs is one that it keeps, unless it
keeps another one whose different rendering has the same digest. No sample of a new program is
passed over otherwise. -/
theorem renderings_tell_programs {built : Grammar} (made : grammar = .ok built) :
    (∀ tree other : Tree, tree.Conforms built → other.Conforms built →
      tree.symbol? = other.symbol? → tree.render = other.render → tree = other) ∧
    ∀ (launches : List Launch) (limit? : Option Nat) (files : Files) (events : Array Event)
      (schedule : List Nat) (endings : List (Ending ChaCha)),
      (∀ launch ∈ launches, launch.grammar = built) →
        ((launched launches { corpus := .ofCapacity limit?, files, events }).after
          schedule).Ended endings →
            List.Forall₂ Launch.Discerns launches endings := by
  obtain rfl : table = built := Except.ok.inj (grammar_eq.symm.trans made)
  refine ⟨legible_table.unambiguous, ?_⟩
  intro launches limit? files events schedule endings together ended
  refine discern_of_ended legible_table together (fun tree member => ?_) ended
  cases limit? <;> exact absurd member (Array.not_mem_empty tree)

/-- A worker that makes two programs. -/
def makingTwo (number seed : Nat) : Launch where
  grammar := table
  configuration :=
    { plan := { iterations := 1, initialSamples := 1, seed }
      settings := { rootSymbol := "root" } }
  patience := 50
  number

/-- Two of them after some turns, with room for one tree in the corpus. -/
def takingTurns : Crew (Ending ChaCha) :=
  (launched [makingTwo 0 18, makingTwo 1 81] { corpus := .ofCapacity (some 1) }).after
    (List.replicate 12 [0, 1]).flatten

/-- A program that assigns an indexed variable. -/
def indexing : Tree :=
  let ident : Tree := .expansion (.plain 9 "ident") [.text (Bytes.ofString "x")]
  let digit : Tree := .expansion (.plain 8 "digit") [.text (Bytes.ofString "5")]
  let index : Tree := .expansion (.repetition 7 "number" (.plain 8 "digit")) [digit]
  let factor : Tree := .expansion (.plain 5 "factor")
    [ident, .text (Bytes.ofString "["), index, .text (Bytes.ofString "]")]
  let expr : Tree := .expansion (.plain 3 "expr") [.expansion (.plain 4 "term") [factor]]
  .expansion root [.expansion statements [.expansion statement
    [ident, .text (Bytes.ofString " = "), expr, .text (Bytes.ofString ";\n")]]]

/-- The two make two programs each. The second one passes over the last of its own, which it knows,
and the first one comes to the same program. Its rendering alone tells which tree that is. -/
theorem renderings_tell_programs_takingTurns :
    (∃ first second, takingTurns.Ended [first, second] ∧ (makingTwo 0 18).Discerns first ∧
      (makingTwo 1 81).Discerns second ∧ first.made.length = 2 ∧ second.made.length = 2) ∧
    takingTurns.registered.length = 3 ∧
      ∀ place, place = 1 ∨ place = 2 → takingTurns.registered[place]? = some indexing := by
  obtain ⟨unambiguous, discerning⟩ := renderings_tell_programs grammar_eq
  have discerned := discerning [makingTwo 0 18, makingTwo 1 81] (some 1) {} #[]
    (List.replicate 12 [0, 1]).flatten
  rw [← takingTurns] at discerned
  have facts : (takingTurns.members.all fun member => member.value?.any fun ending =>
      ending.made.length == 2) = true ∧
    (∀ tree ∈ takingTurns.registered, tree.Conforms table ∧ tree.symbol? = some root) ∧
      takingTurns.registered.map Tree.render =
        ["z = 4966;\n", "x = x[5];\n", "x = x[5];\n"].map Bytes.ofString := by
    decide +kernel
  -- What the two have come to is not to be worked out again.
  generalize takingTurns = crew at discerned facts ⊢
  obtain ⟨all, conform, renderings⟩ := facts
  obtain ⟨endings, ended, counted⟩ := Crew.exists_ended_of_all all
  have together : ∀ launch ∈ [makingTwo 0 18, makingTwo 1 81], launch.grammar = table := by
    rintro launch member
    rcases List.mem_pair.mp member with rfl | rfl <;> rfl
  obtain _ | ⟨first, _ | ⟨second, _ | _⟩⟩ := discerned endings together ended
  obtain ⟨firstCount, secondCount, -⟩ : _ ∧ _ ∧ _ := by
    simpa only [List.forall_mem_cons, beq_iff_eq] using counted
  refine ⟨⟨_, _, ended, first, second, firstCount, secondCount⟩, ?_, fun place chosen => ?_⟩
  · exact (List.length_map ..).symm.trans (congrArg List.length renderings)
  · have rendered : (crew.registered[place]?).map Tree.render = some indexing.render := by
      rw [← List.getElem?_map, renderings]
      rcases chosen with rfl | rfl <;> rfl
    obtain ⟨tree, placed, same⟩ := Option.map_eq_some_iff.mp rendered
    obtain ⟨conforms, rooted⟩ := conform tree (List.mem_of_getElem? placed)
    rw [placed, unambiguous tree indexing conforms (by decide) (rooted.trans rfl) same]

end Statements

end Campaign

end Graft
