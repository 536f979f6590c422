import Graft.Proofs.Campaign.Outputs
import Graft.Proofs.Campaign.Steps
import Graft.Proofs.Corpus
import Graft.Proofs.Grammar.Table

/-!
# The books of a worker

A worker keeps its samples, the trees that requests start from and the digests that
it has seen in three places, and it leaves trees in the corpus and files in the
output directory. All of these tell the same discoveries in the same order: so they
do after every step, and so they do in the end.

What several workers have discovered is in the corpus and in the files whichever
way their work was interleaved.
-/

namespace Graft.Campaign

open Graft.Random

/-- The digest of a tree's rendering. -/
def digestOf (tree : Tree) : Md5.Digest := Md5.digest tree.render

/-- The requests that are made in a step. -/
def Step.requests : Step → Nat
  | .request _ => 1
  | .generate | .announce => 0

namespace Worker

variable {σ : Type} {worker next : Worker σ} {deeds more : List Deed}

/-- The worker has not done anything yet. -/
structure Fresh (worker : Worker σ) : Prop where
  novelty : worker.novelty = {}
  samples : worker.samples = #[]
  contexts : worker.contexts = #[]
  made : worker.made = []
  tally : worker.mutator.tally = {}

/-- What a worker holds and what it has done agree: its discoveries are told by the trees that
requests start from, in their order. -/
structure Books (worker : Worker σ) (deeds : List Deed) : Prop where
  /-- There is one tree for every sample. -/
  lengths : worker.samples.size = worker.contexts.size
  /-- Every tree is what its sample is read as. -/
  decoded : ∀ (place : Nat) (sample : Bytes) (tree : Tree), worker.samples[place]? = some sample →
    worker.contexts[place]? = some tree →
      worker.mutator.engine.grammar.readSample sample = .ok tree
  /-- No two renderings have the same digest. -/
  distinct : (worker.contexts.toList.map digestOf).Nodup
  /-- The digests that have been seen are those of the renderings. -/
  seen : worker.novelty.seen.Perm (worker.contexts.toList.map digestOf)
  /-- The trees, and no others, have been put into the corpus. -/
  registered : registeredBy deeds = worker.contexts.toList
  /-- The renderings, and no others, have been written, if the plan asks for it. -/
  written : writtenBy deeds =
    worker.contexts.toList.flatMap fun tree => worker.plan.outputs tree.render

/-- As many digests have been seen as there are samples, since a sample is kept just when its digest
is new. -/
theorem Books.size (books : worker.Books deeds) : worker.novelty.size = worker.samples.size := by
  rw [Novelty.size, books.seen.length_eq, List.length_map, Array.length_toList, books.lengths]

/-- The books of a worker that has not done anything are in order: all of them are empty. -/
theorem Fresh.books (fresh : worker.Fresh) : worker.Books [] := by
  obtain ⟨novelty, samples, contexts, -, -⟩ := fresh
  constructor
  · rw [samples, contexts]
    rfl
  · intro place sample tree found
    rw [samples] at found
    cases found
  · rw [contexts]
    exact List.nodup_nil
  · rw [contexts, novelty]
    exact .refl _
  · rw [contexts]
    rfl
  · rw [contexts]
    rfl

/-- The books stay in order when neither the worker's own part of them nor what is shared changes.
Sources and tallies are not in them. -/
theorem Books.pass (books : worker.Books deeds) (samples : next.samples = worker.samples)
    (contexts : next.contexts = worker.contexts) (novelty : next.novelty = worker.novelty)
    (plan : next.plan = worker.plan) (engine : next.mutator.engine = worker.mutator.engine)
    (unchanging : ∀ deed ∈ more, ¬ deed.access.Changes) : next.Books (deeds ++ more) := by
  obtain ⟨registered, written⟩ := nothing_of_unchanging unchanging
  constructor
  · rw [samples, contexts, books.lengths]
  · rw [samples, contexts, engine]
    exact books.decoded
  · rw [contexts]
    exact books.distinct
  · rw [contexts, novelty]
    exact books.seen
  · rw [registeredBy_append, registered, List.append_nil, contexts, books.registered]
  · rw [writtenBy_append, written, List.append_nil, contexts, plan, books.written]

/-- The books stay in order when a sample is kept. Each of them has one entry more, and a sample
whose digest has been seen is entered in none. -/
theorem Books.keep (books : worker.Books deeds) {sample : Bytes}
    (keeps : worker.Keeps sample next more) : next.Books (deeds ++ more) := by
  cases keeps with
  | known tree read seen => exact books.pass rfl rfl rfl rfl rfl (List.forall_mem_nil _)
  | novel tree size read unseen =>
    constructor
    · simp only [Array.size_push, books.lengths]
    · intro place other found kept placed
      rw [Array.getElem?_push] at kept placed
      rw [books.lengths] at kept
      split at kept
      · next last =>
        rw [if_pos last] at placed
        obtain rfl := Option.some.inj kept
        obtain rfl := Option.some.inj placed
        exact read
      · next inside =>
        rw [if_neg inside] at placed
        exact books.decoded place other found kept placed
    · rw [Array.toList_push, List.map_append, List.nodup_append_comm]
      refine List.nodup_cons.mpr ⟨fun member => ?_, books.distinct⟩
      exact unseen (books.seen.mem_iff.mpr member)
    · rw [Array.toList_push, List.map_append]
      exact (books.seen.cons _).trans (List.perm_append_singleton _ _).symm
    · simp only [registeredBy_append, registeredBy_writing, List.nil_append, Array.toList_push,
        books.registered]
      rfl
    · simp only [writtenBy_append, writtenBy_writing, Array.toList_push, List.flatMap_append,
        books.written]
      rfl

/-- A step keeps the books in order, whether it generates a sample or makes a request. A worker
looks at the corpus on the way, which changes nothing. -/
theorem Books.step (books : worker.Books deeds) {step : Step}
    (takes : worker.Takes step next more) : next.Books (deeds ++ more) := by
  cases takes with
  | generated source tree unchanging grown keeps =>
    have passed : Books { worker with source } (deeds ++ _) :=
      books.pass rfl rfl rfl rfl rfl unchanging
    rw [← List.append_assoc]
    exact passed.keep keeps
  | announced unchanging => exact books.pass rfl rfl rfl rfl rfl unchanging
  | @requested _ before kept after iteration place context corpus source answer placed unchanging
      served keeps =>
    have engine : answer.1.engine = worker.mutator.engine := (served.answers rfl).1
    have passed : Books { worker with source, mutator := answer.1 } (deeds ++ before) :=
      books.pass rfl rfl rfl rfl engine fun deed member =>
        unchanging deed (List.mem_append_left _ member)
    have reported : Books next (deeds ++ before ++ kept ++ after) :=
      (passed.keep keeps).pass rfl rfl rfl rfl rfl fun deed member =>
        unchanging deed (List.mem_append_right _ member)
    rw [← List.append_assoc, ← List.append_assoc]
    exact reported

/-! ## Requests -/

/-- A request is counted, and nothing else is counted as one. Samples that are generated leave the
tally as it is. -/
theorem Takes.requests {step : Step} (takes : worker.Takes step next deeds) :
    next.mutator.tally.requests = worker.mutator.tally.requests + step.requests := by
  cases takes with
  | announced => rfl
  | generated source tree unchanging grown keeps =>
    rw [keeps.steady.2.2]
    rfl
  | requested iteration place context corpus source answer placed unchanging served keeps =>
    rw [keeps.steady.2.2]
    cases served <;> rfl

variable [Source σ]

/-- Steps keep the books in order, and count the requests among them. The induction is on the
steps, with what has been done before them. -/
theorem Books.perform {steps : List Step} (books : worker.Books deeds)
    (comes : Errand.Comes (perform steps : Work σ Unit) worker more (.ok ()) next) :
    next.Books (deeds ++ more) ∧
      next.mutator.tally.requests =
        worker.mutator.tally.requests + (steps.map Step.requests).sum := by
  induction steps generalizing worker deeds more with
  | nil =>
    obtain ⟨rfl, -, rfl⟩ := Errand.comes_pure.mp comes
    rw [List.append_nil]
    exact ⟨books, rfl⟩
  | cons step steps inductionHypothesis =>
    obtain ⟨_, taken, first, second, taking, further, rfl⟩ := Errand.comes_bind_ok.mp comes
    have takes := takes_of_comes taking
    obtain ⟨kept, counted⟩ := inductionHypothesis (books.step takes) further
    rw [List.append_assoc] at kept
    refine ⟨kept, ?_⟩
    rw [counted, takes.requests, List.map_cons, List.sum_cons, Nat.add_assoc]

end Worker

/-- A plan asks for as many requests as it has iterations, and its first samples are none. -/
theorem Plan.sum_requests_steps (plan : Plan) :
    (plan.steps.map Step.requests).sum = plan.iterations := by
  simp [steps, Step.requests, Function.comp_def]

/-- What a worker has done on its way to a report is told by its books. -/
structure Worker.Audited {σ : Type} [Source σ] (worker : Worker σ) (deeds : List Deed)
    (report : Report) (final : Worker σ) : Prop where
  /-- The books are in order after every step. -/
  always : ∀ front back, worker.plan.steps = front ++ back → ∃ between first second,
    Errand.Comes (Worker.perform front : Work σ Unit) worker first (.ok ()) between ∧
      Errand.Comes (Worker.perform back : Work σ Unit) between second (.ok ()) final ∧
        deeds = first ++ second ∧ between.Books first ∧
          between.novelty.size = between.samples.size ∧
            between.mutator.engine = worker.mutator.engine
  /-- They are in order in the end. -/
  books : final.Books deeds
  plan : final.plan = worker.plan
  engine : final.mutator.engine = worker.mutator.engine
  discovered : report.discovered = final.samples.size
  requests : report.tally.requests = worker.plan.iterations

/-- The books of a worker that comes to a report tell what it has done. They have been in order
after every step, and the report is made of the last. -/
theorem Worker.audited_of_run {σ : Type} [Source σ] {worker final : Worker σ}
    (fresh : worker.Fresh) {deeds : List Deed} {report : Report}
    (comes : Errand.Comes (Worker.run : Work σ Report) worker deeds (.ok report) final) :
    worker.Audited deeds report final := by
  obtain ⟨steps, rfl⟩ := Worker.comes_run_ok comes
  have books := fresh.books
  obtain ⟨-, plan, engine⟩ := Worker.steady_of_perform steps
  constructor
  · intro front back parts
    rw [parts] at steps
    rw [Worker.perform_append] at steps
    obtain ⟨_, between, first, second, before, after, rfl⟩ := Errand.comes_bind_ok.mp steps
    have inOrder := (books.perform before).1
    exact ⟨between, first, second, before, after, rfl, inOrder, inOrder.size,
      (Worker.steady_of_perform before).2.2⟩
  · exact (books.perform steps).1
  · exact plan
  · exact engine
  · exact (books.perform steps).1.size
  · have counted := (books.perform steps).2
    rw [fresh.tally, worker.plan.sum_requests_steps] at counted
    exact counted.trans (Nat.zero_add _)

/-! ## The corpus -/

/-- A corpus holds what it can of what has been put there before and by the deeds. The induction is
on what is granted. -/
theorem holds_of_grants {shared final : Shared} {deeds : List Deed}
    (granted : shared.Grants deeds final) {limit? : Option Nat} {trees : List Tree}
    (holds : shared.corpus.Holds limit? trees) :
    final.corpus.Holds limit? (trees ++ registeredBy deeds) := by
  induction granted generalizing trees with
  | nothing shared => exact (List.append_nil trees).symm ▸ holds
  | @deed shared final deeds access further inductionHypothesis =>
    cases access with
    | look | note => exact inductionHypothesis holds
    | register tree =>
      have all := inductionHypothesis (holds.register tree)
      rw [List.append_assoc] at all
      exact all
    | write path content =>
      refine inductionHypothesis ?_
      simp only [Shared.grant]
      split <;> exact holds

/-- A corpus holds as many trees as have been put there, cut to its limit. A limit of zero is taken
for one of one tree. -/
theorem size_of_holds {corpus : Corpus} {limit? : Option Nat} {trees : List Tree}
    (holds : corpus.Holds limit? trees) :
    corpus.size = limit?.elim trees.length fun limit => min trees.length (max 1 limit) := by
  rw [Corpus.size, ← Array.length_toList, holds.held]
  cases limit? with
  | none => rfl
  | some limit =>
    simp only [Corpus.newest, List.length_drop, Option.elim]
    omega

/-! ## Files -/

/-- Paths that can lead to one place are written with one content. -/
def Consistent (outputs : List (String × Bytes)) : Prop :=
  ∀ output ∈ outputs, ∀ other ∈ outputs, ∀ (files : Files) (place : String),
    files.locate output.1 = .ok place → files.locate other.1 = .ok place → other.2 = output.2

/-- All that has been written is there, if it has been written consistently. The induction is on
the deeds, with what has been written before them. -/
theorem stores_of_grants {shared final : Shared} {deeds : List Deed}
    (granted : shared.Grants deeds final) {before : List (String × Bytes)}
    (stored : ∀ output ∈ before, shared.files.Stores output.1 output.2)
    (consistent : Consistent (before ++ writtenBy deeds)) :
    ∀ output ∈ before ++ writtenBy deeds, final.files.Stores output.1 output.2 := by
  induction granted generalizing before with
  | nothing shared =>
    rw [show writtenBy [] = [] from rfl, List.append_nil]
    exact stored
  | @deed shared final deeds access further inductionHypothesis =>
    cases access with
    | look | register | note => exact inductionHypothesis stored consistent
    | write path content =>
      cases written : shared.files.write path content with
      | error cause =>
        simp only [Shared.grant, written] at inductionHypothesis consistent ⊢
        exact inductionHypothesis stored consistent
      | ok files =>
        simp only [Shared.grant, written] at inductionHypothesis consistent ⊢
        have split : before ++ writtenBy (⟨.write path content, .ok ()⟩ :: deeds) =
            (before ++ [(path, content)]) ++ writtenBy deeds := (List.append_assoc ..).symm
        rw [split] at consistent ⊢
        refine inductionHypothesis (fun output member => ?_) consistent
        rcases List.mem_append.mp member with old | new
        · refine (stored output old).write written ?_
          exact consistent output (List.mem_append_left _ member) (path, content) (by simp)
            shared.files
        · obtain rfl := List.mem_singleton.mp new
          exact Files.stores_of_write written

/-- No two renderings of different trees have one digest, unless they are the same. -/
def CollisionFree (trees : List Tree) : Prop :=
  ∀ tree ∈ trees, ∀ other ∈ trees, digestOf tree = digestOf other → tree.render = other.render

instance (trees : List Tree) : Decidable (CollisionFree trees) :=
  inferInstanceAs (Decidable (∀ tree ∈ trees, ∀ other ∈ trees,
    digestOf tree = digestOf other → tree.render = other.render))

/-- Outputs for trees without collisions are consistent, whatever plans have asked for them. Files
of one name have one digest, and then one content. -/
theorem consistent_of_collisionFree {trees : List Tree} (free : CollisionFree trees)
    {outputs : List (String × Bytes)}
    (asked : ∀ output ∈ outputs, ∃ (plan : Plan) (tree : Tree), tree ∈ trees ∧
      output ∈ plan.outputs tree.render) : Consistent outputs := by
  -- An output is named for the digest of what is written.
  have named {output : String × Bytes} (member : output ∈ outputs) :
      ∃ directory tree, tree ∈ trees ∧
        output = (FilePath.join directory (digestOf tree).hex, tree.render) := by
    obtain ⟨plan, tree, present, asked⟩ := asked output member
    unfold Plan.outputs at asked
    split at asked
    · cases asked
    · next directory _ => exact ⟨directory, tree, present, List.mem_singleton.mp asked⟩
  intro output member other otherMember files place located otherLocated
  obtain ⟨directory, tree, present, rfl⟩ := named member
  obtain ⟨otherDirectory, otherTree, otherPresent, rfl⟩ := named otherMember
  have name := Files.names_of_locate (digestOf tree).plain_hex (digestOf tree).proper_hex located
  have otherName := Files.names_of_locate (digestOf otherTree).plain_hex
    (digestOf otherTree).proper_hex otherLocated
  have same := Md5.Digest.hex_inj (Option.some.inj (otherName.symm.trans name))
  exact free otherTree otherPresent tree present same

/-! ## Workers side by side -/

/-- A worker that is to be run, alone or among others. -/
structure Launch where
  grammar : Grammar
  configuration : Configuration
  patience : Nat
  number : Nat

/-- What a worker does, from its first draw to its end. -/
def Launch.process (launch : Launch) : Process (Ending ChaCha) :=
  workerProcess launch.grammar launch.configuration launch.patience launch.number

/-- A worker that is launched and comes to a report has been new at its start. The report shows that
its mutator could be made. -/
theorem Launch.comes {launch : Launch} {ending : Ending ChaCha} {deeds : List Deed}
    (comes : launch.process.ComesTo ending deeds) {report : Report}
    (ended : ending.result = .ok report) :
    ∃ worker final : Worker ChaCha, worker.Fresh ∧ worker.plan = launch.configuration.plan ∧
      worker.mutator.engine.grammar = launch.grammar ∧
        Errand.Comes (Worker.run : Work ChaCha Report) worker deeds (.ok report) final := by
  cases made : Mutator.create launch.grammar launch.configuration.settings launch.patience with
  | error error =>
    unfold process workerProcess at comes
    rw [made] at comes
    obtain ⟨-, rfl⟩ := Process.comesTo_done.mp comes
    cases ended
  | ok mutator =>
    obtain ⟨final, runs, -⟩ := comes_of_workerProcess made comes
    obtain ⟨root, -, rfl⟩ := Mutator.create_eq_ok_iff.mp made
    rw [ended] at runs
    exact ⟨_, final, ⟨rfl, rfl, rfl, rfl, rfl⟩, rfl, rfl, runs⟩

/-- A worker that is launched has ended with a report, which tells as its books do of the trees
that it has discovered. -/
def Launch.Discovers (launch : Launch) (ending : Ending ChaCha) (trees : List Tree) : Prop :=
  ∃ (worker final : Worker ChaCha) (deeds : List Deed) (report : Report),
    worker.plan = launch.configuration.plan ∧ worker.mutator.engine.grammar = launch.grammar ∧
      ending.result = .ok report ∧ worker.Audited deeds report final ∧
        final.contexts.toList = trees

/-- The trees that a worker has discovered are the trees that it has put into the corpus, in the
order of its discoveries. -/
theorem Launch.discovers_of_comes {launch : Launch} {ending : Ending ChaCha} {deeds : List Deed}
    (comes : launch.process.ComesTo ending deeds) {report : Report}
    (ended : ending.result = .ok report) :
    launch.Discovers ending (registeredBy deeds) ∧
      writtenBy deeds = (registeredBy deeds).flatMap fun tree =>
        launch.configuration.plan.outputs tree.render := by
  obtain ⟨worker, final, fresh, plan, grammar, comes⟩ := launch.comes comes ended
  have audited := Worker.audited_of_run fresh comes
  have registered := audited.books.registered
  refine ⟨⟨worker, final, deeds, report, plan, grammar, ended, audited, registered.symm⟩, ?_⟩
  rw [registered, audited.books.written, audited.plan, plan]

/-- Workers that are launched side by side. -/
def launched (launches : List Launch) (shared : Shared) : Crew (Ending ChaCha) where
  shared
  members := launches.map Launch.process

/-- The number of novel renderings that a worker has reported. -/
def Ending.discovered {σ : Type} (ending : Ending σ) : Nat :=
  match ending.result with
  | .ok report => report.discovered
  | .error _ => 0

/-- What one of several workers has discovered. -/
structure Logbook where
  launch : Launch
  ending : Ending ChaCha
  trees : List Tree
  told : launch.Discovers ending trees

namespace Logbook

/-- A worker reports as many discoveries as there are, since its report counts its samples. -/
theorem discovered (logbook : Logbook) : logbook.ending.discovered = logbook.trees.length := by
  obtain ⟨worker, final, deeds, report, -, -, ended, audited, trees⟩ := logbook.told
  rw [Ending.discovered, ended, ← trees, Array.length_toList, ← audited.books.lengths]
  exact audited.discovered

/-- The files that the worker has been asked to write. -/
def outputs (logbook : Logbook) : List (String × Bytes) :=
  logbook.trees.flatMap fun tree => logbook.launch.configuration.plan.outputs tree.render

end Logbook

/-- There is a logbook for every worker that has ended with a report. It tells what the worker has
put into the corpus and what it has written. -/
theorem exists_logbooks {launches : List Launch} {courses : List (List Deed × Ending ChaCha)}
    (each : List.Forall₂ (fun launch course => launch.process.ComesTo course.2 course.1) launches
      courses)
    (succeeded : ∀ course ∈ courses, course.2.result.isOk = true) :
    ∃ logbooks : List Logbook, logbooks.map Logbook.launch = launches ∧
      logbooks.map Logbook.ending = courses.map Prod.snd ∧
        logbooks.flatMap Logbook.trees = courses.flatMap (fun course => registeredBy course.1) ∧
          logbooks.flatMap Logbook.outputs = courses.flatMap fun course => writtenBy course.1 := by
  induction each with
  | nil => exact ⟨[], rfl, rfl, rfl, rfl⟩
  | @cons launch course launches courses comes each inductionHypothesis =>
    obtain ⟨logbooks, same, endings, registered, written⟩ :=
      inductionHypothesis fun other member => succeeded other (List.mem_cons_of_mem _ member)
    obtain ⟨report, ended⟩ : ∃ report, course.2.result = .ok report := by
      have success := succeeded course List.mem_cons_self
      cases result : course.2.result with
      | ok report => exact ⟨report, rfl⟩
      | error stop =>
        rw [result] at success
        cases success
    obtain ⟨told, outputs⟩ := launch.discovers_of_comes comes ended
    refine ⟨⟨launch, course.2, registeredBy course.1, told⟩ :: logbooks, ?_, ?_, ?_, ?_⟩
    · rw [List.map_cons, same]
    · rw [List.map_cons, endings, List.map_cons]
    · rw [List.flatMap_cons, registered, List.flatMap_cons]
    · rw [List.flatMap_cons, written, List.flatMap_cons, outputs]
      rfl

/-- The books of a worker are in order. Let any worker, on any source and among any others, come
to a report. Then after every step that it has taken there has been one tree for every sample,
the one that the sample is read as; no two renderings have had the same digest; and as many
digests have been seen as there have been samples. In the end the worker reports that number and
as many requests as its plan has iterations. It has put these trees, and no others, into the
corpus, in the order of their discovery, and has written their renderings if its plan asks for it.

Now let any workers run side by side by any schedule, with a corpus that is empty at first, and
all come to reports. Then the corpus holds as many trees as they report together, cut to its
limit. If no two different renderings of theirs have the same digest, then every tree that a
worker with an output directory has discovered has its rendering there, in a file that is named
for the digest. -/
theorem books_tell_discoveries :
    (∀ {σ : Type} [Source σ] (grammar : Grammar) (configuration : Configuration)
      (patience number : Nat) (source : σ) (mutator : Mutator) (deeds : List Deed)
      (report : Report) (final : Worker σ),
      Mutator.create grammar configuration.settings patience = .ok mutator →
        let worker : Worker σ := { number, plan := configuration.plan, mutator, source }
        Errand.Comes (Worker.run : Work σ Report) worker deeds (.ok report) final →
          worker.mutator.engine.grammar = grammar ∧ worker.Audited deeds report final) ∧
    ∀ (launches : List Launch) (limit? : Option Nat) (files : Files) (events : Array Event)
      (schedule : List Nat) (endings : List (Ending ChaCha)),
      let crew := (launched launches { corpus := .ofCapacity limit?, files, events }).after schedule
      let together := (endings.map Ending.discovered).sum
      crew.Ended endings → (∀ ending ∈ endings, ending.result.isOk = true) →
        ∃ logbooks : List Logbook, logbooks.map Logbook.launch = launches ∧
          logbooks.map Logbook.ending = endings ∧
          crew.registered.Perm (logbooks.flatMap Logbook.trees) ∧
          crew.shared.corpus.size =
            limit?.elim together (fun limit => min together (max 1 limit)) ∧
          (CollisionFree (logbooks.flatMap Logbook.trees) →
            ∀ logbook ∈ logbooks, ∀ directory,
              logbook.launch.configuration.plan.outputDir = some directory →
                ∀ tree ∈ logbook.trees,
                  crew.shared.files.read (FilePath.join directory (digestOf tree).hex) =
                    .ok tree.render) := by
  constructor
  · intro σ _ grammar configuration patience number source mutator deeds report final made worker
      comes
    obtain ⟨root, -, rfl⟩ := Mutator.create_eq_ok_iff.mp made
    exact ⟨rfl, Worker.audited_of_run ⟨rfl, rfl, rfl, rfl, rfl⟩ comes⟩
  · intro launches limit? files events schedule endings crew together ended succeeded
    obtain ⟨courses, log, each, values, parts, granted, registered⟩ := Crew.ended_comes ended
    obtain ⟨logbooks, same, told, trees, outputs⟩ := exists_logbooks
      (List.forall₂_map_left_iff.mp each)
      fun course member => succeeded course.2 (values ▸ List.mem_map_of_mem member)
    rw [← List.flatMap_def] at parts
    have all : crew.registered.Perm (logbooks.flatMap Logbook.trees) := by
      have same := parts.symm.flatMap_right Deed.registered
      rw [List.flatMap_assoc] at same
      rw [registered, trees]
      exact same
    have written : (logbooks.flatMap Logbook.outputs).Perm (writtenBy log) := by
      have same := parts.flatMap_right Deed.written
      rw [List.flatMap_assoc] at same
      rw [outputs]
      exact same
    refine ⟨logbooks, same, told.trans values, all, ?size, ?files⟩
    case size =>
      have holds := holds_of_grants granted (Corpus.holds_nothing limit?)
      have count : together = crew.registered.length := by
        change (endings.map Ending.discovered).sum = _
        rw [all.length_eq, List.length_flatMap, ← funext Logbook.discovered, ← values, ← told,
          List.map_map]
        rfl
      rw [size_of_holds holds, count, registered]
      rfl
    case files =>
      intro free logbook member directory chosen tree present
      have consistent : Consistent (writtenBy log) := by
        refine consistent_of_collisionFree free fun output asked => ?_
        obtain ⟨other, listed, asked⟩ := List.mem_flatMap.mp (written.mem_iff.mpr asked)
        obtain ⟨found, inside, asked⟩ := List.mem_flatMap.mp asked
        exact ⟨_, found, List.mem_flatMap.mpr ⟨other, listed, inside⟩, asked⟩
      have output : (FilePath.join directory (digestOf tree).hex, tree.render) ∈ writtenBy log := by
        refine written.mem_iff.mp (List.mem_flatMap.mpr ⟨logbook, member, ?_⟩)
        refine List.mem_flatMap.mpr ⟨tree, present, ?_⟩
        rw [Plan.outputs, chosen]
        exact List.mem_singleton_self _
      have stores := stores_of_grants granted (List.forall_mem_nil _) consistent _ output
      exact stores.read (FilePath.endsInSlash_join directory (digestOf tree).plain_hex)

/-- A worker that discovers binary numerals and writes them out. -/
def Launch.ofNumerals (number : Nat) : Launch where
  grammar := .numerals
  configuration :=
    { plan := { iterations := 1, initialSamples := 2, outputDir := some "/tmp" }
      settings := { rootSymbol := "list" } }
  patience := 50
  number

/-- The first of them at its start. -/
def Worker.ofNumerals : Worker ChaCha where
  number := 0
  plan := (Launch.ofNumerals 0).configuration.plan
  mutator :=
    { engine :=
        { grammar := .numerals
          settings := { rootSymbol := "list" }
          root := .repetition 0 "list" (.plain 1 "digit")
          patience := 50 } }
  source := ChaCha.ofSeed 0

/-- Two of them after some turns, with room for two trees in the corpus. -/
def takingTurns : Crew (Ending ChaCha) :=
  (launched [.ofNumerals 0, .ofNumerals 1] { corpus := .ofCapacity (some 2) }).after
    (List.replicate 20 [0, 1]).flatten

/-- Both have come to reports and have discovered six trees together. Their files hold what has
been put into the corpus. -/
theorem books_tell_discoveries_ofNumerals :
    (∃ deeds report final,
      Errand.Comes (Worker.run : Work ChaCha Report) .ofNumerals deeds (.ok report) final ∧
        Worker.ofNumerals.Audited deeds report final) ∧
    (∃ endings, takingTurns.Ended endings ∧ (∀ ending ∈ endings, ending.result.isOk = true) ∧
      takingTurns.shared.corpus.size = min (endings.map Ending.discovered).sum (max 1 2)) ∧
    takingTurns.registered.length = 6 ∧ CollisionFree takingTurns.registered ∧
      ∀ tree ∈ takingTurns.registered, takingTurns.shared.files.read
        (FilePath.join "/tmp" (digestOf tree).hex) = .ok tree.render := by
  obtain ⟨alone, together⟩ := books_tell_discoveries
  constructor
  · obtain ⟨deeds, comes, -⟩ := Process.alone_comes
      ((Worker.run : Work ChaCha Report) .ofNumerals) { corpus := .unbounded }
    have success : ((((Worker.run : Work ChaCha Report) .ofNumerals).alone
      { corpus := .unbounded }).1.1.isOk) = true := by decide +kernel
    generalize Process.alone _ _ = outcome at comes success
    obtain ⟨⟨result, final⟩, shared⟩ := outcome
    cases result with
    | error stop => cases success
    | ok report =>
      exact ⟨deeds, report, final, comes,
        (alone .numerals (Launch.ofNumerals 0).configuration 50 0 (ChaCha.ofSeed 0) _ deeds report
          final rfl comes).2⟩
  · have facts : takingTurns.members.all
        (fun member => member.value?.any fun ending => ending.result.isOk) = true ∧
        takingTurns.registered.length = 6 ∧ CollisionFree takingTurns.registered := by
      decide +kernel
    have told := together [.ofNumerals 0, .ofNumerals 1] (some 2) {} #[]
      (List.replicate 20 [0, 1]).flatten
    rw [← takingTurns] at told
    -- What the two have come to is not to be worked out again.
    generalize takingTurns = crew at told facts ⊢
    obtain ⟨endings, ended, succeeded⟩ := Crew.exists_ended_of_all facts.1
    obtain ⟨logbooks, launches, -, registered, size, files⟩ := told endings ended succeeded
    refine ⟨⟨endings, ended, succeeded, size⟩, facts.2.1, facts.2.2,
      fun tree member => ?_⟩
    obtain ⟨logbook, listed, present⟩ := List.mem_flatMap.mp (registered.mem_iff.mp member)
    have launched : logbook.launch ∈ [Launch.ofNumerals 0, Launch.ofNumerals 1] :=
      launches ▸ List.mem_map_of_mem listed
    refine files (fun one first other second => ?_) logbook listed "/tmp" ?_ tree present
    · exact facts.2.2 one (registered.mem_iff.mpr first) other (registered.mem_iff.mpr second)
    · rcases List.mem_pair.mp launched with same | same <;> rw [same] <;> rfl

end Graft.Campaign
