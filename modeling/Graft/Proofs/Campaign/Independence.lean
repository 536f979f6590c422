import Graft.Campaign.Worker
import Graft.Proofs.Campaign.Outputs
import Graft.Proofs.Mutation.Tally
import Graft.Proofs.Mutation.Unspliced
import Graft.Proofs.Sample.RoundTrip

/-!
# Workers that do not splice are independent

Without splices nothing leads from the corpus back to a worker. Its draws, the
samples it makes, what it reports and the trees it registers depend on its number
and on the campaign alone: not on what the corpus holds at the start, nor on what
the other workers put there meanwhile, nor on the outputs they write.
-/

namespace Graft

/-- Counts are put together in any order, as they are added one by one. -/
theorem Tally.mergeAll_perm {left right : List Tally} (same : left.Perm right) :
    mergeAll left = mergeAll right := by
  have commutes : RightCommutative merge := by
    constructor
    intro start first second
    simp only [merge, PerStrategy.zipWith, Nat.add_right_comm]
  exact same.foldl_eq _

namespace Campaign

open Graft.Random

namespace Worker

variable {σ : Type} {plan : Plan} {engine : Engine} {files : Files}

/-- The worker works on a plan, and its mutator with an engine. -/
structure Steady (plan : Plan) (engine : Engine) (worker : Worker σ) : Prop where
  plan : worker.plan = plan
  engine : worker.mutator.engine = engine

/-- As long as outputs are taken as they are with the given files, the end of the work is
foregone for every worker on the plan with the engine. -/
abbrev Settled (plan : Plan) (engine : Engine) (files : Files) {α : Type} (answers : α → Prop)
    (work : Work σ α) : Prop :=
  Errand.Settled (plan.TakesOutputs files) (Steady plan engine) answers work

/-- An event that is noted has no part in which outputs are taken, as it is no file. -/
theorem takes_noted (shared : Shared) (event : Event) (takes : plan.TakesOutputs files shared) :
    plan.TakesOutputs files (shared.grant (.note event)).2 :=
  takes.grant trivial

/-- An errand of the mutator is settled for the worker if it is for the mutator. The worker takes
over its source, and passes its error on. -/
theorem settled_carry {α : Type} {answers : α → Prop} {errand : Errand (Stop MutationError) σ α}
    (settled : Errand.Settled (plan.TakesOutputs files) (fun _ => True) answers errand) :
    Settled plan engine files answers (carry errand) := by
  intro worker steady
  obtain ⟨result, source, trees, foregone, -, answer⟩ := settled worker.source trivial
  refine ⟨_, { worker with source }, _, foregone.bind .done, ⟨steady.plan, steady.engine⟩, ?_⟩
  intro value ended
  cases result with
  | error stop => cases ended
  | ok found =>
    obtain rfl : found = value := Except.ok.inj ended
    exact answer found rfl

/-- What has an error of its own is settled: the error is passed on, and nothing shared is come
to. -/
theorem settled_orReport {ε α : Type} (wrap : ε → WorkerError) (result : Except (Stop ε) α) :
    Settled plan engine files (fun _ => True) (orReport wrap result : Work σ α) := by
  cases result with
  | ok value => exact Errand.Settled.pure trivial
  | error stop => exact Errand.Settled.throw _

/-- To write an output is settled. Whether it is refused is known from the given files, whatever
outputs have been written in the meantime. -/
theorem settled_writeOutput {directory : String} (chosen : plan.outputDir = some directory)
    (digest : Md5.Digest) (rendering : Bytes) :
    Settled plan engine files (fun _ => True)
      (writeOutput directory digest rendering : Work σ Unit) := by
  have issued : plan.Issues (.write (FilePath.join directory digest.hex) rendering) :=
    ⟨directory, digest, chosen, rfl⟩
  refine Errand.Settled.ask (fun shared takes => takes.grant issued) fun worker steady => ?_
  cases known : Files.refusal? (files.write (FilePath.join directory digest.hex) rendering) with
  | none =>
    refine ⟨.ok (), worker, [], fun shared takes => ?_, steady, fun _ _ => trivial⟩
    rw [takes.reply chosen digest rendering, known]
    exact .done
  | some cause =>
    refine ⟨.error (.error (.output (FilePath.join directory digest.hex) cause)), worker, [],
      fun shared takes => ?_, steady, nofun⟩
    rw [takes.reply chosen digest rendering, known]
    exact .done

/-- To keep a sample that is novel is settled. Whether it is novel is told by what the worker itself
has seen. -/
theorem settled_keepIfNovel (sample : Bytes) :
    Settled plan engine files (fun _ => True) (keepIfNovel sample : Work σ Unit) := by
  have created (worker : Worker σ) : Settled plan engine files (fun _ => True) (do
      let tree ← carry (worker.mutator.creatingContext sample)
      modify fun worker => { worker with contexts := worker.contexts.push tree }
      modify fun worker => { worker with samples := worker.samples.push sample } :
        Work σ Unit) := by
    apply Errand.Settled.bind (settled_carry (Mutator.settled_creatingContext
      (fun shared tree takes => takes.grant trivial) _ _))
    intro tree _
    apply Errand.Settled.bind (Errand.Settled.modify fun worker steady =>
      ⟨steady.plan, steady.engine⟩)
    intro _ _
    exact Errand.Settled.modify fun worker steady => ⟨steady.plan, steady.engine⟩
  apply Errand.Settled.bind (Errand.Settled.modify fun worker steady =>
    ⟨steady.plan, steady.engine⟩)
  intro _ _
  apply Errand.Settled.bind Errand.Settled.get
  intro worker steady
  apply Errand.Settled.bind (settled_orReport _ _)
  intro tree _
  apply Errand.Settled.bind (Errand.Settled.set ⟨steady.plan, steady.engine⟩)
  intro _ _
  split
  · exact Errand.Settled.pure trivial
  · split
    · next directory chosen =>
      rw [steady.plan] at chosen
      exact Errand.Settled.bind (settled_writeOutput chosen _ _) fun _ _ => created worker
    · exact created worker

variable [Source σ]

/-- To generate a sample is settled, and so is what becomes of it. -/
theorem settled_generate :
    Settled plan engine files (fun _ => True) (generate : Work σ Unit) := by
  apply Errand.Settled.bind Errand.Settled.get
  intro worker _
  apply Errand.Settled.bind (settled_carry (Mutator.settled_generating takes_noted _))
  intro sample _
  exact settled_keepIfNovel sample

/-- To pick a kept sample is settled, as it is picked among the worker's own. -/
theorem settled_pick : Settled plan engine files (fun _ => True) (pick : Work σ Tree) := by
  apply Errand.Settled.bind Errand.Settled.get
  intro worker steady
  apply Errand.Settled.bind (Errand.Settled.set ⟨steady.plan, steady.engine⟩)
  intro _ _
  split
  · exact Errand.Settled.throw _
  · dsimp only
    split
    · exact Errand.Settled.throw _
    · exact Errand.Settled.pure trivial

/-- To make a request is settled without splices. The mutator is the only one to look at the corpus,
but for the report of progress. -/
theorem settled_request (unspliced : engine.settings.Unspliced) (iteration : Nat) :
    Settled plan engine files (fun _ => True) (request iteration : Work σ Unit) := by
  apply Errand.Settled.bind settled_pick
  intro context _
  apply Errand.Settled.bind Errand.Settled.get
  intro worker steady
  have own : (worker.mutator.initRound context).engine = engine := steady.engine
  apply Errand.Settled.bind (settled_carry (Mutator.settled_mutating takes_noted
    (own.symm ▸ unspliced)))
  intro answer same
  apply Errand.Settled.bind (Errand.Settled.modify fun worker steady =>
    ⟨steady.plan, same.trans own⟩)
  intro _ _
  apply Errand.Settled.bind (settled_keepIfNovel _)
  intro _ _
  apply Errand.Settled.bind Errand.Settled.get
  intro worker steady
  split
  · -- The size of the corpus goes into the log, and nowhere else.
    refine Errand.Settled.ask (fun _ takes => takes) fun worker steady => ?_
    exact ⟨.ok (), worker, [], fun shared takes =>
      .seek (fun _ => takes_noted _ _) fun _ _ => .done, steady, fun _ _ => trivial⟩
  · exact Errand.Settled.pure trivial

/-- To generate samples is settled. The induction is on their number. -/
theorem settled_generateAll (samples : Nat) :
    Settled plan engine files (fun _ => True) (generateAll samples : Work σ Unit) := by
  induction samples with
  | zero => exact Errand.Settled.pure trivial
  | succ samples inductionHypothesis =>
    exact Errand.Settled.bind settled_generate fun _ _ => inductionHypothesis

/-- To make requests is settled without splices. The induction is on those that remain. -/
theorem settled_requestAll (unspliced : engine.settings.Unspliced) (remaining : Nat) :
    Settled plan engine files (fun _ => True) (requestAll remaining : Work σ Unit) := by
  induction remaining with
  | zero => exact Errand.Settled.pure trivial
  | succ remaining inductionHypothesis =>
    apply Errand.Settled.bind Errand.Settled.get
    intro worker _
    exact Errand.Settled.bind (settled_request unspliced _) fun _ _ => inductionHypothesis

/-- All of a worker's work is settled without splices: its samples, its requests and the report at
the end. -/
theorem settled_run (unspliced : engine.settings.Unspliced) :
    Settled plan engine files (fun _ => True) (run : Work σ Report) := by
  apply Errand.Settled.bind Errand.Settled.get
  intro worker _
  apply Errand.Settled.bind (settled_generateAll _)
  intro _ _
  apply Errand.Settled.bind Errand.Settled.get
  intro worker _
  refine Errand.Settled.bind (Errand.Settled.note fun _ => takes_noted _ _) fun _ _ => ?_
  apply Errand.Settled.bind (settled_requestAll unspliced _)
  intro _ _
  exact Errand.Settled.bind Errand.Settled.get fun worker _ => Errand.Settled.pure trivial

end Worker

/-- What a worker does is foregone without splices. A worker whose mutator cannot be made ends at
once. -/
theorem foregone_workerProcess {configuration : Configuration}
    (unspliced : configuration.settings.Unspliced) (grammar : Grammar) (patience : Nat)
    (files : Files) (number : Nat) :
    ∃ ending trees, (workerProcess grammar configuration patience number).Foregone
      (configuration.plan.TakesOutputs files) ending trees := by
  unfold workerProcess Mutator.create
  cases made : Engine.ofSettings? grammar configuration.settings patience with
  | none => exact ⟨_, [], .done⟩
  | some engine =>
    obtain ⟨root, -, same⟩ := Option.map_eq_some_iff.mp made
    have own : engine.settings.Unspliced := by
      rw [← same]
      exact unspliced
    let start : Worker ChaCha :=
      { number
        plan := configuration.plan
        mutator := { engine }
        source := ChaCha.ofSeed (Worker.seedOf configuration.plan number) }
    have steady : start.Steady configuration.plan engine := ⟨rfl, rfl⟩
    have settled : Worker.Settled configuration.plan engine files (fun _ => True)
        (Worker.run : Work ChaCha Report) := Worker.settled_run own
    obtain ⟨result, worker, trees, foregone, -, -⟩ := settled start steady
    exact ⟨_, _, foregone.bind .done⟩

/-- The settings of a configuration that is accepted are valid, as its check includes theirs. -/
theorem settings_valid {configuration : Configuration}
    (accepted : configuration.validate = .ok ()) : configuration.settings.Valid :=
  (Configuration.validate_eq_ok_iff.mp accepted).2.2

/-- The counts that workers report, together. -/
def totalOf (endings : List (Ending ChaCha)) : Tally :=
  Tally.mergeAll ((endings.filterMap fun ending => ending.result.toOption).map Report.tally)

/-- The counts together do not depend on the order of the workers, nor on which of them have none to
report. -/
theorem totalOf_perm {left right : List (Ending ChaCha)} (same : left.Perm right) :
    totalOf left = totalOf right :=
  Tally.mergeAll_perm ((same.filterMap _).map _)

/-- The crew of a campaign at its start: workers of the given numbers. -/
def crewOf (grammar : Grammar) (configuration : Configuration) (patience : Nat)
    (numbers : List Nat) (shared : Shared) : Crew (Ending ChaCha) where
  shared
  members := numbers.map (workerProcess grammar configuration patience)

/-- Workers one after the other end as is foregone of each of them. The induction is on the workers,
and each leaves the files so that the next one's outputs are taken alike. -/
theorem results_runWorkers {grammar : Grammar} {configuration : Configuration} {patience : Nat}
    {files : Files} {ending : Nat → Ending ChaCha} {registers : Nat → List Tree}
    (foregone : ∀ number, (workerProcess grammar configuration patience number).Foregone
      (configuration.plan.TakesOutputs files) (ending number) (registers number))
    (numbers : List Nat) {shared : Shared} (takes : configuration.plan.TakesOutputs files shared) :
    (runWorkers grammar configuration patience numbers shared).1.map Prod.fst =
      numbers.map fun number => (ending number).result := by
  induction numbers generalizing shared with
  | nil => rfl
  | cons number numbers inductionHypothesis =>
    obtain ⟨ends, kept⟩ := (foregone number).alone takes
    simp only [runWorkers, runWorker, List.map_cons, ends, inductionHypothesis kept]

/-- Without splices workers are independent. In a configuration that is accepted let neither
splice have weight. Then, whatever the corpus holds at the start, each worker ends in one way: it
makes the same draws and the same samples, reports the same or stops for the same cause, and
registers the same trees in the same order, also if others have accesses between its own, as the
workers of the campaign may make them. So any workers that run side by side, listed in any order
and by any schedule, end as they do by themselves; their counts together are the same, and so are
the trees that they have registered, but for their order. There is a schedule that brings them to
their end, and to run them one after the other gives the same results. -/
theorem workers_independent {configuration : Configuration}
    (accepted : configuration.validate = .ok ())
    (splice : (configuration.settings.strategyWeights.splice == 0) = true)
    (repeatSplice : (configuration.settings.strategyWeights.repeatSplice == 0) = true)
    (grammar : Grammar) (patience : Nat) (files : Files) :
    ∃ (ending : Nat → Ending ChaCha) (registers : Nat → List Tree),
      (∀ (number : Nat) (shared : Shared) (others : Nat → List Access), shared.files = files →
        (∀ moment, ∀ access ∈ others moment, configuration.plan.Issues access) →
          (workerProcess grammar configuration patience number).amid others shared =
            (ending number, registers number)) ∧
      (∀ (numbers reordered : List Nat) (shared : Shared) (schedule : List Nat)
        (endings : List (Ending ChaCha)), reordered.Perm numbers → shared.files = files →
          ((crewOf grammar configuration patience reordered shared).after schedule).Ended endings →
            endings = reordered.map ending ∧
              totalOf endings = totalOf (numbers.map ending) ∧
                ((crewOf grammar configuration patience reordered shared).after
                  schedule).registered.Perm (numbers.flatMap registers)) ∧
      (∀ (numbers : List Nat) (shared : Shared), ∃ schedule endings,
        ((crewOf grammar configuration patience numbers shared).after schedule).Ended endings) ∧
      ∀ (numbers : List Nat) (shared : Shared), shared.files = files →
        (runWorkers grammar configuration patience numbers shared).1.map Prod.fst =
          numbers.map fun number => (ending number).result := by
  have unspliced : configuration.settings.Unspliced :=
    (settings_valid accepted).unspliced splice repeatSplice
  choose ending registers foregone using
    foregone_workerProcess unspliced grammar patience files
  refine ⟨ending, registers, ?amid, ?crews, fun numbers shared => Crew.exists_ended _,
    fun numbers shared same =>
      results_runWorkers foregone numbers (Plan.takesOutputs_of_files same)⟩
  case amid =>
    intro number shared others same issued
    exact (foregone number).amid (Plan.takesOutputs_of_files same)
      fun moment access member other takes => takes.grant (issued moment access member)
  case crews =>
    intro numbers reordered shared schedule endings order same ended
    have foresees : (crewOf grammar configuration patience reordered shared).Foresees
        (configuration.plan.TakesOutputs files)
        (reordered.map fun number => (ending number, registers number)) := by
      refine ⟨Plan.takesOutputs_of_files same, ?_⟩
      rw [crewOf, List.forall₂_map_left_iff, List.forall₂_map_right_iff, List.forall₂_same]
      exact fun number _ => foregone number
    obtain ⟨values, registered⟩ := foresees.ended ended
    rw [List.map_map] at values registered
    refine ⟨values, ?_, ?_⟩
    · rw [values]
      exact totalOf_perm (order.map ending)
    · exact registered.trans (order.flatMap_right registers)

/-- Two workers that replace nodes and edit repetitions, and splice nothing. -/
def unsplicing : Configuration where
  plan := { threads := 2, iterations := 1, initialSamples := 1 }
  settings := { rootSymbol := "list", strategyWeights := ⟨0.5, 0, 0.5, 0⟩ }

/-- With binary numerals both workers come to a report, which is the same with a tree in the
corpus as without. -/
theorem workers_independent_unsplicing :
    let results (corpus : Corpus) :=
      (runWorkers .numerals unsplicing 50 [0, 1] { corpus }).1.map Prod.fst
    results (Corpus.unbounded.register Grammar.one) = results .unbounded ∧
      (results .unbounded).all Except.isOk = true := by
  have accepted : unsplicing.validate = .ok () := rfl
  obtain ⟨ending, registers, -, -, -, results⟩ :=
    workers_independent accepted rfl rfl .numerals 50 {}
  constructor
  · exact (results [0, 1] _ rfl).trans (results [0, 1] _ rfl).symm
  · decide +kernel

end Campaign

end Graft
