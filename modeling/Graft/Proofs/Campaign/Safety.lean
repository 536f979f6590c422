import Graft.Proofs.Campaign.Books
import Graft.Proofs.Mutation.Names
import Graft.Proofs.Mutation.Safety

/-!
# Workers that cannot break

A worker keeps a sample from its first step on, has a tree for every sample that it
keeps, and is never refused a request. What it makes is read again as long as every
name is known to the grammar: its own trees bear such names only, and so it depends
on the corpus alone. With a configuration that is accepted, and without an output
directory, a worker comes to a report, then, unless it outlasts what can be waited
for.
-/

namespace Graft.Campaign

open Graft.Random

/-- The samples that are made in a step. -/
def Step.makes : Step → Nat
  | .generate | .request _ => 1
  | .announce => 0

/-- A plan makes its first samples and one for each request, if all goes well. -/
theorem Plan.sum_makes_steps (plan : Plan) :
    (plan.steps.map Step.makes).sum = plan.initialSamples + plan.iterations := by
  simp [steps, Step.makes, Function.comp_def]

/-- Before a request something has been made, since a plan begins with its first samples. -/
theorem Plan.makes_before_request {plan : Plan} (begins : 0 < plan.initialSamples)
    {front back : List Step} {iteration : Nat}
    (parts : plan.steps = front ++ .request iteration :: back) :
    0 < (front.map Step.makes).sum := by
  obtain ⟨others, first⟩ : ∃ others, plan.steps = .generate :: others := by
    obtain ⟨samples, enough⟩ := Nat.exists_eq_add_one.mpr begins
    rw [Plan.steps, enough, List.replicate_succ, List.cons_append]
    exact ⟨_, rfl⟩
  cases front with
  | nil =>
    rw [first] at parts
    cases parts
  | cons step front =>
    rw [first] at parts
    obtain rfl : .generate = step := (List.cons.inj parts).1
    exact Nat.lt_of_lt_of_le Nat.one_pos (Nat.le_add_right ..)

namespace Worker

variable {σ : Type} {worker next : Worker σ} {deeds : List Deed}

/-- The worker has made so many samples. All of them are read again, those that it keeps are among
them, and once it has made one it keeps one. -/
structure Made (worker : Worker σ) (count : Nat) : Prop where
  counted : worker.made.length = count
  readable : ∀ sample ∈ worker.made,
    ∃ tree, worker.mutator.engine.grammar.readSample sample = .ok tree
  kept : ∀ sample ∈ worker.samples, sample ∈ worker.made
  begun : 0 < count → 0 < worker.samples.size

/-- One more sample has been made when one is kept or known. If its rendering has been seen, that
was the rendering of a sample that is kept. -/
theorem Made.keep {count : Nat} (made : worker.Made count) (books : worker.Books deeds)
    {sample : Bytes} {more : List Deed} (keeps : worker.Keeps sample next more) :
    next.Made (count + 1) := by
  have readable {tree : Tree}
      (read : worker.mutator.engine.grammar.readSample sample = .ok tree) :
      ∀ other ∈ sample :: worker.made,
        ∃ tree, worker.mutator.engine.grammar.readSample other = .ok tree := by
    intro other member
    rcases List.mem_cons.mp member with rfl | member
    · exact ⟨tree, read⟩
    · exact made.readable other member
  cases keeps with
  | known tree read seen =>
    refine ⟨congrArg (· + 1) made.counted, readable read,
      fun other member => List.mem_cons_of_mem _ (made.kept other member), fun _ => ?_⟩
    have held : 0 < worker.novelty.size := List.length_pos_of_mem seen
    exact books.size ▸ held
  | novel tree size read unseen =>
    refine ⟨congrArg (· + 1) made.counted, readable read, fun other member => ?_, fun _ => ?_⟩
    · rcases Array.mem_push.mp member with old | rfl
      · exact List.mem_cons_of_mem _ (made.kept other old)
      · exact List.mem_cons_self
    · simp only [Array.size_push]
      exact Nat.succ_pos _

/-- A step makes its samples, whichever of them are kept. -/
theorem Made.step {count : Nat} (made : worker.Made count) (books : worker.Books deeds)
    {step : Step} {more : List Deed} (takes : worker.Takes step next more) :
    next.Made (count + step.makes) := by
  cases takes with
  | announced => exact made
  | generated source tree unchanging grown keeps =>
    have drawn : Made { worker with source } count :=
      ⟨made.counted, made.readable, made.kept, made.begun⟩
    exact drawn.keep (books.pass rfl rfl rfl rfl rfl unchanging) keeps
  | @requested _ before kept after iteration place context corpus source answer placed unchanging
      served keeps =>
    have engine : answer.1.engine = worker.mutator.engine := (served.answers rfl).1
    have answered : Made { worker with source, mutator := answer.1 } count :=
      ⟨made.counted, engine ▸ made.readable, made.kept, made.begun⟩
    have passed : Books { worker with source, mutator := answer.1 } (deeds ++ before) :=
      books.pass rfl rfl rfl rfl engine fun deed member =>
        unchanging deed (List.mem_append_left _ member)
    exact answered.keep passed keeps

/-- Steps make their samples. The induction is on the steps. -/
theorem Made.perform [Source σ] {count : Nat} {steps : List Step} (made : worker.Made count)
    (books : worker.Books deeds) {more : List Deed}
    (comes : Errand.Comes (perform steps : Work σ Unit) worker more (.ok ()) next) :
    next.Made (count + (steps.map Step.makes).sum) := by
  induction steps generalizing worker deeds count more with
  | nil =>
    obtain ⟨-, -, rfl⟩ := Errand.comes_pure.mp comes
    exact made
  | cons step steps inductionHypothesis =>
    obtain ⟨_, taken, first, second, taking, further, -⟩ := Errand.comes_bind_ok.mp comes
    have takes := takes_of_comes taking
    have all := inductionHypothesis (made.step books takes) (books.step takes) further
    rw [Nat.add_assoc] at all
    exact all

/-- A tree that the worker keeps is what a sample that it has made is read as. Contexts and samples
are kept side by side. -/
theorem Books.context_read (books : worker.Books deeds) {count : Nat} (made : worker.Made count)
    {context : Tree} (member : context ∈ worker.contexts) :
    ∃ sample ∈ worker.made, worker.mutator.engine.grammar.readSample sample = .ok context := by
  obtain ⟨place, placed⟩ := Array.mem_iff_getElem?.mp member
  have inside : place < worker.samples.size := by
    rw [books.lengths]
    exact (Array.getElem?_eq_some_iff.mp placed).1
  have sampled := Array.getElem?_eq_getElem inside
  exact ⟨worker.samples[place], made.kept _ (Array.getElem_mem inside),
    books.decoded place _ context sampled placed⟩

end Worker

/-- A worker outlasts what can be waited for: a loop goes on longer than the limit set for it, a
node would lie deeper than depths are counted, or a tree is made that no memory can hold. For
such a depth growth must be allowed every depth, or edits must have led there from a tree of a
sample, with nothing but trees that were at hand. -/
inductive Outlasts (engine : Engine) (atHand : Tree → Prop) (made : List Bytes) :
    Stop WorkerError → Prop where
  | impatient : Outlasts engine atHand made (.fault .patienceExhausted)
  | bottomless (unlimited : Depth.greatest ≤ engine.grammar.maxDepth) :
      Outlasts engine atHand made (.fault .depthUncountable)
  | deep (sample : Bytes) (context : Tree) (corpus : Nat → Corpus) (reached : Tree)
      (member : sample ∈ made) (read : engine.grammar.readSample sample = .ok context)
      (held : ∀ moment, ∀ tree ∈ (corpus moment).trees, atHand tree)
      (reaches : Reaches engine corpus context reached)
      (deep : Depth.greatest ≤ reached.innerHeight) :
      Outlasts engine atHand made (.fault .depthUncountable)
  | oversized (tree : Tree) (stop : Stop WorkerError) (huge : ¬ tree.Storable)
      (last : made.head? = some tree.toSample) : Outlasts engine atHand made stop

namespace Worker

variable {σ : Type} {worker next : Worker σ} {deeds before : List Deed}

/-- A worker without an output directory stumbles over a sample only if no memory can hold the tree.
That its names are unknown is ruled out, and so is an output that is refused. -/
theorem Stumbles.outlasts {sample : Bytes} {stop : Stop WorkerError}
    (stumbles : worker.Stumbles sample stop next deeds) (silent : worker.plan.outputDir = none)
    (written : ∃ tree : Tree, sample = tree.toSample ∧
      tree.NamedBy worker.mutator.engine.grammar) (engine : Engine) (atHand : Tree → Prop) :
    Outlasts engine atHand next.made stop := by
  cases stumbles with
  | unwritten tree directory cause read chosen =>
    rw [silent] at chosen
    cases chosen
  | unreadable refusal refused =>
    obtain ⟨tree, rfl, named⟩ := written
    refine .oversized tree _ (fun storable => ?_) rfl
    obtain ⟨read, same⟩ := Grammar.readSample_of_namedBy named storable
    rw [refused] at same
    cases same

/-- A worker that keeps its books, has been configured with valid settings and finds only known
names in the corpus stops in a step only if it outlasts what can be waited for. -/
theorem Halts.outlasts {step : Step} {stop : Stop WorkerError} {count : Nat}
    {atHand : Tree → Prop} (halts : worker.Halts step stop next deeds)
    (books : worker.Books before) (made : worker.Made count)
    (begun : ∀ iteration, step = .request iteration → 0 < count)
    (wellFormed : worker.mutator.engine.grammar.WellFormed)
    (valid : worker.mutator.engine.settings.Valid) (silent : worker.plan.outputDir = none)
    (held : ∀ corpus, ⟨.look, corpus⟩ ∈ deeds → ∀ tree ∈ corpus.trees, atHand tree)
    (named : ∀ tree, atHand tree → tree.NamedBy worker.mutator.engine.grammar) :
    Outlasts worker.mutator.engine atHand next.made stop := by
  -- At every moment the corpus holds only trees that are at hand.
  have known {corpus : Nat → Corpus} {some : List Deed} (found : Mutator.Found corpus some)
      (within : some ⊆ deeds) : ∀ moment, ∀ tree ∈ (corpus moment).trees, atHand tree := by
    intro moment tree member
    rcases found moment with empty | looked
    · rw [empty] at member
      exact absurd member (Array.not_mem_empty tree)
    · exact held _ (within looked) tree member
  -- The tree that a request starts from is that of a sample.
  have starts {place : Nat} {context : Tree} (placed : worker.contexts[place]? = some context) :
      ∃ sample ∈ worker.made, worker.mutator.engine.grammar.readSample sample = .ok context :=
    books.context_read made (Array.mem_of_getElem? placed)
  cases halts with
  | ungrown source fault unchanging abandons =>
    cases fault with
    | patienceExhausted => exact .impatient
    | depthUncountable => exact .bottomless abandons
    | _ => cases abandons
  | unkept source tree stop unchanging grown stumbles =>
    exact stumbles.outlasts silent ⟨tree, rfl, grown.namedBy wellFormed⟩ _ _
  | nothing iteration source none =>
    exact absurd none (Nat.ne_of_gt (made.begun (begun iteration rfl)))
  | missing iteration place source inside absent =>
    rw [books.lengths] at inside
    exact absurd absent (Option.ne_none_iff_exists'.mpr ⟨_, Array.getElem?_eq_getElem inside⟩)
  | abandoned iteration place context corpus source cause placed unchanging found abandons =>
    obtain ⟨sample, member, read⟩ := starts placed
    obtain ⟨fault, reached, rfl, reaches, abandons⟩ := abandons
    rcases abandons.of_valid valid with rfl | ⟨rfl, unlimited | deep⟩
    · exact .impatient
    · exact .bottomless unlimited
    · exact .deep sample context corpus reached member read (known found (List.Subset.refl _))
        reaches deep
  | @unanswered _ earlier last iteration place context corpus source answer stop placed unchanging
      found served stumbles =>
    obtain ⟨sample, member, read⟩ := starts placed
    have bound := ((Grammar.readSample_eq_ok_iff wellFormed).mp read).2.1.namedBy
    have shared := known found (List.subset_append_left earlier last)
    have written := served.namedBy wellFormed
      (fun moment other present => named other (shared moment other present)) bound
    have engine : answer.1.engine = worker.mutator.engine := (served.answers rfl).1
    exact stumbles.outlasts silent (engine ▸ written) _ _

/-- The worker has not made anything yet, so that what is said of all it has made holds. -/
theorem Fresh.nothing (fresh : worker.Fresh) : worker.Made 0 where
  counted := congrArg List.length fresh.made
  readable := by
    rw [fresh.made]
    exact List.forall_mem_nil _
  kept := by
    rw [fresh.samples]
    exact fun sample member => absurd member (Array.not_mem_empty sample)
  begun := nofun

variable [Source σ]

/-- A worker that comes to a report has made the samples of its plan, and its books are in order. -/
theorem made_of_run (fresh : worker.Fresh) {report : Report}
    (comes : Errand.Comes (run : Work σ Report) worker deeds (.ok report) next) :
    next.Books deeds ∧ next.Made (worker.plan.initialSamples + worker.plan.iterations) ∧
      next.mutator.engine = worker.mutator.engine := by
  obtain ⟨steps, -⟩ := comes_run_ok comes
  have made := fresh.nothing.perform fresh.books steps
  rw [Plan.sum_makes_steps, Nat.zero_add] at made
  exact ⟨(fresh.books.perform steps).1, made, (steady_of_perform steps).2.2⟩

/-- A worker that stops halts in a step, with its books in order before that step. What it has done
before is then as if it had gone on. -/
theorem halts_of_run (fresh : worker.Fresh) {stop : Stop WorkerError}
    (comes : Errand.Comes (run : Work σ Report) worker deeds (.error stop) next) :
    ∃ (front : List Step) (step : Step) (back : List Step) (between : Worker σ)
      (first second : List Deed), worker.plan.steps = front ++ step :: back ∧
      between.plan = worker.plan ∧ between.mutator.engine = worker.mutator.engine ∧
        between.Books first ∧ between.Made (front.map Step.makes).sum ∧
          between.Halts step stop next second ∧ deeds = first ++ second := by
  obtain ⟨ended, steps, same⟩ := comes_run comes
  cases ended with
  | ok value => cases same
  | error cause =>
    obtain rfl := Except.error.inj same
    obtain ⟨front, step, back, parts, between, first, second, performed, halting, rfl⟩ :=
      comes_perform_error steps
    obtain ⟨-, plan, engine⟩ := steady_of_perform performed
    have made := fresh.nothing.perform fresh.books performed
    rw [Nat.zero_add] at made
    exact ⟨front, step, back, between, first, second, parts, plan, engine,
      (fresh.books.perform performed).1, made, halts_of_comes halting, rfl⟩

/-- Whatever a worker comes to, what it has put into the corpus are trees of samples that it has
made. A step in which it stops puts nothing there. -/
theorem registered_read (fresh : worker.Fresh) {result : Except (Stop WorkerError) Report}
    (comes : Errand.Comes (run : Work σ Report) worker deeds result next) {tree : Tree}
    (member : tree ∈ registeredBy deeds) :
    ∃ sample ∈ next.made, worker.mutator.engine.grammar.readSample sample = .ok tree := by
  cases result with
  | ok report =>
    obtain ⟨books, made, engine⟩ := made_of_run fresh comes
    rw [books.registered] at member
    rw [← engine]
    exact books.context_read made (Array.mem_toList_iff.mp member)
  | error stop =>
    obtain ⟨front, step, back, between, first, second, -, -, engine, books, made, halts, rfl⟩ :=
      halts_of_run fresh comes
    rw [registeredBy_append, halts.registers_nothing, List.append_nil, books.registered] at member
    obtain ⟨sample, kept, read⟩ := books.context_read made (Array.mem_toList_iff.mp member)
    rw [← engine]
    exact ⟨sample, halts.made kept, read⟩

/-- A worker with valid settings and no output directory stops only if it outlasts what can be
waited for, if it finds only known names in the corpus. -/
theorem outlasts_of_run (fresh : worker.Fresh) {stop : Stop WorkerError}
    (comes : Errand.Comes (run : Work σ Report) worker deeds (.error stop) next)
    (begins : 0 < worker.plan.initialSamples)
    (wellFormed : worker.mutator.engine.grammar.WellFormed)
    (valid : worker.mutator.engine.settings.Valid) (silent : worker.plan.outputDir = none)
    {atHand : Tree → Prop}
    (held : ∀ corpus, ⟨.look, corpus⟩ ∈ deeds → ∀ tree ∈ corpus.trees, atHand tree)
    (named : ∀ tree, atHand tree → tree.NamedBy worker.mutator.engine.grammar) :
    Outlasts worker.mutator.engine atHand next.made stop := by
  obtain ⟨front, step, back, between, first, second, parts, plan, engine, books, made, halts,
    rfl⟩ := halts_of_run fresh comes
  rw [← engine] at wellFormed valid named ⊢
  refine halts.outlasts books made (fun iteration same => ?_) wellFormed valid (plan ▸ silent)
    (fun corpus looked => held corpus (List.mem_append_right _ looked)) named
  rw [same] at parts
  exact Plan.makes_before_request begins parts

end Worker

/-- The trees that a worker can come across: those that are in the corpus at its start, those that
others put there and those of the samples that it has made itself. -/
def AtHand (grammar : Grammar) (shared : Shared) (others : Nat → List Access) (made : List Bytes)
    (tree : Tree) : Prop :=
  tree ∈ shared.corpus.trees ∨ (∃ moment, ∃ access ∈ others moment, tree ∈ access.registered) ∨
    ∃ sample ∈ made, grammar.readSample sample = .ok tree

/-- A worker comes to a report when it has made all the samples of its plan, and all of them are
read again, or it outlasts what can be waited for. -/
inductive Endures (configuration : Configuration) (engine : Engine) (atHand : Tree → Prop)
    (ending : Ending ChaCha) : Prop where
  | reported (report : Report) (ended : ending.result = .ok report)
      (counted : ending.made.length =
        configuration.plan.initialSamples + configuration.plan.iterations)
      (readable : ∀ sample ∈ ending.made, ∃ tree, engine.grammar.readSample sample = .ok tree)
  | outlasting (stop : Stop WorkerError) (ended : ending.result = .error stop)
      (outlasts : Outlasts engine atHand ending.made stop)

/-- A worker cannot break. Let a grammar be declared without being refused, let it have the root
symbol of a configuration that is accepted, or that options and files configure, and let the
configuration ask for no output directory. Then the worker comes to a report unless it outlasts
what can be waited for, with any seed and number, whatever trees are in the corpus and whatever
the others put there meanwhile, if only the grammar knows all names that these trees bear. The
same holds of a worker that runs by itself. -/
theorem workers_endure {declarations : List Declaration} {grammar : Grammar}
    (built : Grammar.ofDeclarations declarations = .ok grammar) {configuration : Configuration}
    (accepted : configuration.validate = .ok () ∨
      ∃ options files, configure options files = .ok configuration)
    (silent : configuration.plan.outputDir = none) {root : Symbol}
    (rooted : grammar.symbol? configuration.settings.rootSymbol = some root)
    (patience number : Nat) {shared : Shared}
    (held : ∀ tree ∈ shared.corpus.trees, tree.NamedBy grammar) :
    let engine : Engine := { grammar, settings := configuration.settings, root, patience }
    let process := workerProcess grammar configuration patience number
    (∀ others : Nat → List Access,
      (∀ moment, ∀ access ∈ others moment, ∀ tree ∈ access.registered, tree.NamedBy grammar) →
        let ending := (process.amid others shared).1
        Endures configuration engine (AtHand grammar shared others ending.made) ending) ∧
    ∃ ending, (runWorker grammar configuration patience number shared).1 = ending.result ∧
      Endures configuration engine (AtHand grammar shared (fun _ => []) ending.made) ending := by
  intro engine process
  suffices amid : ∀ others : Nat → List Access,
      (∀ moment, ∀ access ∈ others moment, ∀ tree ∈ access.registered, tree.NamedBy grammar) →
        Endures configuration engine
          (AtHand grammar shared others (process.amid others shared).1.made)
          (process.amid others shared).1 by
    refine ⟨amid, _, ?_, amid (fun _ => []) fun _ _ member => nomatch member⟩
    rw [runWorker, Process.amid_nobody]
  intro others added
  obtain ⟨-, begins, valid⟩ := Configuration.validate_eq_ok_iff.mp
    (accepted.elim id fun ⟨_, _, configured⟩ => validate_of_configure configured)
  have created : Mutator.create grammar configuration.settings patience = .ok { engine } :=
    Mutator.create_eq_ok_iff.mpr ⟨root, rooted, rfl⟩
  obtain ⟨deeds, comes, looks⟩ := process.amid_comes others shared
  generalize (process.amid others shared).1 = ending at comes ⊢
  obtain ⟨final, runs, made⟩ := comes_of_workerProcess created comes
  have fresh : Worker.Fresh (σ := ChaCha)
      { number
        plan := configuration.plan
        mutator := { engine }
        source := ChaCha.ofSeed (Worker.seedOf configuration.plan number) } :=
    ⟨rfl, rfl, rfl, rfl, rfl⟩
  cases result : ending.result with
  | ok report =>
    rw [result] at runs
    obtain ⟨-, all, same⟩ := Worker.made_of_run fresh runs
    have readable := all.readable
    rw [same] at readable
    rw [← made] at readable
    exact .reported report result (made ▸ all.counted) readable
  | error stop =>
    refine .outlasting stop result ?_
    rw [made]
    have wellFormed := Grammar.wellFormed_of_ofDeclarations built
    refine Worker.outlasts_of_run fresh (result ▸ runs) (Nat.pos_of_ne_zero begins)
      wellFormed valid silent
      (fun corpus looked tree member => ?_) ?_
    · refine (looks corpus looked tree member).imp_right (Or.imp_right fun own => ?_)
      exact Worker.registered_read fresh runs own
    · rintro tree (start | ⟨moment, access, among, other⟩ | ⟨sample, -, read⟩)
      · exact held tree start
      · exact added moment access among tree other
      · exact ((Grammar.readSample_eq_ok_iff wellFormed).mp read).2.1.namedBy

/-- A worker that does nothing but splice, once. -/
def splicing : Configuration where
  plan := { initialSamples := 1, iterations := 1 }
  settings := { rootSymbol := "list", strategyWeights := ⟨0, 1, 0, 0⟩ }

/-- Among binary numerals a tree is spliced that is none, though it bears their names. The worker
goes on all the same. -/
theorem workers_endure_splicing :
    let odd : Tree := .expansion (.plain 0 "list") [.expansion (.plain 1 "digit") []]
    let shared : Shared := { corpus := Corpus.unbounded.register odd }
    (∃ ending, (runWorker .numerals splicing 50 0 shared).1 = ending.result ∧
      Endures splicing
        { grammar := .numerals
          settings := splicing.settings
          root := .repetition 0 "list" (.plain 1 "digit")
          patience := 50 }
        (AtHand .numerals shared (fun _ => []) ending.made) ending) ∧
      (runWorker .numerals splicing 50 0 shared).1.isOk = true := by
  have accepted : splicing.validate = .ok () := rfl
  refine ⟨(workers_endure Grammar.ofDeclarations_numerals (.inl accepted) rfl rfl 50 0
    fun tree member => ?_).2, by decide +kernel⟩
  obtain rfl := Array.mem_singleton.mp member
  decide

/-- A name that the grammar does not know breaks a worker: it splices a tree of the corpus and
cannot read what it has made. -/
theorem unknown_name_breaks_worker :
    let odd : Tree := .expansion (.plain 0 "odd") [.expansion (.plain 1 "digit") []]
    Grammar.ofDeclarations Grammar.numerals.declarations = .ok .numerals ∧
      splicing.validate = .ok () ∧ splicing.plan.outputDir = none ∧
        Grammar.numerals.symbol? splicing.settings.rootSymbol =
          some (.repetition 0 "list" (.plain 1 "digit")) ∧
          (runWorker .numerals splicing 50 0 { corpus := Corpus.unbounded.register odd }).1 =
            .error (.error (.sample (.unknownSymbol "odd"))) := by
  refine ⟨rfl, rfl, rfl, rfl, ?_⟩
  decide +kernel

end Graft.Campaign
