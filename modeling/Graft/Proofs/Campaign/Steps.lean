import Graft.Campaign.Worker
import Graft.Proofs.Mutation.Errand

/-!
# The steps of a worker

A worker that comes to a report goes through its plan step by step: it generates
its first samples, announces itself, and makes its requests. Each of these steps
is taken apart here, function by function, into what it finds, what it leaves of
the worker and what it does to what is shared, whatever replies it gets.
-/

namespace Graft.Campaign

open Graft.Random

/-- A rendering that has been seen is not novel, and seeing it again changes nothing. -/
theorem Novelty.observe_of_seen {novelty : Novelty} {rendering : Bytes}
    (seen : Md5.digest rendering ∈ novelty.seen) : novelty.observe rendering = (none, novelty) := by
  simp [observe, seen]

/-- A rendering that has not been seen is novel, and has been seen then. -/
theorem Novelty.observe_of_unseen {novelty : Novelty} {rendering : Bytes}
    (unseen : Md5.digest rendering ∉ novelty.seen) :
    novelty.observe rendering =
      (some (Md5.digest rendering), { seen := Md5.digest rendering :: novelty.seen }) := by
  simp [observe, unseen]

/-- The files that a rendering is written to: one in the output directory that is named for its
digest, if the plan asks for it. -/
def Plan.outputs (plan : Plan) (rendering : Bytes) : List (String × Bytes) :=
  match plan.outputDir with
  | none => []
  | some directory => [(FilePath.join directory (Md5.digest rendering).hex, rendering)]

namespace Worker

variable {σ : Type} {worker next : Worker σ} {deeds : List Deed}

/-! ## What a worker does with what it is given -/

/-- Work goes on only with a value. Nothing is done where the value is passed on. -/
theorem comes_orReport {ε α : Type} {wrap : ε → WorkerError} {result : Except (Stop ε) α}
    {value : α}
    (comes : Errand.Comes (orReport wrap result : Work σ α) worker deeds (.ok value) next) :
    result = .ok value ∧ deeds = [] ∧ next = worker := by
  cases result with
  | ok found =>
    obtain ⟨rfl, same, rfl⟩ := Errand.comes_pure.mp comes
    obtain rfl := Except.ok.inj same
    exact ⟨rfl, rfl, rfl⟩
  | error stop =>
    obtain ⟨-, ⟨⟩, -⟩ := Errand.comes_throw.mp comes

/-- An errand of the mutator leaves the worker its own state, but for the source. Its deeds are
those of the worker. -/
theorem comes_carry {α : Type} {errand : Errand (Stop MutationError) σ α}
    {result : Except (Stop WorkerError) α} :
    Errand.Comes (carry errand : Work σ α) worker deeds result next ↔
      ∃ answer source, errand.Comes worker.source deeds answer source ∧
        result = answer.mapError (fun stop => stop.mapError .mutation) ∧
          next = { worker with source } := by
  refine Process.comesTo_bind.trans ?_
  constructor
  · rintro ⟨⟨answer, source⟩, first, second, comes, last, rfl⟩
    obtain ⟨rfl, same⟩ := Process.comesTo_done.mp last
    obtain ⟨rfl, rfl⟩ := Prod.mk.inj same
    rw [List.append_nil]
    exact ⟨answer, source, comes, rfl, rfl⟩
  · rintro ⟨answer, source, comes, rfl, rfl⟩
    exact ⟨(answer, source), deeds, [], comes, .done, (List.append_nil _).symm⟩

/-- An errand of the mutator that gives the worker a value has come to that value, by the same
deeds. -/
theorem comes_carry_ok {α : Type} {errand : Errand (Stop MutationError) σ α} {value : α}
    (comes : Errand.Comes (carry errand : Work σ α) worker deeds (.ok value) next) :
    ∃ source, errand.Comes worker.source deeds (.ok value) source ∧
      next = { worker with source } := by
  obtain ⟨answer, source, comes, same, rfl⟩ := comes_carry.mp comes
  cases answer with
  | error stop => cases same
  | ok found =>
    obtain rfl := Except.ok.inj same
    exact ⟨source, comes, rfl⟩

/-- An output that is not refused is written, by a single deed. -/
theorem comes_writeOutput {directory : String} {digest : Md5.Digest} {rendering : Bytes}
    (comes : Errand.Comes (writeOutput directory digest rendering : Work σ Unit) worker deeds
      (.ok ()) next) :
    deeds = [⟨.write (FilePath.join directory digest.hex) rendering, .ok ()⟩] ∧
      next = worker := by
  obtain ⟨reply, _, first, second, asked, ended, rfl⟩ := Errand.comes_bind_ok.mp comes
  obtain ⟨written, rfl, same, rfl⟩ := Errand.comes_ask.mp asked
  obtain rfl := Except.ok.inj same
  cases reply with
  | error cause =>
    obtain ⟨-, ⟨⟩, -⟩ := Errand.comes_throw.mp ended
  | ok value =>
    obtain ⟨rfl, -, rfl⟩ := Errand.comes_pure.mp ended
    exact ⟨rfl, rfl⟩

/-! ## Keeping a sample -/

/-- What a worker does with a sample that it has made. The sample is read. If its rendering has
been seen, nothing is done; and if not, it is written out if the plan asks for it, the tree enters
the corpus, and the worker keeps both. -/
inductive Keeps (worker : Worker σ) (sample : Bytes) : Worker σ → List Deed → Prop where
  | known (tree : Tree) (read : worker.mutator.engine.grammar.readSample sample = .ok tree)
      (seen : Md5.digest tree.render ∈ worker.novelty.seen) :
      Keeps worker sample { worker with made := sample :: worker.made } []
  | novel (tree : Tree) (size : Nat)
      (read : worker.mutator.engine.grammar.readSample sample = .ok tree)
      (unseen : Md5.digest tree.render ∉ worker.novelty.seen) :
      Keeps worker sample
        { worker with
          made := sample :: worker.made
          novelty := { seen := Md5.digest tree.render :: worker.novelty.seen }
          contexts := worker.contexts.push tree
          samples := worker.samples.push sample }
        ((worker.plan.outputs tree.render).map Deed.writing ++ [⟨.register tree, size⟩])

/-- The tree of a sample that is to be kept enters the corpus, and the worker keeps both, each
behind those that it has kept before. -/
theorem comes_created {mutator : Mutator} {sample : Bytes} {tree : Tree}
    (read : mutator.engine.grammar.readSample sample = .ok tree)
    (comes : Errand.Comes (do
        let tree ← carry (mutator.creatingContext sample)
        modify fun worker => { worker with contexts := worker.contexts.push tree }
        modify fun worker => { worker with samples := worker.samples.push sample } : Work σ Unit)
      worker deeds (.ok ()) next) :
    ∃ size, deeds = [⟨.register tree, size⟩] ∧
      next = { worker with
        contexts := worker.contexts.push tree, samples := worker.samples.push sample } := by
  obtain ⟨_, _, _, _, created, further, rfl⟩ := Errand.comes_bind_ok.mp comes
  obtain ⟨source, own, rfl⟩ := comes_carry_ok created
  have known := Mutator.comes_creatingContext.mp own
  rw [read] at known
  obtain ⟨⟨size, rfl⟩, same, rfl⟩ := known
  obtain rfl := Except.ok.inj same
  obtain ⟨rfl, -, rfl⟩ := Errand.comes_modify.mp (Errand.comes_modify_bind.mp further)
  exact ⟨size, rfl, rfl⟩

/-- A sample that a worker has not stumbled over is kept or known. What keeping does is told here
once, and not unfolded again. -/
theorem keeps_of_comes {sample : Bytes}
    (comes : Errand.Comes (keepIfNovel sample) worker deeds (.ok ()) next) :
    worker.Keeps sample next deeds := by
  replace comes := Errand.comes_get_bind.mp (Errand.comes_modify_bind.mp comes)
  obtain ⟨tree, _, _, _, readable, further, rfl⟩ := Errand.comes_bind_ok.mp comes
  obtain ⟨read, rfl, rfl⟩ := comes_orReport readable
  by_cases seen : Md5.digest tree.render ∈ worker.novelty.seen
  · simp only [Novelty.observe_of_seen seen] at further
    obtain ⟨rfl, -, rfl⟩ := Errand.comes_pure.mp (Errand.comes_set_bind.mp further)
    exact .known tree read seen
  · simp only [Novelty.observe_of_unseen seen] at further
    replace further := Errand.comes_set_bind.mp further
    rw [List.nil_append]
    have novel := @Keeps.novel σ worker sample tree
    split at further
    · next directory chosen =>
      obtain ⟨_, _, _, _, written, created, rfl⟩ := Errand.comes_bind_ok.mp further
      obtain ⟨rfl, rfl⟩ := comes_writeOutput written
      obtain ⟨size, rfl, rfl⟩ := comes_created read created
      rw [Plan.outputs, chosen] at novel
      exact novel size read seen
    · next unasked =>
      obtain ⟨size, rfl, rfl⟩ := comes_created read further
      rw [Plan.outputs, unasked] at novel
      exact novel size read seen

/-- How a worker stops over a sample that it has made: it cannot read it, or it cannot write its
rendering. -/
inductive Stumbles (worker : Worker σ) (sample : Bytes) :
    Stop WorkerError → Worker σ → List Deed → Prop where
  | unreadable (refusal : Sample.Refusal)
      (refused : worker.mutator.engine.grammar.readSample sample = .error refusal) :
      Stumbles worker sample (refusal.mapError .sample)
        { worker with made := sample :: worker.made } []
  | unwritten (tree : Tree) (directory : String) (cause : FileError)
      (read : worker.mutator.engine.grammar.readSample sample = .ok tree)
      (chosen : worker.plan.outputDir = some directory) :
      Stumbles worker sample
        (.error (.output (FilePath.join directory (Md5.digest tree.render).hex) cause))
        { worker with
          made := sample :: worker.made
          novelty := { seen := Md5.digest tree.render :: worker.novelty.seen } }
        [⟨.write (FilePath.join directory (Md5.digest tree.render).hex) tree.render, .error cause⟩]

/-- A sample that a worker stumbles over has been made, which is noted before anything else is done
with it. -/
theorem Stumbles.made {sample : Bytes} {stop : Stop WorkerError}
    (stumbles : worker.Stumbles sample stop next deeds) : next.made = sample :: worker.made := by
  cases stumbles <;> rfl

/-- A sample that a worker stumbles over does not get into the corpus. Its output is written before,
and its names are looked up before that. -/
theorem Stumbles.registers_nothing {sample : Bytes} {stop : Stop WorkerError}
    (stumbles : worker.Stumbles sample stop next deeds) : registeredBy deeds = [] := by
  cases stumbles <;> rfl

/-- Once its sample is read, a tree enters the corpus without fail, as the corpus refuses none. -/
theorem not_comes_created {mutator : Mutator} {sample : Bytes} {tree : Tree}
    {stop : Stop WorkerError} (read : mutator.engine.grammar.readSample sample = .ok tree)
    (comes : Errand.Comes (do
        let tree ← carry (mutator.creatingContext sample)
        modify fun worker => { worker with contexts := worker.contexts.push tree }
        modify fun worker => { worker with samples := worker.samples.push sample } : Work σ Unit)
      worker deeds (.error stop) next) : False := by
  obtain ⟨_, created, ⟨⟩⟩ | ⟨_, _, _, _, -, further, -⟩ := Errand.comes_bind.mp comes
  · obtain ⟨answer, source, own, failed, -⟩ := comes_carry.mp created
    have known := Mutator.comes_creatingContext.mp own
    rw [read] at known
    obtain ⟨-, rfl, -⟩ := known
    cases failed
  · obtain ⟨-, ⟨⟩, -⟩ := Errand.comes_modify.mp (Errand.comes_modify_bind.mp further)

/-- An output that is refused is reported with its path and the cause, and is not tried again. -/
theorem comes_writeOutput_error {directory : String} {digest : Md5.Digest} {rendering : Bytes}
    {stop : Stop WorkerError}
    (comes : Errand.Comes (writeOutput directory digest rendering : Work σ Unit) worker deeds
      (.error stop) next) :
    ∃ cause, deeds = [⟨.write (FilePath.join directory digest.hex) rendering, .error cause⟩] ∧
      stop = .error (.output (FilePath.join directory digest.hex) cause) ∧ next = worker := by
  obtain ⟨_, asked, ⟨⟩⟩ | ⟨reply, _, first, second, asked, ended, rfl⟩ := Errand.comes_bind.mp comes
  · obtain ⟨_, _, ⟨⟩, -⟩ := Errand.comes_ask.mp asked
  obtain ⟨written, rfl, same, rfl⟩ := Errand.comes_ask.mp asked
  obtain rfl := Except.ok.inj same
  cases reply with
  | ok value =>
    obtain ⟨-, ⟨⟩, -⟩ := Errand.comes_pure.mp ended
  | error cause =>
    obtain ⟨rfl, same, rfl⟩ := Errand.comes_throw.mp ended
    exact ⟨cause, rfl, Except.error.inj same, rfl⟩

/-- A worker stops over a sample only in these two ways: the sample is not read, or its output is
refused. -/
theorem stumbles_of_comes {sample : Bytes} {stop : Stop WorkerError}
    (comes : Errand.Comes (keepIfNovel sample) worker deeds (.error stop) next) :
    worker.Stumbles sample stop next deeds := by
  replace comes := Errand.comes_get_bind.mp (Errand.comes_modify_bind.mp comes)
  cases read : worker.mutator.engine.grammar.readSample sample with
  | error refusal =>
    simp only [read] at comes
    obtain ⟨_, reported, same⟩ | ⟨_, _, _, _, readable, -⟩ := Errand.comes_bind.mp comes
    · obtain ⟨rfl, failed, rfl⟩ := Errand.comes_throw.mp reported
      obtain rfl := Except.error.inj failed
      obtain rfl := Except.error.inj same
      exact .unreadable refusal read
    · obtain ⟨same, -⟩ := comes_orReport readable
      cases same
  | ok tree =>
    simp only [read] at comes
    obtain ⟨_, reported, -⟩ | ⟨_, _, _, _, readable, further, rfl⟩ := Errand.comes_bind.mp comes
    · obtain ⟨-, ⟨⟩, -⟩ := Errand.comes_pure.mp reported
    obtain ⟨same, rfl, rfl⟩ := comes_orReport readable
    obtain rfl := Except.ok.inj same
    by_cases seen : Md5.digest tree.render ∈ worker.novelty.seen
    · simp only [Novelty.observe_of_seen seen] at further
      obtain ⟨-, ⟨⟩, -⟩ := Errand.comes_pure.mp (Errand.comes_set_bind.mp further)
    · simp only [Novelty.observe_of_unseen seen] at further
      replace further := Errand.comes_set_bind.mp further
      rw [List.nil_append]
      split at further
      · next directory chosen =>
        obtain ⟨_, written, same⟩ | ⟨_, _, _, _, written, created, -⟩ :=
          Errand.comes_bind.mp further
        · obtain ⟨cause, rfl, rfl, rfl⟩ := comes_writeOutput_error written
          obtain rfl := Except.error.inj same
          exact .unwritten tree directory cause read chosen
        · obtain ⟨-, rfl⟩ := comes_writeOutput written
          exact (not_comes_created read created).elim
      · exact (not_comes_created read further).elim

end Worker

/-! ## Steps -/

/-- A step of a worker's plan. -/
inductive Step where
  | generate
  | announce
  | request (iteration : Nat)
deriving DecidableEq

/-- The steps of a plan, in their order. -/
def Plan.steps (plan : Plan) : List Step :=
  List.replicate plan.initialSamples .generate ++
    .announce :: (List.range plan.iterations).map .request

variable {σ : Type} [Source σ]

/-- What a worker does in a step. -/
def Step.work : Step → Work σ Unit
  | .generate => Worker.generate
  | .announce => do
    let worker ← get
    Errand.ask (.note (.workerStarted worker.number worker.samples.size))
  | .request iteration => Worker.request iteration

namespace Worker

variable {worker next : Worker σ} {deeds : List Deed}

/-- Take steps one after the other. -/
def perform : List Step → Work σ Unit
  | [] => pure ()
  | step :: steps => do
    step.work
    perform steps

/-- What a worker does in a step that it gets through: the sample that is made, and whether it is
kept. A request starts from the tree of a sample that the worker keeps. -/
inductive Takes (worker : Worker σ) : Step → Worker σ → List Deed → Prop where
  | generated {next : Worker σ} {before kept : List Deed} (source : σ) (tree : Tree)
      (unchanging : ∀ deed ∈ before, ¬ deed.access.Changes)
      (grown : worker.mutator.engine.grammar.GrowsAt worker.mutator.engine.root 0 tree)
      (keeps : Keeps { worker with source } tree.toSample next kept) :
      Takes worker .generate next (before ++ kept)
  | announced {deeds : List Deed} (unchanging : ∀ deed ∈ deeds, ¬ deed.access.Changes) :
      Takes worker .announce worker deeds
  | requested {next : Worker σ} {before kept after : List Deed} (iteration place : Nat)
      (context : Tree) (corpus : Nat → Corpus) (source : σ) (answer : Mutator × Bytes)
      (placed : worker.contexts[place]? = some context)
      (unchanging : ∀ deed ∈ before ++ after, ¬ deed.access.Changes)
      (served : (worker.mutator.initRound context).Served corpus context answer)
      (keeps : Keeps { worker with source, mutator := answer.1 } answer.2 next kept) :
      Takes worker (.request iteration) next (before ++ kept ++ after)

/-- A pick that succeeds is one of the trees that the worker keeps. It takes one word and no
deed. -/
theorem comes_pick {context : Tree}
    (comes : Errand.Comes (pick : Work σ Tree) worker deeds (.ok context) next) :
    deeds = [] ∧ next = { worker with source := (Source.next64 worker.source).2 } ∧
      ∃ place : Nat, worker.contexts[place]? = some context := by
  replace comes := Errand.comes_get_bind.mp comes
  replace comes := Errand.comes_set_bind.mp comes
  split at comes
  · obtain ⟨-, ⟨⟩, -⟩ := Errand.comes_throw.mp comes
  · dsimp only at comes
    split at comes
    · obtain ⟨-, ⟨⟩, -⟩ := Errand.comes_throw.mp comes
    · next found =>
      obtain ⟨rfl, same, rfl⟩ := Errand.comes_pure.mp comes
      obtain rfl := Except.ok.inj same
      exact ⟨rfl, rfl, _, found⟩

omit [Source σ] in
/-- To report progress changes nothing. It is only a look at the corpus and a note. -/
theorem comes_progress {iteration : Nat}
    (comes : Errand.Comes (do
        let worker ← get
        if worker.number = 0 ∧ 0 < iteration ∧
            iteration % max worker.plan.reportInterval 1 = 0 then
          let corpus : Corpus ← Errand.ask .look
          Errand.ask
            (.note (.progress iteration worker.plan.iterations worker.samples.size corpus.size)) :
        Work σ Unit) worker deeds (.ok ()) next) :
    next = worker ∧ ∀ deed ∈ deeds, ¬ deed.access.Changes := by
  replace comes := Errand.comes_get_bind.mp comes
  split at comes
  · obtain ⟨_, _, _, _, looked, noted, rfl⟩ := Errand.comes_bind_ok.mp comes
    obtain ⟨_, rfl, -, rfl⟩ := Errand.comes_ask.mp looked
    obtain ⟨_, rfl, -, rfl⟩ := Errand.comes_ask.mp noted
    refine ⟨rfl, fun deed member => ?_⟩
    rcases List.mem_cons.mp member with rfl | member
    · exact id
    · obtain rfl := List.mem_singleton.mp member
      exact id
  · obtain ⟨rfl, -, rfl⟩ := Errand.comes_pure.mp comes
    exact ⟨rfl, List.forall_mem_nil _⟩

/-- A request that a worker gets through starts from a tree that the worker keeps, is served with
what the looks on the way have found, and ends with its sample kept or known. -/
theorem requested_of_comes {iteration : Nat}
    (comes : Errand.Comes (request iteration : Work σ Unit) worker deeds (.ok ()) next) :
    ∃ (place : Nat) (context : Tree) (corpus : Nat → Corpus) (source : σ)
      (answer : Mutator × Bytes) (before kept after : List Deed),
      deeds = before ++ kept ++ after ∧ worker.contexts[place]? = some context ∧
        (∀ deed ∈ before ++ after, ¬ deed.access.Changes) ∧ Mutator.Found corpus before ∧
          (worker.mutator.initRound context).Served corpus context answer ∧
            Keeps { worker with source, mutator := answer.1 } answer.2 next kept := by
  obtain ⟨context, _, _, _, picked, further, rfl⟩ := Errand.comes_bind_ok.mp comes
  obtain ⟨rfl, rfl, place, placed⟩ := comes_pick picked
  replace further := Errand.comes_get_bind.mp further
  obtain ⟨answer, _, before, _, mutated, further, rfl⟩ := Errand.comes_bind_ok.mp further
  obtain ⟨source, own, rfl⟩ := comes_carry_ok mutated
  obtain ⟨corpus, found, served, -⟩ := Mutator.served_of_comes rfl own
  have unchanging := Mutator.unchanging_of_comes own
  replace further := Errand.comes_modify_bind.mp further
  obtain ⟨_, _, kept, after, keeps, reported, rfl⟩ := Errand.comes_bind_ok.mp further
  obtain ⟨rfl, passing⟩ := comes_progress reported
  refine ⟨place, context, corpus, source, answer, before, kept, after, ?_, placed, ?_, found,
    served answer rfl, keeps_of_comes keeps⟩
  · rw [List.nil_append, List.append_assoc]
  · exact fun deed member => (List.mem_append.mp member).elim (unchanging deed) (passing deed)

/-- A worker gets through a step only as it should. What steps keep is shown for each of these
ways. -/
theorem takes_of_comes {step : Step}
    (comes : Errand.Comes (step.work : Work σ Unit) worker deeds (.ok ()) next) :
    worker.Takes step next deeds := by
  cases step with
  | generate =>
    replace comes := Errand.comes_get_bind.mp comes
    obtain ⟨sample, _, _, _, generated, kept, rfl⟩ := Errand.comes_bind_ok.mp comes
    obtain ⟨source, own, rfl⟩ := comes_carry_ok generated
    obtain ⟨unchanging, grown, -⟩ := Mutator.grown_of_comes own
    obtain ⟨tree, rfl, grows⟩ := grown sample rfl
    exact .generated source tree unchanging grows (keeps_of_comes kept)
  | announce =>
    obtain ⟨_, rfl, -, rfl⟩ := Errand.comes_ask.mp (Errand.comes_get_bind.mp comes)
    refine .announced fun deed member => ?_
    obtain rfl := List.mem_singleton.mp member
    exact id
  | request iteration =>
    obtain ⟨place, context, corpus, source, answer, before, kept, after, rfl, placed, unchanging,
      -, served, keeps⟩ := requested_of_comes comes
    exact .requested iteration place context corpus source answer placed unchanging served keeps

/-- How a worker stops in a step: the mutator is abandoned, there is nothing to pick, or the worker
stumbles over the sample that has been made. -/
inductive Halts (worker : Worker σ) :
    Step → Stop WorkerError → Worker σ → List Deed → Prop where
  | ungrown {deeds : List Deed} (source : σ) (fault : Fault)
      (unchanging : ∀ deed ∈ deeds, ¬ deed.access.Changes)
      (abandons : worker.mutator.engine.grammar.Abandons fault) :
      Halts worker .generate (.fault fault) { worker with source } deeds
  | unkept {next : Worker σ} {before last : List Deed} (source : σ) (tree : Tree)
      (stop : Stop WorkerError) (unchanging : ∀ deed ∈ before, ¬ deed.access.Changes)
      (grown : worker.mutator.engine.grammar.GrowsAt worker.mutator.engine.root 0 tree)
      (stumbles : Stumbles { worker with source } tree.toSample stop next last) :
      Halts worker .generate stop next (before ++ last)
  | nothing (iteration : Nat) (source : σ) (none : worker.samples.size = 0) :
      Halts worker (.request iteration) (.fault .noKeptSample) { worker with source } []
  | missing (iteration place : Nat) (source : σ) (inside : place < worker.samples.size)
      (absent : worker.contexts[place]? = none) :
      Halts worker (.request iteration) (.fault (.positionPastEnd place worker.contexts.size))
        { worker with source } []
  | abandoned {deeds : List Deed} (iteration place : Nat) (context : Tree)
      (corpus : Nat → Corpus) (source : σ) (stop : Stop MutationError)
      (placed : worker.contexts[place]? = some context)
      (unchanging : ∀ deed ∈ deeds, ¬ deed.access.Changes) (found : Mutator.Found corpus deeds)
      (abandons : worker.mutator.engine.AbandonsAmid corpus context stop) :
      Halts worker (.request iteration) (stop.mapError .mutation) { worker with source } deeds
  | unanswered {next : Worker σ} {before last : List Deed} (iteration place : Nat)
      (context : Tree) (corpus : Nat → Corpus) (source : σ) (answer : Mutator × Bytes)
      (stop : Stop WorkerError) (placed : worker.contexts[place]? = some context)
      (unchanging : ∀ deed ∈ before, ¬ deed.access.Changes) (found : Mutator.Found corpus before)
      (served : (worker.mutator.initRound context).Served corpus context answer)
      (stumbles : Stumbles { worker with source, mutator := answer.1 } answer.2 stop next last) :
      Halts worker (.request iteration) stop next (before ++ last)

/-- A pick fails only for want of a sample or of its tree. The books rule out both, once a sample
has been made. -/
theorem comes_pick_error {stop : Stop WorkerError}
    (comes : Errand.Comes (pick : Work σ Tree) worker deeds (.error stop) next) :
    deeds = [] ∧ next = { worker with source := (Source.next64 worker.source).2 } ∧
      (worker.samples.size = 0 ∧ stop = .fault .noKeptSample ∨
        ∃ place, place < worker.samples.size ∧ worker.contexts[place]? = none ∧
          stop = .fault (.positionPastEnd place worker.contexts.size)) := by
  replace comes := Errand.comes_get_bind.mp comes
  replace comes := Errand.comes_set_bind.mp comes
  split at comes
  · next none =>
    obtain ⟨rfl, same, rfl⟩ := Errand.comes_throw.mp comes
    exact ⟨rfl, rfl, .inl ⟨none, Except.error.inj same⟩⟩
  · next some =>
    dsimp only at comes
    split at comes
    · next absent =>
      obtain ⟨rfl, same, rfl⟩ := Errand.comes_throw.mp comes
      exact ⟨rfl, rfl, .inr ⟨_, Nat.mod_lt _ (Nat.pos_of_ne_zero some), absent,
        Except.error.inj same⟩⟩
    · obtain ⟨-, ⟨⟩, -⟩ := Errand.comes_pure.mp comes

omit [Source σ] in
/-- Progress is reported without fail, since neither a look nor a note is refused. -/
theorem not_comes_progress {iteration : Nat} {stop : Stop WorkerError}
    (comes : Errand.Comes (do
        let worker ← get
        if worker.number = 0 ∧ 0 < iteration ∧
            iteration % max worker.plan.reportInterval 1 = 0 then
          let corpus : Corpus ← Errand.ask .look
          Errand.ask
            (.note (.progress iteration worker.plan.iterations worker.samples.size corpus.size)) :
        Work σ Unit) worker deeds (.error stop) next) : False := by
  replace comes := Errand.comes_get_bind.mp comes
  split at comes
  · obtain ⟨_, looked, -⟩ | ⟨_, _, _, _, -, noted, -⟩ := Errand.comes_bind.mp comes
    · obtain ⟨_, _, ⟨⟩, -⟩ := Errand.comes_ask.mp looked
    · obtain ⟨_, _, ⟨⟩, -⟩ := Errand.comes_ask.mp noted
  · obtain ⟨-, ⟨⟩, -⟩ := Errand.comes_pure.mp comes

/-- A worker stops in a step only in these ways, which are those of the mutator, of the pick and of
keeping a sample. -/
theorem halts_of_comes {step : Step} {stop : Stop WorkerError}
    (comes : Errand.Comes (step.work : Work σ Unit) worker deeds (.error stop) next) :
    worker.Halts step stop next deeds := by
  cases step with
  | generate =>
    replace comes := Errand.comes_get_bind.mp comes
    obtain ⟨_, generated, same⟩ | ⟨sample, _, _, _, generated, kept, rfl⟩ :=
      Errand.comes_bind.mp comes
    · obtain rfl := Except.error.inj same
      obtain ⟨answer, source, own, failed, rfl⟩ := comes_carry.mp generated
      obtain ⟨unchanging, -, known⟩ := Mutator.grown_of_comes own
      cases answer with
      | ok sample => cases failed
      | error cause =>
        obtain rfl := Except.error.inj failed
        obtain ⟨fault, rfl, abandons⟩ := known cause rfl
        exact .ungrown source fault unchanging abandons
    · obtain ⟨source, own, rfl⟩ := comes_carry_ok generated
      obtain ⟨unchanging, grown, -⟩ := Mutator.grown_of_comes own
      obtain ⟨tree, rfl, grows⟩ := grown sample rfl
      exact .unkept source tree stop unchanging grows (stumbles_of_comes kept)
  | announce =>
    obtain ⟨_, _, ⟨⟩, -⟩ := Errand.comes_ask.mp (Errand.comes_get_bind.mp comes)
  | request iteration =>
    obtain ⟨_, picked, same⟩ | ⟨context, _, _, _, picked, further, rfl⟩ :=
      Errand.comes_bind.mp comes
    · obtain rfl := Except.error.inj same
      obtain ⟨rfl, rfl, ⟨none, rfl⟩ | ⟨place, inside, absent, rfl⟩⟩ := comes_pick_error picked
      · exact .nothing iteration _ none
      · exact .missing iteration place _ inside absent
    obtain ⟨rfl, rfl, place, placed⟩ := comes_pick picked
    replace further := Errand.comes_get_bind.mp further
    rw [List.nil_append]
    obtain ⟨_, mutated, same⟩ | ⟨answer, _, before, _, mutated, further, rfl⟩ :=
      Errand.comes_bind.mp further
    · obtain rfl := Except.error.inj same
      obtain ⟨answer, source, own, failed, rfl⟩ := comes_carry.mp mutated
      obtain ⟨corpus, found, -, known⟩ := Mutator.served_of_comes rfl own
      cases answer with
      | ok answer => cases failed
      | error cause =>
        obtain rfl := Except.error.inj failed
        exact .abandoned iteration place context corpus source cause placed
          (Mutator.unchanging_of_comes own) found (known cause rfl)
    · obtain ⟨source, own, rfl⟩ := comes_carry_ok mutated
      obtain ⟨corpus, found, served, -⟩ := Mutator.served_of_comes rfl own
      replace further := Errand.comes_modify_bind.mp further
      obtain ⟨_, kept, same⟩ | ⟨_, _, _, _, -, reported, -⟩ := Errand.comes_bind.mp further
      · obtain rfl := Except.error.inj same
        exact .unanswered iteration place context corpus source answer _ placed
          (Mutator.unchanging_of_comes own) found (served answer rfl) (stumbles_of_comes kept)
      · exact (not_comes_progress reported).elim

omit [Source σ] in
/-- A step in which a worker stops puts nothing into the corpus. Only the tree of a sample that is
kept is put there, and after that a step does not stop any more. -/
theorem Halts.registers_nothing {step : Step} {stop : Stop WorkerError}
    (halts : worker.Halts step stop next deeds) : registeredBy deeds = [] := by
  cases halts with
  | ungrown source fault unchanging abandons => exact (nothing_of_unchanging unchanging).1
  | nothing | missing => rfl
  | abandoned iteration place context corpus source stop placed unchanging found abandons =>
    exact (nothing_of_unchanging unchanging).1
  | unkept source tree stop unchanging grown stumbles =>
    rw [registeredBy_append, (nothing_of_unchanging unchanging).1, stumbles.registers_nothing]
    rfl
  | unanswered iteration place context corpus source answer stop placed unchanging found served
      stumbles =>
    rw [registeredBy_append, (nothing_of_unchanging unchanging).1, stumbles.registers_nothing]
    rfl

omit [Source σ] in
/-- What a worker has made stays made in a step in which it stops. One sample may have been added to
it. -/
theorem Halts.made {step : Step} {stop : Stop WorkerError}
    (halts : worker.Halts step stop next deeds) : worker.made ⊆ next.made := by
  cases halts with
  | ungrown | nothing | missing | abandoned => exact List.Subset.refl _
  | unkept source tree stop unchanging grown stumbles =>
    rw [stumbles.made]
    exact List.subset_cons_self _ _
  | unanswered iteration place context corpus source answer stop placed unchanging found served
      stumbles =>
    rw [stumbles.made]
    exact List.subset_cons_self _ _

omit [Source σ] in
/-- To keep a sample leaves a worker its number, its plan and its mutator. Only what it has kept and
seen is changed. -/
theorem Keeps.steady {sample : Bytes} (keeps : worker.Keeps sample next deeds) :
    next.number = worker.number ∧ next.plan = worker.plan ∧ next.mutator = worker.mutator := by
  cases keeps <;> exact ⟨rfl, rfl, rfl⟩

omit [Source σ] in
/-- A step leaves a worker its number, its plan and the engine of its mutator. A request changes the
tally and what is bound. -/
theorem Takes.steady {step : Step} (takes : worker.Takes step next deeds) :
    next.number = worker.number ∧ next.plan = worker.plan ∧
      next.mutator.engine = worker.mutator.engine := by
  cases takes with
  | announced => exact ⟨rfl, rfl, rfl⟩
  | generated source tree unchanging grown keeps =>
    obtain ⟨number, plan, mutator⟩ := keeps.steady
    exact ⟨number, plan, congrArg _ mutator⟩
  | requested iteration place context corpus source answer placed unchanging served keeps =>
    obtain ⟨number, plan, mutator⟩ := keeps.steady
    exact ⟨number, plan, (congrArg _ mutator).trans (served.answers rfl).1⟩

/-! ## Plans -/

omit worker next deeds in
/-- Steps are taken in two parts, the second one only after the first. The induction is on the first
part. -/
theorem perform_append (front back : List Step) :
    (perform (front ++ back) : Work σ Unit) = (do
      perform front
      perform back) := by
  induction front with
  | nil => rfl
  | cons step front inductionHypothesis =>
    rw [List.cons_append, perform, inductionHypothesis, perform, Errand.bind_assoc]

/-- Steps leave a worker its number, its plan and the engine of its mutator. The induction is on the
steps. -/
theorem steady_of_perform {steps : List Step}
    (comes : Errand.Comes (perform steps : Work σ Unit) worker deeds (.ok ()) next) :
    next.number = worker.number ∧ next.plan = worker.plan ∧
      next.mutator.engine = worker.mutator.engine := by
  induction steps generalizing worker deeds with
  | nil =>
    obtain ⟨-, -, rfl⟩ := Errand.comes_pure.mp comes
    exact ⟨rfl, rfl, rfl⟩
  | cons step steps inductionHypothesis =>
    obtain ⟨value, taken, first, second, takes, further, -⟩ := Errand.comes_bind_ok.mp comes
    obtain ⟨number, plan, engine⟩ := (takes_of_comes takes).steady
    obtain ⟨lastNumber, lastPlan, lastEngine⟩ := inductionHypothesis further
    exact ⟨lastNumber.trans number, lastPlan.trans plan, lastEngine.trans engine⟩

/-- To generate samples is to take so many steps. The worker's loops are thereby both told by one
list of steps. -/
theorem generateAll_eq (samples : Nat) :
    (generateAll samples : Work σ Unit) = perform (List.replicate samples .generate) := by
  induction samples with
  | zero => rfl
  | succ samples inductionHypothesis =>
    rw [generateAll, inductionHypothesis]
    rfl

/-- To make requests is to take the steps of the plan that are left. The loop counts down and the
steps count up, which is why the plan comes into it. -/
theorem comes_requestAll {remaining : Nat} (within : remaining ≤ worker.plan.iterations)
    {result : Except (Stop WorkerError) Unit}
    (comes : Errand.Comes (requestAll remaining : Work σ Unit) worker deeds result next) :
    Errand.Comes (perform
      ((List.range' (worker.plan.iterations - remaining) remaining).map .request) : Work σ Unit)
      worker deeds result next := by
  induction remaining generalizing worker deeds with
  | zero => exact comes
  | succ remaining inductionHypothesis =>
    replace comes := Errand.comes_get_bind.mp comes
    have follows : worker.plan.iterations - (remaining + 1) + 1 =
        worker.plan.iterations - remaining := by omega
    rw [List.range'_succ, follows]
    obtain ⟨stop, halts, rfl⟩ | ⟨value, taken, first, second, takes, further, rfl⟩ :=
      Errand.comes_bind.mp comes
    · exact Errand.comes_bind.mpr (.inl ⟨stop, halts, rfl⟩)
    · have request : worker.Takes (.request _) taken first := takes_of_comes takes
      obtain ⟨-, plan, -⟩ := request.steady
      have left : remaining ≤ taken.plan.iterations := by
        rw [plan]
        omega
      have rest := inductionHypothesis left further
      rw [plan] at rest
      exact Errand.comes_bind.mpr (.inr ⟨value, taken, first, second, takes, rest, rfl⟩)

/-- What a worker reports in the end. -/
def summary (worker : Worker σ) : Report where
  worker := worker.number
  tally := worker.mutator.tally
  discovered := worker.novelty.size

/-- A worker takes the steps of its plan, and reports if it gets through all of them. A report is
made of what it then is. -/
theorem comes_run {result : Except (Stop WorkerError) Report}
    (comes : Errand.Comes (run : Work σ Report) worker deeds result next) :
    ∃ ended, Errand.Comes (perform worker.plan.steps : Work σ Unit) worker deeds ended next ∧
      result = ended.map fun _ => next.summary := by
  replace comes := Errand.comes_get_bind.mp comes
  rw [generateAll_eq] at comes
  have parts := perform_append (σ := σ) (List.replicate worker.plan.initialSamples .generate)
    (.announce :: (List.range worker.plan.iterations).map .request)
  obtain ⟨stop, halts, rfl⟩ | ⟨_, generated, first, _, generates, further, rfl⟩ :=
    Errand.comes_bind.mp comes
  · exact ⟨.error stop, parts ▸ Errand.comes_bind.mpr (.inl ⟨stop, halts, rfl⟩), rfl⟩
  obtain ⟨-, plan, -⟩ := steady_of_perform generates
  have follow {more : List Deed} {ended : Except (Stop WorkerError) Unit}
      (rest : Errand.Comes
        (perform (.announce :: (List.range worker.plan.iterations).map .request) : Work σ Unit)
        generated more ended next) :
      Errand.Comes (perform worker.plan.steps : Work σ Unit) worker (first ++ more) ended next :=
    parts ▸ Errand.comes_bind.mpr (.inr ⟨(), generated, first, more, generates, rest, rfl⟩)
  replace further := Errand.comes_get_bind.mp further
  obtain ⟨_, announces, -⟩ | ⟨_, announced, second, _, announces, last, rfl⟩ :=
    Errand.comes_bind.mp further
  · obtain ⟨_, _, ⟨⟩, -⟩ := Errand.comes_ask.mp announces
  obtain ⟨_, -, -, rfl⟩ := Errand.comes_ask.mp announces
  have finish {more : List Deed} {ended : Except (Stop WorkerError) Unit}
      (requests : Errand.Comes (requestAll announced.plan.iterations : Work σ Unit) announced more
        ended next) :
      Errand.Comes (perform (.announce :: (List.range worker.plan.iterations).map .request) :
        Work σ Unit) announced (second ++ more) ended next := by
    replace requests := comes_requestAll (Nat.le_refl _) requests
    rw [plan, Nat.sub_self, ← List.range_eq_range'] at requests
    exact Errand.comes_bind.mpr (.inr ⟨_, announced, second, more, announces, requests, rfl⟩)
  obtain ⟨stop, halts, rfl⟩ | ⟨_, requested, third, _, requests, reports, rfl⟩ :=
    Errand.comes_bind.mp last
  · exact ⟨.error stop, follow (finish halts), rfl⟩
  · replace reports := Errand.comes_get_bind.mp reports
    obtain ⟨rfl, rfl, rfl⟩ := Errand.comes_pure.mp reports
    rw [List.append_nil]
    exact ⟨.ok (), follow (finish requests), rfl⟩

/-- A worker that comes to a report has taken all the steps of its plan, and the report is its
summary after the last. -/
theorem comes_run_ok {report : Report}
    (comes : Errand.Comes (run : Work σ Report) worker deeds (.ok report) next) :
    Errand.Comes (perform worker.plan.steps : Work σ Unit) worker deeds (.ok ()) next ∧
      report = next.summary := by
  obtain ⟨ended, steps, same⟩ := comes_run comes
  cases ended with
  | error stop => cases same
  | ok value => exact ⟨steps, Except.ok.inj same⟩

/-- A worker that stops has stopped in one of the steps of its plan, after those before it. The
induction is on the steps. -/
theorem comes_perform_error {steps : List Step} {stop : Stop WorkerError}
    (comes : Errand.Comes (perform steps : Work σ Unit) worker deeds (.error stop) next) :
    ∃ front step back, steps = front ++ step :: back ∧ ∃ between first second,
      Errand.Comes (perform front : Work σ Unit) worker first (.ok ()) between ∧
        Errand.Comes (step.work : Work σ Unit) between second (.error stop) next ∧
          deeds = first ++ second := by
  induction steps generalizing worker deeds with
  | nil =>
    obtain ⟨-, ⟨⟩, -⟩ := Errand.comes_pure.mp comes
  | cons step steps inductionHypothesis =>
    obtain ⟨_, halts, same⟩ | ⟨value, taken, first, second, takes, further, rfl⟩ :=
      Errand.comes_bind.mp comes
    · obtain rfl := Except.error.inj same
      exact ⟨[], step, steps, rfl, worker, [], deeds, Errand.comes_pure.mpr ⟨rfl, rfl, rfl⟩, halts,
        rfl⟩
    · obtain ⟨front, last, back, rfl, between, third, fourth, before, halts, rfl⟩ :=
        inductionHypothesis further
      refine ⟨step :: front, last, back, rfl, between, first ++ third, fourth, ?_, halts,
        (List.append_assoc ..).symm⟩
      exact Errand.comes_bind.mpr (.inr ⟨value, taken, first, third, takes, before, rfl⟩)

end Worker

/-- What a worker does from its start, once it has a mutator, is what it does as a worker. Its
ending tells, besides the result, which samples it has made. -/
theorem comes_of_workerProcess {grammar : Grammar} {configuration : Configuration}
    {patience number : Nat} {mutator : Mutator}
    (made : Mutator.create grammar configuration.settings patience = .ok mutator)
    {ending : Ending ChaCha} {deeds : List Deed}
    (comes : (workerProcess grammar configuration patience number).ComesTo ending deeds) :
    ∃ final : Worker ChaCha,
      Errand.Comes (Worker.run : Work ChaCha Report)
        { number
          plan := configuration.plan
          mutator
          source := ChaCha.ofSeed (Worker.seedOf configuration.plan number) }
        deeds ending.result final ∧
      ending.made = final.made := by
  unfold workerProcess at comes
  rw [made] at comes
  obtain ⟨⟨result, final⟩, first, second, runs, ends, rfl⟩ := Process.comesTo_bind.mp comes
  obtain ⟨rfl, rfl⟩ := Process.comesTo_done.mp ends
  rw [List.append_nil]
  exact ⟨final, runs, rfl⟩

end Graft.Campaign
