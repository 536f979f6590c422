import Graft.Corpus
import Graft.Event
import Graft.Files

/-!
# What is shared

Those who work side by side share a corpus, the files and the log. They get at
these only by accesses. An access is granted in one go, with nothing else in
between, and answered at once; between two accesses of one, the others may make
theirs.
-/

namespace Graft

/-- What is shared by those who work side by side. -/
structure Shared where
  corpus : Corpus
  files : Files := {}
  events : Array Event := #[]

/-- Something done to what is shared, in one go. -/
inductive Access where
  /-- Take the corpus as it is. -/
  | look
  /-- Put a tree into the corpus. -/
  | register (tree : Tree)
  /-- Write a file whole. -/
  | write (path : String) (content : Bytes)
  /-- Note an event in the log. -/
  | note (event : Event)

/-- What an access is answered with. -/
abbrev Access.Reply : Access → Type
  | .look => Corpus
  /- The number of trees that the corpus then holds. -/
  | .register _ => Nat
  | .write _ _ => Except FileError Unit
  | .note _ => Unit

/-- The answer to an access, and what is shared after it. -/
def Shared.grant (shared : Shared) : (access : Access) → access.Reply × Shared
  | .look => (shared.corpus, shared)
  | .register tree =>
    let corpus := shared.corpus.register tree
    (corpus.size, { shared with corpus })
  | .write path content =>
    match shared.files.write path content with
    | .ok files => (.ok (), { shared with files })
    | .error cause => (.error cause, shared)
  | .note event => ((), { shared with events := shared.events.push event })

end Graft
