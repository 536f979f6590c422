import Graft.Files

/-!
# Files written side by side

Files with plain names are written into one directory, by one or by many. Whether
such a file can be written does not depend on those that have been written before:
a file never takes the place of a directory, so the way to the directory stays
open, or stays shut as it was.
-/

namespace Graft

namespace FilePath

/-- Text after a slash has pieces of its own, because the slash ends the piece that was begun before
it. -/
theorem pieces_append_slash (begun before after : List Char) :
    pieces begun (before ++ '/' :: after) = pieces begun before ++ pieces [] after := by
  induction before generalizing begun with
  | nil => simp [pieces]
  | cons character before inductionHypothesis =>
    simp only [List.cons_append, pieces]
    split
    · rw [inductionHypothesis, List.cons_append]
    · exact inductionHypothesis _

/-- Text without a slash is one piece, together with what was begun before it. -/
theorem pieces_of_plain (begun : List Char) {text : List Char} (plain : '/' ∉ text) :
    pieces begun text = [begun.reverse ++ text] := by
  induction text generalizing begun with
  | nil => simp [pieces]
  | cons character text inductionHypothesis =>
    obtain ⟨here, there⟩ := not_or.mp (mt List.mem_cons.mpr plain)
    rw [pieces, if_neg (Ne.symm here), inductionHypothesis _ there]
    simp

/-- A name that is not empty and has no slash in it. -/
def Plain (name : String) : Prop :=
  name.toList ≠ [] ∧ '/' ∉ name.toList

/-- The path of a plain name inside a directory has the names of the directory and then that name.
It makes no difference whether the path of the directory ended in a slash. -/
theorem names_join (directory : String) {name : String} (plain : Plain name) :
    names (join directory name) = names directory ++ [name] := by
  obtain ⟨inhabited, unbroken⟩ := plain
  have single : pieces [] name.toList = [name.toList] := pieces_of_plain [] unbroken
  have named : (pieces [] name.toList).filter (fun piece => !piece.isEmpty) = [name.toList] := by
    rw [single]
    simpa using inhabited
  have nothing : (pieces [] []).filter (fun piece => !piece.isEmpty) = [] := rfl
  -- In every case the path is some text, a slash and the name, or the name alone.
  have afterSlash (front : List Char) :
      (pieces [] (front ++ '/' :: name.toList)).filter (fun piece => !piece.isEmpty) =
        (pieces [] front).filter (fun piece => !piece.isEmpty) ++ [name.toList] := by
    rw [pieces_append_slash, List.filter_append, named]
  unfold names join
  split
  · next whole =>
    rcases (Bool.or_eq_true ..).mp whole with empty | slash
    · obtain rfl := String.isEmpty_iff.mp empty
      rw [String.toList_append, String.toList_empty, List.nil_append, named, nothing]
      simp
    · obtain ⟨front, text⟩ := List.getLast?_eq_some_iff.mp (eq_of_beq slash)
      rw [String.toList_append, text, List.append_assoc, List.singleton_append, afterSlash,
        pieces_append_slash, List.filter_append, nothing]
      simp
  · rw [String.toList_append, String.toList_append, List.append_assoc]
    simp [afterSlash]

/-- The path of a plain name inside a directory starts where that of the directory does. An empty
path of a directory starts where a name by itself does. -/
theorem start_join (directory : String) {name : String} (plain : Plain name) :
    Trail.start (join directory name) = Trail.start directory := by
  suffices same : startsAtRoot (join directory name) = startsAtRoot directory by
    simp only [Trail.start, same]
  unfold startsAtRoot join
  by_cases empty : directory = ""
  · subst empty
    have apart : name.toList.head? ≠ some '/' := fun slash => plain.2 (List.mem_of_mem_head? slash)
    simpa using apart
  · have inhabited : directory.toList ≠ [] := by simpa using empty
    obtain ⟨first, rest, text⟩ := List.exists_cons_of_ne_nil inhabited
    split <;> simp [text]

/-- The path of a plain name inside a directory does not insist on a directory, for its last
character is one of the name. -/
theorem endsInSlash_join (directory : String) {name : String} (plain : Plain name) :
    endsInSlash (join directory name) = false := by
  obtain ⟨inhabited, unbroken⟩ := plain
  have last (front : List Char) : (front ++ name.toList).getLast? ≠ some '/' := by
    rw [List.getLast?_append, List.getLast?_eq_some_getLast inhabited, Option.some_or]
    intro slash
    exact unbroken (Option.some.inj slash ▸ List.getLast_mem inhabited)
  rw [endsInSlash, beq_eq_false_iff_ne]
  unfold join
  split
  · rw [String.toList_append]
    exact last _
  · rw [String.toList_append]
    exact last _

end FilePath

namespace Files

open FilePath

/-- Names may be followed in two parts, and the second is followed from where the first has led. -/
theorem follow_append (files : Files) (trail : Trail) (front back : List String) :
    files.follow trail (front ++ back) =
      (files.follow trail front).bind fun reached => files.follow reached back := by
  induction front generalizing trail with
  | nil => rfl
  | cons name front inductionHypothesis =>
    simp only [List.cons_append, follow]
    split
    · rfl
    · rfl
    · split
      · rfl
      · exact inductionHypothesis _

/-- A file where there is no directory leaves the ways that lead somewhere as they are. They lead
through directories only, and none of these is at the place of the file. -/
theorem follow_put {files : Files} {place : String} (free : files.get? place ≠ some .directory)
    (content : Bytes) {trail reached : Trail} {names : List String}
    (followed : files.follow trail names = .ok reached) :
    (files.put place (.file content)).follow trail names = .ok reached := by
  induction names generalizing trail with
  | nil => exact followed
  | cons name names inductionHypothesis =>
    rw [follow] at followed
    split at followed
    · cases followed
    · cases followed
    · next directory =>
      have apart : trail.place ≠ place := by
        rintro same
        rw [same] at directory
        exact free directory
      rw [follow, get?_put_of_ne files _ apart, directory]
      split at followed
      · cases followed
      · next short =>
        rw [if_neg short]
        exact inductionHypothesis followed

/-- A path that leads to a place is followed there, as the check of its text only refuses. -/
theorem follow_of_locate {files : Files} {path place : String}
    (located : files.locate path = .ok place) :
    ∃ trail, files.follow (Trail.start path) (names path) = .ok trail ∧ trail.place = place := by
  simp only [locate] at located
  cases checked : check path with
  | error cause =>
    rw [checked] at located
    cases located
  | ok allowed =>
    rw [checked] at located
    cases followed : files.follow (Trail.start path) (names path) with
    | error cause =>
      rw [followed] at located
      cases located
    | ok trail =>
      rw [followed] at located
      exact ⟨trail, rfl, Except.ok.inj located⟩

/-- A name is followed from a directory, even if it leads to nothing yet. -/
theorem directory_of_follow {files : Files} {trail reached : Trail} {name : String}
    (followed : files.follow trail [name] = .ok reached) :
    files.get? trail.place = some .directory := by
  rw [follow] at followed
  split at followed
  · cases followed
  · cases followed
  · assumption

/-- Why a file was not written, if it was not. -/
def refusal? : Except FileError Files → Option FileError
  | .ok _ => none
  | .error cause => some cause

/-- A file that is written is put at the place of its path, where there was no directory. -/
theorem write_eq_ok {files next : Files} {path : String} {content : Bytes}
    (written : files.write path content = .ok next) :
    ∃ place, files.locate path = .ok place ∧ files.get? place ≠ some .directory ∧
      next = files.put place (.file content) := by
  simp only [write] at written
  cases located : files.locate path with
  | error cause =>
    rw [located] at written
    cases written
  | ok place =>
    rw [located] at written
    simp only [bind, Except.bind] at written
    split at written
    · cases written
    · next allowed =>
      cases written
      refine ⟨place, rfl, fun directory => allowed ?_, rfl⟩
      simp [directory]

/-- What is at a place is a directory after a file is put where there was none exactly if it was one
before. Files neither make directories nor take their place. -/
theorem directory_put_iff {files : Files} {place : String}
    (free : files.get? place ≠ some .directory) (content : Bytes) (other : String) :
    (files.put place (.file content)).get? other = some .directory ↔
      files.get? other = some .directory := by
  by_cases same : other = place
  · subst same
    rw [get?_put_self]
    exact ⟨nofun, fun directory => absurd directory free⟩
  · rw [get?_put_of_ne files _ same]

/-- A file that is written into a directory has no part in whether another one can be. Whether it
can depends on the way to the directory and on the directories inside it, and both stay as they
are. -/
theorem refusal?_write {files next : Files} {directory name other : String} (plain : Plain name)
    (plainOther : Plain other) {content : Bytes}
    (written : files.write (join directory name) content = .ok next) (text : Bytes) :
    refusal? (next.write (join directory other) text) =
      refusal? (files.write (join directory other) text) := by
  obtain ⟨place, located, free, rfl⟩ := write_eq_ok written
  -- The way to the directory is open, and it leads to a directory.
  have way : ∃ reached, files.follow (Trail.start directory) (names directory) = .ok reached ∧
      files.get? reached.place = some .directory := by
    obtain ⟨trail, followed, -⟩ := follow_of_locate located
    rw [start_join _ plain, names_join _ plain, follow_append] at followed
    cases leads : files.follow (Trail.start directory) (names directory) with
    | error cause =>
      rw [leads] at followed
      cases followed
    | ok reached =>
      rw [leads] at followed
      exact ⟨reached, rfl, directory_of_follow followed⟩
  obtain ⟨reached, leads, directoryThere⟩ := way
  have stays := (directory_put_iff free content reached.place).mpr directoryThere
  have same : (files.put place (.file content)).locate (join directory other) =
      files.locate (join directory other) := by
    simp only [locate, start_join _ plainOther, names_join _ plainOther, follow_append, leads,
      follow_put free content leads, Except.bind, follow, directoryThere, stays]
  simp only [write, same]
  cases files.locate (join directory other) with
  | error cause => rfl
  | ok found =>
    simp only [bind, Except.bind, directory_put_iff free]
    split <;> rfl

/-! ## What has been written -/

/-- A path leads to a file with this content. -/
def Stores (files : Files) (path : String) (content : Bytes) : Prop :=
  ∃ place, files.locate path = .ok place ∧ files.get? place = some (.file content)

/-- A path leads where it did after a file is put where there was no directory. The check of its
text does not look at the files, and the way is through directories that are still there. -/
theorem locate_put {files : Files} {place : String} (free : files.get? place ≠ some .directory)
    (content : Bytes) {path found : String} (located : files.locate path = .ok found) :
    (files.put place (.file content)).locate path = .ok found := by
  obtain ⟨trail, followed, rfl⟩ := follow_of_locate located
  simp only [locate] at located ⊢
  cases checked : check path with
  | error cause =>
    rw [checked] at located
    cases located
  | ok allowed =>
    rw [follow_put free content followed]
    rfl

/-- A file that is written is there: its path still leads to the place that was found before the
writing. -/
theorem stores_of_write {files next : Files} {path : String} {content : Bytes}
    (written : files.write path content = .ok next) : next.Stores path content := by
  obtain ⟨place, located, free, rfl⟩ := write_eq_ok written
  exact ⟨place, locate_put free content located, get?_put_self ..⟩

/-- A file stays as it is when another one is written, if that has the same content where it is the
same file. Two paths may lead to one place, so that their difference alone would not do. -/
theorem Stores.write {files next : Files} {path other : String} {content text : Bytes}
    (stores : files.Stores path content) (written : files.write other text = .ok next)
    (alike : ∀ place, files.locate path = .ok place → files.locate other = .ok place →
      text = content) : next.Stores path content := by
  obtain ⟨found, located, there⟩ := stores
  obtain ⟨place, otherLocated, free, rfl⟩ := write_eq_ok written
  refine ⟨found, locate_put free text located, ?_⟩
  by_cases same : found = place
  · subst same
    rw [get?_put_self, alike found located otherLocated]
  · rw [get?_put_of_ne files _ same, there]

/-- A file that is there can be read by a path that does not insist on a directory. One that does
would be refused, as a file is none. -/
theorem Stores.read {files : Files} {path : String} {content : Bytes}
    (stores : files.Stores path content) (open_ : endsInSlash path = false) :
    files.read path = .ok content := by
  obtain ⟨place, located, there⟩ := stores
  simp only [Files.read, find, located, there, open_, bind, Except.bind]
  rfl

/-- The place of a file that has a plain name tells that name. Files of different names in one
directory are thus at different places. -/
theorem names_of_locate {files : Files} {directory name place : String} (plain : Plain name)
    (proper : name ≠ "." ∧ name ≠ "..") (located : files.locate (join directory name) = .ok place) :
    (names place).getLast? = some name := by
  obtain ⟨trail, followed, rfl⟩ := follow_of_locate located
  rw [start_join _ plain, names_join _ plain, follow_append] at followed
  cases leads : files.follow (Trail.start directory) (names directory) with
  | error cause =>
    rw [leads] at followed
    cases followed
  | ok reached =>
    rw [leads] at followed
    simp only [Except.bind, follow, directory_of_follow followed] at followed
    split at followed
    · cases followed
    · obtain rfl := Except.ok.inj followed
      rw [Trail.step, if_neg proper.1, if_neg proper.2, names_join _ plain]
      exact List.getLast?_concat

end Files

end Graft
