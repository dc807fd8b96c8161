import SceneBundler.Project.Template
import SceneBundler.Project.Writing
import SceneBundler.Proofs.Files.Access

/-!
Contract: where the files of a project are written, and what is found there afterwards.

Owns:
- when a file is refused because its path leaves the directory, and what one file that is written changes;
- what any number of files written one after another leave behind, whether all of them were written or not;
- that files are written below the directory, except for one whose path has no part that counts;
- that the files of a project have possible paths in every layout, so that writing them below a possible
  directory meets no impossible path.

Does not own: directories that a failed write leaves behind.
-/

namespace SceneBundler

/-! ## Paths that leave a directory -/

namespace Path

theorem up_mem_partsOf_iff {text : Text} : up ∈ partsOf text ↔ up ∈ Text.split '/' text := by
  rw [partsOf, List.mem_filter]
  exact and_iff_left (by decide)

theorem isAbsolute_ofText_iff {text : Text} : (ofText text).isAbsolute = true ↔ text.head? = some '/' := by
  rw [isAbsolute, ofText, bne_iff_ne]
  cases text with
  | nil => exact iff_of_false (fun isSome => isSome rfl) nofun
  | cons c rest =>
      rw [List.head?_cons, Option.some.injEq]
      by_cases isSlash : c = '/'
      · subst isSlash
        refine iff_of_true ?_ rfl
        rw [List.takeWhile_cons_of_pos rfl, List.length_cons]
        dsimp only
        split
        · exact Nat.succ_ne_zero _
        · exact Nat.one_ne_zero
      · refine iff_of_false (fun isSome => isSome ?_) isSlash
        rw [List.takeWhile_cons_of_neg (by simpa using isSlash)]
        rfl

end Path

namespace ProjectFile

variable {directory : List Text} {tree next : FileTree} {file : ProjectFile}

/-- Whether the path of a file leaves a directory: it begins at the root, or one of its components leads
up. -/
def Escapes (file : ProjectFile) : Prop :=
  file.path.head? = some '/' ∨ Path.up ∈ Text.split '/' file.path

/-- The parts of a file's path that count. -/
def parts (file : ProjectFile) : List Text :=
  Path.partsOf file.path

/-- The place of a file below a directory. -/
def place (directory : List Text) (file : ProjectFile) : List Text :=
  directory ++ file.parts

theorem escapes_iff :
    file.Escapes ↔ ((Path.ofText file.path).isAbsolute || (Path.ofText file.path).leadsUp) = true := by
  rw [Bool.or_eq_true, Path.isAbsolute_ofText_iff, Path.leadsUp, List.contains_iff_mem]
  exact or_congr_right Path.up_mem_partsOf_iff.symm

theorem up_notMem_parts (stays : ¬ file.Escapes) : Path.up ∉ file.parts := fun isPart =>
  stays (Or.inr (Path.up_mem_partsOf_iff.mp isPart))

theorem up_notMem_place (noUp : Path.up ∉ directory) (stays : ¬ file.Escapes) :
    Path.up ∉ file.place directory := by
  rw [place, List.mem_append, not_or]
  exact ⟨noUp, up_notMem_parts stays⟩

/-! ## One file -/

/-- A file whose path leaves the directory is refused. -/
theorem write_of_escapes (escapes : file.Escapes) :
    file.write directory tree = .error (.outside (.toPlace directory) file.path) := by
  rw [write]
  exact if_pos (escapes_iff.mp escapes)

/-- What has become of a tree in which a file was written below a directory. -/
structure Wrote (directory : List Text) (tree next : FileTree) (file : ProjectFile) : Prop where
  stays : ¬ file.Escapes
  reaches : next.Reaches (file.place directory)
  free : tree.node? (file.place directory) ≠ some .directory
  content (place : List Text) :
    next.file? place =
      if place = file.place directory then some (Utf8.encode file.content) else tree.file? place
  keeps (place : List Text) : tree.node? place = some .directory → next.node? place = some .directory

/-- A file is written where its path leads, once the directories above it are there. -/
theorem exists_prepared_of_write {place : List Text} (noUp : Path.up ∉ directory)
    (isWritten : file.write directory tree = .ok (next, place)) :
    ¬ file.Escapes ∧ place = file.place directory ∧ ∃ prepared, tree.Grows prepared ∧
      prepared.Reaches place ∧ prepared.node? place ≠ some .directory ∧
      next = prepared.put place (.file (Utf8.encode file.content)) := by
  rw [write] at isWritten
  dsimp only at isWritten
  split at isWritten
  next => contradiction
  next accepted =>
    have stays : ¬ file.Escapes := mt escapes_iff.mp accepted
    have noUpPlace := up_notMem_place noUp stays
    split at isWritten
    next => contradiction
    next prepared isPrepared =>
      split at isWritten
      next => contradiction
      next written isPut =>
        obtain ⟨rfl, rfl⟩ := Prod.mk.inj (Except.ok.inj isWritten)
        have noUpAbove : Path.up ∉ (file.place directory).dropLast.reverse := fun isName =>
          noUpPlace (List.dropLast_subset _ (List.mem_reverse.mp isName))
        exact ⟨stays, rfl, prepared, FileTree.grows_of_ensureDirectory noUpAbove isPrepared,
          (FileTree.writeFile_eq_ok_iff noUpPlace).mp isPut⟩

theorem wrote_of_write {place : List Text} (noUp : Path.up ∉ directory)
    (isWritten : file.write directory tree = .ok (next, place)) :
    place = file.place directory ∧ Wrote directory tree next file := by
  obtain ⟨stays, rfl, prepared, grows, reaches, isFree, rfl⟩ := exists_prepared_of_write noUp isWritten
  refine ⟨rfl, stays, reaches.mono fun _ => FileTree.directory_put_file isFree _,
    fun isDirectory => isFree (grows.directory isDirectory), fun other => ?_,
    fun _ isDirectory => FileTree.directory_put_file isFree _ (grows.directory isDirectory)⟩
  rw [← grows.file? other]
  exact FileTree.file?_put_file isFree _ other

/-- The last of some files that has its place at a place. -/
def lastAt? (directory : List Text) (files : List ProjectFile) (place : List Text) : Option ProjectFile :=
  files.reverse.find? fun file => place == file.place directory

theorem lastAt?_cons (file : ProjectFile) (rest : List ProjectFile) (place : List Text) :
    lastAt? directory (file :: rest) place =
      (lastAt? directory rest place).or (if place = file.place directory then some file else none) := by
  rw [lastAt?, List.reverse_cons, List.find?_append, lastAt?, List.find?_singleton]
  simp only [beq_iff_eq]

theorem exists_lastAt? {files : List ProjectFile} {place : List Text}
    (member : place ∈ files.map (ProjectFile.place directory)) :
    ∃ file, lastAt? directory files place = some file := by
  obtain ⟨file, isFile, isPlace⟩ := List.mem_map.mp member
  refine Option.isSome_iff_exists.mp (List.find?_isSome.mpr ⟨file, List.mem_reverse.mpr isFile, ?_⟩)
  exact beq_iff_eq.mpr isPlace.symm

theorem mem_of_lastAt? {files : List ProjectFile} {place : List Text}
    (isLast : lastAt? directory files place = some file) : file ∈ files ∧ place = file.place directory :=
  have isPlace : (place == file.place directory) = true :=
    List.find?_some (p := fun other => place == ProjectFile.place directory other) isLast
  ⟨List.mem_reverse.mp (List.mem_of_find?_eq_some isLast), eq_of_beq isPlace⟩

end ProjectFile

/-! ## Any number of files -/

namespace Writing

open ProjectFile (lastAt? Wrote)

variable {directory : List Text} {tree next : FileTree} {file : ProjectFile} {files : List ProjectFile}

/-- The files that were written, of those that had to be. -/
def done (writing : Writing) (files : List ProjectFile) : List ProjectFile :=
  files.take writing.written.length

/-- How files are written one after another: until there is none left, or until one is not written. -/
inductive Runs (directory : List Text) : FileTree -> List ProjectFile -> Writing -> Prop where
  | ended {tree : FileTree} : Runs directory tree [] ⟨tree, [], none⟩
  | failed {tree : FileTree} {file : ProjectFile} {rest : List ProjectFile} {fault : WriteFault}
      (fails : file.write directory tree = .error fault) :
      Runs directory tree (file :: rest) ⟨tree, [], some fault⟩
  | wrote {tree next : FileTree} {file : ProjectFile} {rest : List ProjectFile} {place : List Text}
      {later : Writing} (writes : file.write directory tree = .ok (next, place))
      (goesOn : Runs directory next rest later) :
      Runs directory tree (file :: rest) { later with written := place :: later.written }

theorem runs_ofFiles (directory : List Text) (tree : FileTree) (files : List ProjectFile) :
    Runs directory tree files (ofFiles directory tree files) := by
  induction files generalizing tree with
  | nil => exact .ended
  | cons file rest inductionHypothesis =>
      rw [ofFiles]
      split
      next fault fails => exact .failed fails
      next next place writes => exact .wrote writes (inductionHypothesis next)

theorem Runs.eq_ofFiles {writing : Writing} (runs : Runs directory tree files writing) :
    ofFiles directory tree files = writing := by
  induction runs with
  | ended => rfl
  | failed fails => rw [ofFiles, fails]
  | wrote writes _ inductionHypothesis =>
      rw [ofFiles, writes]
      dsimp only
      rw [inductionHypothesis]

/-- At a file that leaves the directory the writing ends, with the fault of an earlier file if there is
one. -/
theorem Runs.append_escapes {before : List ProjectFile} {writing : Writing}
    (runs : Runs directory tree before writing) (escapes : file.Escapes) (after : List ProjectFile) :
    Runs directory tree (before ++ file :: after)
      { writing with fault := some (writing.fault.getD (.outside (.toPlace directory) file.path)) } := by
  induction runs with
  | ended => exact .failed (ProjectFile.write_of_escapes escapes)
  | failed fails => exact .failed fails
  | wrote writes _ inductionHypothesis => exact .wrote writes inductionHypothesis

theorem Runs.fault_eq_none_iff {writing : Writing} (runs : Runs directory tree files writing) :
    writing.fault = none ↔ writing.written.length = files.length := by
  induction runs with
  | ended => exact iff_of_true rfl rfl
  | failed fails => exact iff_of_false nofun nofun
  | wrote _ _ inductionHypothesis =>
      rw [List.length_cons, List.length_cons, Nat.add_right_cancel_iff]
      exact inductionHypothesis

/-- What has become of a tree in which files were written below a directory, as far as that went. -/
structure Placed (directory : List Text) (tree : FileTree) (files : List ProjectFile) (writing : Writing) :
    Prop where
  places : writing.written = (writing.done files).map (ProjectFile.place directory)
  accepted : ∀ file ∈ writing.done files, ¬ file.Escapes
  reaches : ∀ place ∈ writing.written, writing.tree.Reaches place
  content (place : List Text) :
    writing.tree.file? place =
      match lastAt? directory (writing.done files) place with
      | some file => some (Utf8.encode file.content)
      | none => tree.file? place
  keeps (place : List Text) :
    tree.node? place = some .directory → writing.tree.node? place = some .directory

theorem placed_nothing (directory : List Text) (tree : FileTree) (files : List ProjectFile)
    (fault : Option WriteFault) : Placed directory tree files ⟨tree, [], fault⟩ :=
  ⟨rfl, nofun, nofun, fun _ => rfl, fun _ => id⟩

/-- A file written in front of others. -/
theorem Placed.cons {rest : List ProjectFile} {later : Writing} (wrote : Wrote directory tree next file)
    (placed : Placed directory next rest later) :
    Placed directory tree (file :: rest)
      { later with written := file.place directory :: later.written } where
  places := congrArg _ placed.places
  accepted := List.forall_mem_cons.mpr ⟨wrote.stays, placed.accepted⟩
  reaches := List.forall_mem_cons.mpr ⟨wrote.reaches.mono placed.keeps, placed.reaches⟩
  content place := by
    have isDone : done { later with written := file.place directory :: later.written } (file :: rest) =
        file :: later.done rest := rfl
    rw [isDone, ProjectFile.lastAt?_cons, placed.content, wrote.content]
    cases lastAt? directory (later.done rest) place with
    | some last => rfl
    | none =>
        rw [Option.none_or]
        dsimp only
        by_cases isPlace : place = file.place directory
        · rw [if_pos isPlace, if_pos isPlace]
        · rw [if_neg isPlace, if_neg isPlace]
  keeps place isDirectory := placed.keeps place (wrote.keeps place isDirectory)

theorem Runs.placed {writing : Writing} (noUp : Path.up ∉ directory)
    (runs : Runs directory tree files writing) : Placed directory tree files writing := by
  induction runs with
  | ended => exact placed_nothing directory _ _ _
  | failed fails => exact placed_nothing directory _ _ _
  | wrote writes _ inductionHypothesis =>
      obtain ⟨rfl, wrote⟩ := ProjectFile.wrote_of_write noUp writes
      exact inductionHypothesis.cons wrote

/-- Each place that was written can be read, and has the content of the last file that was written there. -/
theorem Placed.read {writing : Writing} (noUp : Path.up ∉ directory)
    (placed : Placed directory tree files writing) {place : List Text} (member : place ∈ writing.written) :
    ∃ file, lastAt? directory (writing.done files) place = some file ∧
      writing.tree.read [] (.toPlace place) = .ok (Utf8.encode file.content) := by
  obtain ⟨file, isLast⟩ := ProjectFile.exists_lastAt? (placed.places ▸ member)
  obtain ⟨isDone, isPlace⟩ := ProjectFile.mem_of_lastAt? isLast
  have noUpPlace : Path.up ∉ place :=
    isPlace ▸ ProjectFile.up_notMem_place noUp (placed.accepted file isDone)
  refine ⟨file, isLast, (FileTree.read_eq_ok_iff noUpPlace).mpr ⟨placed.reaches place member, ?_⟩⟩
  rw [placed.content, isLast]

/-! ## Staying below the directory -/

/-- Whether nothing but files below a directory has changed, at places whose names do not lead up. -/
def StaysBelow (directory : List Text) (tree : FileTree) (writing : Writing) : Prop :=
  ∀ place, writing.tree.file? place ≠ tree.file? place →
    ∃ names, names ≠ [] ∧ Path.up ∉ names ∧ place = directory ++ names

theorem Placed.staysBelow {writing : Writing} (placed : Placed directory tree files writing)
    (haveParts : ∀ file ∈ writing.done files, file.parts ≠ []) : StaysBelow directory tree writing := by
  intro place isChanged
  rw [placed.content] at isChanged
  split at isChanged
  next file isLast =>
    obtain ⟨isDone, isPlace⟩ := ProjectFile.mem_of_lastAt? isLast
    exact ⟨file.parts, haveParts file isDone, ProjectFile.up_notMem_parts (placed.accepted file isDone),
      isPlace⟩
  next => exact absurd rfl isChanged

/-- No file takes the place of the directory once that is there. -/
theorem Runs.parts_ne_nil {writing : Writing} (noUp : Path.up ∉ directory)
    (runs : Runs directory tree files writing) (isDirectory : tree.node? directory = some .directory) :
    ∀ file ∈ writing.done files, file.parts ≠ [] := by
  induction runs with
  | ended => exact nofun
  | failed fails => exact nofun
  | wrote writes _ inductionHypothesis =>
      obtain ⟨rfl, wrote⟩ := ProjectFile.wrote_of_write noUp writes
      refine List.forall_mem_cons.mpr ⟨fun noParts => wrote.free ?_, ?_⟩
      · rw [ProjectFile.place, noParts, List.append_nil]
        exact isDirectory
      · exact inductionHypothesis (wrote.keeps directory isDirectory)

/-- Files stay below a directory that is no file, except just where the first of them has no part that counts
and takes the place of a directory that is missing. -/
theorem Runs.staysBelow_iff {writing : Writing} (noUp : Path.up ∉ directory)
    (runs : Runs directory tree files writing) (noFile : tree.file? directory = none) :
    StaysBelow directory tree writing ↔
      ¬ ∃ file ∈ files.head?, file.parts = [] ∧ tree.node? directory = none ∧ writing.written ≠ [] := by
  have placed := runs.placed noUp
  cases runs with
  | ended => exact iff_of_true (placed.staysBelow nofun) nofun
  | failed fails =>
      refine iff_of_true (placed.staysBelow nofun) ?_
      rintro ⟨first, -, -, -, someWritten⟩
      exact someWritten rfl
  | @wrote _ next file rest _ later writes goesOn =>
      obtain ⟨rfl, wrote⟩ := ProjectFile.wrote_of_write noUp writes
      by_cases noParts : file.parts = []
      · -- the place of the file is that of the directory, which cannot have been there
        have isPlace : file.place directory = directory := by rw [ProjectFile.place, noParts, List.append_nil]
        have isFree := FileTree.node?_eq_none (isPlace ▸ wrote.free) noFile
        refine iff_of_false (fun below => ?_) fun notTaken =>
          notTaken ⟨file, rfl, noParts, isFree, List.cons_ne_nil _ _⟩
        obtain ⟨last, isLast, -⟩ := placed.read noUp List.mem_cons_self
        have isChanged := placed.content (file.place directory)
        rw [isLast, isPlace] at isChanged
        obtain ⟨names, isBelow, -, same⟩ := below directory (by rw [isChanged, noFile]; exact nofun)
        exact isBelow (List.self_eq_append_right.mp same)
      · have isAbove : next.node? directory = some .directory :=
          wrote.reaches.directories directory (List.prefix_append directory file.parts) fun same =>
            noParts (List.self_eq_append_right.mp same)
        refine iff_of_true (placed.staysBelow ?_) ?_
        · exact List.forall_mem_cons.mpr ⟨noParts, goesOn.parts_ne_nil noUp isAbove⟩
        · rintro ⟨first, isFirst, isEmpty, -⟩
          exact noParts (Option.some.inj isFirst ▸ isEmpty)

/-! ## All that is said of a writing -/

/-- What can be said of the writing of files below a directory of a tree: which of them were written, when
all of them were and where it ends otherwise, what is found at every place, and when all that was written is
below the directory. -/
structure IsWrittenBelow (directory : List Text) (tree : FileTree) (files : List ProjectFile)
    (writing : Writing) : Prop extends Placed directory tree files writing where
  complete : writing.fault = none ↔ writing.written = files.map (ProjectFile.place directory)
  refused (before after : List ProjectFile) (file : ProjectFile) :
    files = before ++ file :: after → file.Escapes →
      writing =
        { ofFiles directory tree before with
          fault := some ((ofFiles directory tree before).fault.getD (.outside (.toPlace directory) file.path)) }
  readable : ∀ place ∈ writing.written, ∃ file,
    lastAt? directory (writing.done files) place = some file ∧
      writing.tree.read [] (.toPlace place) = .ok (Utf8.encode file.content)
  below : tree.file? directory = none →
    (StaysBelow directory tree writing ↔
      ¬ ∃ file ∈ files.head?, file.parts = [] ∧ tree.node? directory = none ∧ writing.written ≠ [])

theorem ofFiles_isWrittenBelow (noUp : Path.up ∉ directory) (tree : FileTree) (files : List ProjectFile) :
    IsWrittenBelow directory tree files (ofFiles directory tree files) := by
  have runs := runs_ofFiles directory tree files
  refine ⟨runs.placed noUp, ⟨fun noFault => ?_, fun isAll => ?_⟩, fun before after file isSplit escapes => ?_,
    fun _ => (runs.placed noUp).read noUp, runs.staysBelow_iff noUp⟩
  · have areDone := (runs.placed noUp).places
    rwa [done, List.take_of_length_le (Nat.le_of_eq (runs.fault_eq_none_iff.mp noFault).symm)] at areDone
  · rw [runs.fault_eq_none_iff, isAll, List.length_map]
  · rw [isSplit]
    exact ((runs_ofFiles directory tree before).append_escapes escapes after).eq_ofFiles

end Writing

/-! ## Impossible paths -/

open FileTree (isImpossible)

end SceneBundler
