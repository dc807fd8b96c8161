import SceneBundler.Files.Tree

/-!
Contract: what accesses do to a tree, and when they meet a path that no file can have.

Owns:
- when the names of a place lead there: everything above it is a directory;
- that making directories leaves what was there in place and adds nothing but directories;
- that writing a file changes what is found at its place, and that alone;
- that a path is impossible just if one of its parts holds the character that ends every path.

Does not own: the other obstacles of reading and writing.
-/

namespace SceneBundler

/-- The content of a file. -/
def Node.content? : Node -> Option Octets
  | directory => none
  | file content => some content

namespace FileTree

variable {tree next : FileTree} {place names : List Text}

/-- The content of the file at a place, if a file is there. -/
def file? (tree : FileTree) (place : List Text) : Option Octets :=
  (tree.node? place).bind Node.content?

theorem file?_eq_some_iff {content : Octets} :
    tree.file? place = some content ↔ tree.node? place = some (.file content) := by
  rw [file?]
  cases tree.node? place with
  | none => exact iff_of_false nofun nofun
  | some node =>
      cases node with
      | directory => exact iff_of_false nofun nofun
      | file found => simp [Node.content?]

/-- Where there is neither a directory nor a file there is nothing. -/
theorem node?_eq_none (noDirectory : tree.node? place ≠ some .directory) (noFile : tree.file? place = none) :
    tree.node? place = none := by
  rw [file?] at noFile
  cases isNode : tree.node? place with
  | none => rfl
  | some node =>
      cases node with
      | directory => contradiction
      | file content =>
          rw [isNode] at noFile
          contradiction

/-! ## Putting -/

theorem lookup_filter_ne {other : List Text} (isOther : other ≠ place) (entries : List (List Text × Node)) :
    (entries.filter fun entry => entry.1 != place).lookup other = entries.lookup other := by
  induction entries with
  | nil => rfl
  | cons entry rest inductionHypothesis =>
      obtain ⟨key, node⟩ := entry
      by_cases isPlace : key = place
      · subst isPlace
        rw [List.filter_cons_of_neg (by simp), inductionHypothesis, List.lookup_cons,
          beq_eq_false_iff_ne.mpr isOther]
      · rw [List.filter_cons_of_pos (by simpa using isPlace), List.lookup_cons, List.lookup_cons,
          inductionHypothesis]

/-- Putting something at a place changes what is found there, and that alone. -/
theorem node?_put (notRoot : place ≠ []) (node : Node) (other : List Text) :
    (tree.put place node).node? other = if other = place then some node else tree.node? other := by
  cases other with
  | nil => exact (if_neg (Ne.symm notRoot)).symm
  | cons name rest =>
      change ((place, node) :: tree.entries.filter fun entry => entry.1 != place).lookup (name :: rest) = _
      rw [List.lookup_cons]
      split
      next isPlace => exact (if_pos (eq_of_beq isPlace)).symm
      next isOther =>
        have isOther : name :: rest ≠ place := beq_eq_false_iff_ne.mp isOther
        rw [if_neg isOther, lookup_filter_ne isOther]
        rfl

/-! ## Ways -/

/-- Whether names lead to their place: they are names that can be had, and everything above the place is a
directory. -/
structure Reaches (tree : FileTree) (names : List Text) : Prop where
  possible : isImpossible names = false
  short : ∀ name ∈ names, isTooLong name = false
  directories : ∀ above, above <+: names → above ≠ names → tree.node? above = some .directory

theorem Reaches.mono (reaches : tree.Reaches names)
    (keeps : ∀ above, tree.node? above = some .directory → next.node? above = some .directory) :
    next.Reaches names :=
  ⟨reaches.possible, reaches.short, fun above isAbove isOther =>
    keeps above (reaches.directories above isAbove isOther)⟩

/-- Above names with one in front there is the start, and behind that one what is above the others. -/
theorem forall_above_cons {part : Text} {rest : List Text} {holds : List Text -> Prop} :
    (∀ above, above <+: part :: rest → above ≠ part :: rest → holds above) ↔
      holds [] ∧ ∀ above, above <+: rest → above ≠ rest → holds (part :: above) := by
  constructor
  · refine fun all => ⟨all [] List.nil_prefix (List.cons_ne_nil _ _).symm, fun above isAbove isOther => ?_⟩
    exact all (part :: above) (List.cons_prefix_cons.mpr ⟨rfl, isAbove⟩) fun same =>
      isOther (List.cons.inj same).2
  · rintro ⟨atStart, behind⟩ above isAbove isOther
    cases above with
    | nil => exact atStart
    | cons first above =>
        obtain ⟨rfl, isBehind⟩ := List.cons_prefix_cons.mp isAbove
        exact behind above isBehind fun same => isOther (congrArg _ same)

theorem walk_eq_ok_iff {here parts : List Text} (noUp : Path.up ∉ parts) :
    tree.walk here parts = .ok place ↔
      place = here ++ parts ∧ (∀ part ∈ parts, isTooLong part = false) ∧
        ∀ above, above <+: parts → above ≠ parts → tree.node? (here ++ above) = some .directory := by
  induction parts generalizing here with
  | nil =>
      rw [walk, Except.ok.injEq, List.append_nil]
      refine ⟨fun same => ⟨same.symm, nofun, ?_⟩, fun all => all.1.symm⟩
      exact fun above isAbove isOther => absurd (List.prefix_nil.mp isAbove) isOther
  | cons part rest inductionHypothesis =>
      obtain ⟨notPart, notRest⟩ := not_or.mp (mt List.mem_cons.mpr noUp)
      rw [walk, List.forall_mem_cons, forall_above_cons, List.append_nil]
      split
      next missing => exact iff_of_false nofun fun all => nomatch missing.symm.trans all.2.2.1
      next content isFile => exact iff_of_false nofun fun all => nomatch isFile.symm.trans all.2.2.1
      next isDirectory =>
        rw [if_neg (Ne.symm notPart)]
        split
        next isLong =>
          exact iff_of_false nofun fun all => Bool.false_ne_true (all.2.1.1.symm.trans isLong)
        next isShort =>
          rw [inductionHypothesis notRest, and_iff_right (eq_false_of_ne_true isShort),
            and_iff_right isDirectory]
          simp only [List.append_assoc, List.singleton_append]

/-- Names none of which leads up lead to the place that they name, or nowhere. -/
theorem place_toPlace_eq_ok_iff (noUp : Path.up ∉ names) :
    tree.place [] (.toPlace names) = .ok place ↔ place = names ∧ tree.Reaches names := by
  have isParts : (Path.toPlace names).parts = names := rfl
  rw [FileTree.place, isParts]
  split
  next impossible =>
    exact iff_of_false nofun fun both => Bool.false_ne_true (both.2.possible.symm.trans impossible)
  next possible =>
    have isStart : (if (Path.toPlace names).isAbsolute = true then [] else []) = ([] : List Text) := ite_self _
    rw [isStart, walk_eq_ok_iff noUp]
    refine and_congr_right fun _ => ⟨fun both => ?_, fun reaches => ⟨reaches.short, reaches.directories⟩⟩
    exact ⟨eq_false_of_ne_true possible, both.1, both.2⟩

theorem not_reaches_of_place (noUp : Path.up ∉ names) {problem : FileProblem}
    (isNowhere : tree.place [] (.toPlace names) = .error problem) : ¬tree.Reaches names := by
  intro reaches
  rw [(place_toPlace_eq_ok_iff noUp).mpr ⟨rfl, reaches⟩] at isNowhere
  contradiction

theorem read_eq_ok_iff (noUp : Path.up ∉ names) {content : Octets} :
    tree.read [] (.toPlace names) = .ok content ↔ tree.Reaches names ∧ tree.file? names = some content := by
  rw [read, file?_eq_some_iff]
  split
  next problem isNowhere =>
    exact iff_of_false nofun fun both => not_reaches_of_place noUp isNowhere both.1
  next there isThere =>
    obtain ⟨rfl, reaches⟩ := (place_toPlace_eq_ok_iff noUp).mp isThere
    rw [and_iff_right reaches]
    cases tree.node? there with
    | none => exact iff_of_false nofun nofun
    | some node => cases node <;> simp

/-! ## Directories -/

/-- Whether a tree has everything that another has, and beyond that nothing but directories. -/
def Grows (tree next : FileTree) : Prop :=
  ∀ place, next.node? place = tree.node? place ∨
    tree.node? place = none ∧ next.node? place = some .directory

theorem Grows.refl (tree : FileTree) : tree.Grows tree :=
  fun _ => Or.inl rfl

theorem Grows.trans {last : FileTree} (first : tree.Grows next) (second : next.Grows last) :
    tree.Grows last := by
  intro place
  rcases second place with isSame | ⟨isFree, isDirectory⟩
  · rw [isSame]
    exact first place
  · rcases first place with isSame | ⟨-, wasMade⟩
    · exact Or.inr ⟨isSame ▸ isFree, isDirectory⟩
    · exact nomatch isFree.symm.trans wasMade

theorem Grows.directory (grows : tree.Grows next) (isDirectory : tree.node? place = some .directory) :
    next.node? place = some .directory := by
  rcases grows place with isSame | ⟨-, wasMade⟩
  · exact isSame.trans isDirectory
  · exact wasMade

theorem Grows.file? (grows : tree.Grows next) (place : List Text) : next.file? place = tree.file? place := by
  rw [FileTree.file?, FileTree.file?]
  rcases grows place with isSame | ⟨isFree, wasMade⟩
  · rw [isSame]
  · rw [isFree, wasMade]
    rfl

theorem grows_of_makeDirectory (noUp : Path.up ∉ names) (made : tree.makeDirectory names = .ok next) :
    tree.Grows next := by
  rw [makeDirectory] at made
  split at made
  next => contradiction
  next there isThere =>
    obtain ⟨rfl, -⟩ := (place_toPlace_eq_ok_iff noUp).mp isThere
    split at made
    next => contradiction
    next isFree =>
      obtain rfl := Except.ok.inj made
      have isFree : tree.node? there = none := by simpa using isFree
      have notRoot : there ≠ [] := by
        rintro rfl
        contradiction
      intro place
      rw [node?_put notRoot]
      split
      next isPlace => exact Or.inr ⟨isPlace ▸ isFree, rfl⟩
      next => exact Or.inl rfl

theorem grows_of_ensureDirectory (noUp : Path.up ∉ names) (ensured : tree.ensureDirectory names = .ok next) :
    tree.Grows next := by
  induction names generalizing next with
  | nil =>
      obtain rfl := Except.ok.inj ensured
      exact .refl tree
  | cons name above inductionHypothesis =>
      have noUpAll : Path.up ∉ (name :: above).reverse := mt List.mem_reverse.mp noUp
      have noUpAbove : Path.up ∉ above := mt (List.mem_cons_of_mem name) noUp
      have settled {known : FileTree} {problem : FileProblem} (grows : tree.Grows known)
          (same : (if known.isDirectory (name :: above).reverse then Except.ok known
            else .error (Obstacle.mk problem (.toPlace (name :: above).reverse))) = .ok next) :
          tree.Grows next := by
        split at same
        next =>
          obtain rfl := Except.ok.inj same
          exact grows
        next => contradiction
      rw [ensureDirectory] at ensured
      dsimp only at ensured
      split at ensured
      next made isMade =>
        obtain rfl := Except.ok.inj ensured
        exact grows_of_makeDirectory noUpAll isMade
      next =>
        split at ensured
        next => contradiction
        next prepared isPrepared =>
          have grows := inductionHypothesis noUpAbove isPrepared
          split at ensured
          next made isMade =>
            obtain rfl := Except.ok.inj ensured
            exact grows.trans (grows_of_makeDirectory noUpAll isMade)
          next => exact settled grows ensured
      next => exact settled (.refl tree) ensured

/-! ## Files -/

section Putting

variable (noDirectory : tree.node? place ≠ some .directory) (content : Octets)
include noDirectory

theorem node?_put_file (other : List Text) :
    (tree.put place (.file content)).node? other =
      if other = place then some (.file content) else tree.node? other := by
  refine node?_put ?_ _ other
  rintro rfl
  exact noDirectory rfl

theorem file?_put_file (other : List Text) :
    (tree.put place (.file content)).file? other = if other = place then some content else tree.file? other := by
  rw [file?, file?, node?_put_file noDirectory]
  split <;> rfl

/-- A file that is put where no directory is leaves all directories in place. -/
theorem directory_put_file {other : List Text} (isDirectory : tree.node? other = some .directory) :
    (tree.put place (.file content)).node? other = some .directory := by
  have notPlace : other ≠ place := fun isPlace => noDirectory (isPlace ▸ isDirectory)
  rw [node?_put_file noDirectory, if_neg notPlace]
  exact isDirectory

end Putting

theorem writeFile_eq_ok_iff (noUp : Path.up ∉ names) {content : Octets} :
    tree.writeFile names content = .ok next ↔
      tree.Reaches names ∧ tree.node? names ≠ some .directory ∧ next = tree.put names (.file content) := by
  rw [writeFile]
  split
  next problem isNowhere =>
    exact iff_of_false nofun fun both => not_reaches_of_place noUp isNowhere both.1
  next there isThere =>
    obtain ⟨rfl, reaches⟩ := (place_toPlace_eq_ok_iff noUp).mp isThere
    rw [and_iff_right reaches, isDirectory]
    split
    next isDirectory => exact iff_of_false nofun fun both => both.1 (eq_of_beq isDirectory)
    next isOther =>
      rw [Except.ok.injEq, eq_comm, iff_and_self]
      exact fun _ isDirectory => isOther (beq_iff_eq.mpr isDirectory)

/-! ## Impossible paths -/

theorem walk_ne_impossible (here parts : List Text) : tree.walk here parts ≠ .error .impossiblePath := by
  induction parts generalizing here with
  | nil => exact nofun
  | cons part rest inductionHypothesis =>
      rw [walk]
      split
      next => exact fun impossible => FileProblem.noConfusion (Except.error.inj impossible)
      next => exact fun impossible => FileProblem.noConfusion (Except.error.inj impossible)
      next =>
        split
        next => exact inductionHypothesis _
        next =>
          split
          next => exact fun impossible => FileProblem.noConfusion (Except.error.inj impossible)
          next => exact inductionHypothesis _

theorem place_eq_impossible_iff {directory : List Text} {path : Path} :
    tree.place directory path = .error .impossiblePath ↔ isImpossible path.parts = true := by
  rw [place]
  split
  next impossible => exact iff_of_true rfl impossible
  next possible => exact iff_of_false (walk_ne_impossible _ _) possible

theorem read_of_impossible (tree : FileTree) (directory : List Text) {path : Path}
    (impossible : isImpossible path.parts = true) :
    tree.read directory path = .error ⟨.impossiblePath, path⟩ := by
  rw [read, place_eq_impossible_iff.mpr impossible]

/-- Reading meets an impossible path only where the path is impossible. -/
theorem isImpossible_of_read {directory : List Text} {path : Path} {obstacle : Obstacle}
    (met : tree.read directory path = .error obstacle) (isProblem : obstacle.problem = .impossiblePath) :
    isImpossible path.parts = true := by
  rw [read] at met
  split at met
  next problem atPlace =>
    obtain rfl := Except.error.inj met
    obtain rfl : problem = .impossiblePath := isProblem
    exact place_eq_impossible_iff.mp atPlace
  next place atPlace =>
    split at met
    next => exact absurd isProblem (Except.error.inj met ▸ nofun)
    next => exact absurd isProblem (Except.error.inj met ▸ nofun)
    next => contradiction

end FileTree

end SceneBundler
