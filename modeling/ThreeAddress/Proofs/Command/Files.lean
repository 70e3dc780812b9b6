import ThreeAddress.Command.Files
import ThreeAddress.Proofs.Sequence

/-!
# Writing files

Where a path leads depends on the directories only, and writing a file changes none of them
(`FileTree.sameShape_put`). So a path that could be written before other files were still can, and
leads to the same place (`FileTree.SameShape.target_ok`); and a file that has been written is read
back (`FileTree.read_of_target`).
-/

namespace ThreeAddress

open Sequence

namespace FileTree

/-- The place where a file is written for a path. -/
def target (tree : FileTree) (name : String) : Except FileError Place := do
  let path ← Path.ofString name
  let place ← tree.walk path
  if path.closed then .error .isDirectory
  else
    match ← tree.goal place path.names.getLast? with
    | .directory => .error .isDirectory
    | .file place _ | .free place => .ok place

/-- A text is written at the place that the path leads to, or not at all. -/
theorem write_eq (tree : FileTree) (name text : String) :
    tree.write name text = (tree.target name).map (tree.put · text.toUTF8) := by
  rw [write, target]
  cases Path.ofString name with
  | error error => rfl
  | ok path =>
    show (tree.walk path >>= _ : Except _ _) = (tree.walk path >>= _ : Except _ _).map _
    cases tree.walk path with
    | error error => rfl
    | ok place =>
      show (if path.closed then _ else _) = (if path.closed then _ else _ : Except _ _).map _
      split
      · rfl
      · show (tree.goal place _ >>= _ : Except _ _) = (tree.goal place _ >>= _ : Except _ _).map _
        cases tree.goal place path.names.getLast? with
        | error error => rfl
        | ok goal => cases goal <;> rfl

variable {tree after : FileTree} {place other : Place} {name : String} {bytes : ByteArray}

/-! ## Directories -/

/-- The directories that a tree tells of. All others are on the way to one of these. -/
inductive Tells (tree : FileTree) : Place → Prop where
  | home : tree.Tells tree.home
  | directory {directory : Place} : directory ∈ tree.directories → tree.Tells directory
  | file {file : Place × ByteArray} : file ∈ tree.files → tree.Tells file.1.dropLast
  | sink {sink : Place} : sink ∈ tree.sinks → tree.Tells sink.dropLast

/-- There is a directory on the way to one that the tree tells of, and at its end. -/
theorem hasDirectory_iff : tree.hasDirectory place = true ↔
    ∃ directory, tree.Tells directory ∧ place <+: directory := by
  simp only [hasDirectory, Bool.or_eq_true, List.any_eq_true, List.isPrefixOf_iff_prefix,
    or_assoc]
  constructor
  · rintro (h | ⟨directory, hmem, h⟩ | ⟨file, hmem, h⟩ | ⟨sink, hmem, h⟩)
    · exact ⟨_, .home, h⟩
    · exact ⟨_, .directory hmem, h⟩
    · exact ⟨_, .file hmem, h⟩
    · exact ⟨_, .sink hmem, h⟩
  · rintro ⟨directory, htells, h⟩
    cases htells with
    | home => exact .inl h
    | directory hmem => exact .inr (.inl ⟨_, hmem, h⟩)
    | file hmem => exact .inr (.inr (.inl ⟨_, hmem, h⟩))
    | sink hmem => exact .inr (.inr (.inr ⟨_, hmem, h⟩))

/-- What holds a directory is one. -/
theorem hasDirectory_of_prefix (h : tree.hasDirectory place = true) (hfront : other <+: place) :
    tree.hasDirectory other = true := by
  obtain ⟨directory, htells, hplace⟩ := hasDirectory_iff.1 h
  exact hasDirectory_iff.2 ⟨directory, htells, hfront.trans hplace⟩

/-- A name on the way leads to a directory. -/
theorem hasDirectory_enter {next : Place} (h : tree.hasDirectory place = true)
    (henter : tree.enter place name = .ok next) : tree.hasDirectory next = true := by
  rw [enter] at henter
  split at henter
  · cases henter
    exact h
  split at henter
  · cases henter
    exact hasDirectory_of_prefix h place.dropLast_prefix
  split at henter
  · cases henter
  split at henter
  · next hdirectory =>
    cases henter
    exact hdirectory
  · split at henter <;> cases henter

/-- The names on the way lead to a directory. -/
theorem hasDirectory_walk {path : Path} (h : tree.walk path = .ok place) :
    tree.hasDirectory place = true := by
  have hfold (names : List String) {start : Place} (hstart : tree.hasDirectory start = true)
      (hwalk : names.foldlM tree.enter start = .ok place) : tree.hasDirectory place = true := by
    induction names generalizing start with
    | nil =>
      cases hwalk
      exact hstart
    | cons name names ih =>
      rw [List.foldlM_cons] at hwalk
      obtain ⟨next, hnext, hwalk⟩ := except_bind_ok.1 hwalk
      exact ih (hasDirectory_enter hstart hnext) hwalk
  refine hfold _ (hasDirectory_iff.2 ⟨tree.home, .home, ?_⟩) h
  split
  · exact List.nil_prefix
  · exact List.prefix_refl _

/-! ## Where paths lead -/

/-- A path leads to a place where a file is written: the last name is that of a file, or of nothing
yet, in the directory that the other names lead to. -/
theorem target_ok_iff : tree.target name = .ok place ↔
    ∃ path directory last, Path.ofString name = .ok path ∧ tree.walk path = .ok directory ∧
      path.closed = false ∧ path.names.getLast? = some last ∧ Path.isDots last = false ∧
      last.utf8ByteSize ≤ Path.maxNameBytes ∧ directory ++ [last] = place ∧
      tree.hasDirectory place = false := by
  rw [target, except_bind_ok]
  constructor
  · rintro ⟨path, hpath, h⟩
    obtain ⟨directory, hwalk, h⟩ := except_bind_ok.1 h
    split at h
    · cases h
    next hclosed =>
    obtain ⟨goal, hgoal, h⟩ := except_bind_ok.1 h
    cases hlast : path.names.getLast? with
    | none =>
      rw [hlast] at hgoal
      cases hgoal
      cases h
    | some last =>
      rw [hlast, FileTree.goal] at hgoal
      split at hgoal
      · cases hgoal
        cases h
      split at hgoal
      · cases hgoal
      next hdots hbytes =>
      cases hgoal
      refine ⟨path, directory, last, hpath, hwalk, eq_false_of_ne_true hclosed, hlast,
        eq_false_of_ne_true hdots, Nat.not_lt.1 hbytes, ?_⟩
      cases hplace : tree.hasDirectory (directory ++ [last]) with
      | true =>
        rw [goalAt, if_pos hplace] at h
        cases h
      | false =>
        rw [goalAt, if_neg (by simp [hplace])] at h
        have hsame : directory ++ [last] = place := by
          cases hfile : tree.file? (directory ++ [last]) <;> rw [hfile] at h <;> cases h <;> rfl
        exact ⟨hsame, hsame ▸ hplace⟩
  · rintro ⟨path, directory, last, hpath, hwalk, hclosed, hlast, hdots, hbytes, rfl, hplace⟩
    refine ⟨path, hpath, except_bind_ok.2 ⟨directory, hwalk, ?_⟩⟩
    rw [if_neg (by simp [hclosed]), hlast]
    refine except_bind_ok.2 ⟨tree.goalAt (directory ++ [last]), ?_, ?_⟩
    · rw [FileTree.goal, if_neg (by simp [hdots]), if_neg (Nat.not_lt.2 hbytes)]
    · rw [goalAt, if_neg (by simp [hplace])]
      cases tree.file? (directory ++ [last]) <;> rfl

/-- A file is written in a directory, and not in the place of one. -/
theorem hasDirectory_target (h : tree.target name = .ok place) :
    tree.hasDirectory place.dropLast = true ∧ tree.hasDirectory place = false := by
  obtain ⟨path, directory, last, -, hwalk, -, -, -, -, rfl, hplace⟩ := target_ok_iff.1 h
  rw [List.dropLast_concat]
  exact ⟨hasDirectory_walk hwalk, hplace⟩

/-- Two trees with the same directories, in which the command runs at the same place. -/
structure SameShape (tree after : FileTree) : Prop where
  home : after.home = tree.home
  hasDirectory (place : Place) : after.hasDirectory place = tree.hasDirectory place

namespace SameShape

theorem refl (tree : FileTree) : SameShape tree tree := ⟨rfl, fun _ => rfl⟩

theorem trans {last : FileTree} (h : SameShape tree after) (h' : SameShape after last) :
    SameShape tree last :=
  ⟨h'.home.trans h.home, fun place => (h'.hasDirectory place).trans (h.hasDirectory place)⟩

/-- A name on the way leads to the same directory. -/
theorem enter_ok (h : SameShape tree after) {next : Place} :
    after.enter place name = .ok next ↔ tree.enter place name = .ok next := by
  have hfails (other : FileTree) : (if (other.file? (place ++ [name])).isSome then
      .error .notDirectory else .error .missing : Except FileError Place) ≠ .ok next := by
    split <;> nofun
  simp only [enter, h.hasDirectory]
  split
  · rfl
  split
  · rfl
  split
  · rfl
  split
  · rfl
  · exact iff_of_false (hfails after) (hfails tree)

/-- The names on the way lead to the same directory. -/
theorem walk_ok (h : SameShape tree after) {path : Path} :
    after.walk path = .ok place ↔ tree.walk path = .ok place := by
  have hfold (names : List String) (start : Place) :
      names.foldlM after.enter start = .ok place ↔ names.foldlM tree.enter start = .ok place := by
    induction names generalizing start with
    | nil => rfl
    | cons name names ih =>
      simp only [List.foldlM_cons, except_bind_ok, h.enter_ok, ih]
  rw [FileTree.walk, FileTree.walk, h.home]
  exact hfold _ _

/-- A path leads to the same place where a file is written. -/
theorem target_ok (h : SameShape tree after) :
    after.target name = .ok place ↔ tree.target name = .ok place := by
  simp only [target_ok_iff, h.walk_ok, h.hasDirectory]

end SameShape

/-! ## Paths that no system can be asked for -/

/-- A name on the way is not refused because of a zero. -/
theorem enter_ne_zero (tree : FileTree) (place : Place) (name : String) :
    tree.enter place name ≠ .error .zeroInPath := by
  rw [enter]
  repeat' split
  all_goals nofun

/-- The names on the way are not refused because of a zero. -/
theorem walk_ne_zero (tree : FileTree) (path : Path) : tree.walk path ≠ .error .zeroInPath := by
  have hfold (names : List String) (start : Place) :
      names.foldlM tree.enter start ≠ .error .zeroInPath := by
    induction names generalizing start with
    | nil => nofun
    | cons name names ih =>
      intro h
      rw [List.foldlM_cons] at h
      rcases except_bind_error.1 h with h | ⟨next, -, h⟩
      · exact tree.enter_ne_zero start name h
      · exact ih next h
  exact hfold _ _

/-- The last name is not refused because of a zero. -/
theorem goal_ne_zero (tree : FileTree) (place : Place) (last : Option String) :
    tree.goal place last ≠ .error .zeroInPath := by
  cases last with
  | none => nofun
  | some name =>
    rw [goal]
    repeat' split
    all_goals nofun

/-- A path is refused because of a zero iff it holds one. -/
theorem ofString_zero_iff : Path.ofString name = .error .zeroInPath ↔ '\x00' ∈ name.toList := by
  rw [Path.ofString]
  split
  · next hzero => exact iff_of_true rfl hzero
  · next hzero =>
    refine iff_of_false ?_ hzero
    repeat' split
    all_goals nofun

/-- A path to write at is refused because of a zero iff it holds one. -/
theorem target_zero_iff (tree : FileTree) (name : String) :
    tree.target name = .error .zeroInPath ↔ '\x00' ∈ name.toList := by
  rw [← ofString_zero_iff, target, except_bind_error, or_iff_left]
  rintro ⟨path, -, h⟩
  rcases except_bind_error.1 h with h | ⟨place, -, h⟩
  · exact tree.walk_ne_zero path h
  · split at h
    · cases h
    · rcases except_bind_error.1 h with h | ⟨goal, -, h⟩
      · exact tree.goal_ne_zero place _ h
      · cases goal <;> cases h

/-- A path to read from is refused because of a zero iff it holds one. -/
theorem read_zero_iff : tree.read name = .error .zeroInPath ↔ '\x00' ∈ name.toList := by
  rw [← ofString_zero_iff, read, except_bind_error, or_iff_left]
  rintro ⟨path, -, h⟩
  rcases except_bind_error.1 h with h | ⟨place, -, h⟩
  · exact tree.walk_ne_zero path h
  · rcases except_bind_error.1 h with h | ⟨goal, -, h⟩
    · exact tree.goal_ne_zero place _ h
    · cases goal with
      | directory | free => cases h
      | file =>
        dsimp only at h
        split at h <;> cases h

/-! ## Writing -/

/-- The other files are as they were. -/
theorem file?_put_of_ne (h : other ≠ place) :
    (tree.put place bytes).file? other = tree.file? other := by
  rw [put]
  split
  · rfl
  · have hothers : ((tree.files.filter fun file => file.1 != place) ++ [(place, bytes)]).find?
        (·.1 == other) = tree.files.find? (·.1 == other) := by
      have hkept (file : Place × ByteArray) :
          decide ((file.1 != place) = true ∧ (file.1 == other) = true) = (file.1 == other) := by
        by_cases hfile : file.1 = other <;> simp [hfile, h]
      rw [List.find?_append, List.find?_filter, funext hkept, List.find?_singleton,
        if_neg (by simpa using Ne.symm h), Option.or_none]
    rw [file?, file?, hothers]

/-- What has been written is there, unless the file is a sink. -/
theorem file?_put_self (h : place ∉ tree.sinks) :
    (tree.put place bytes).file? place = some bytes := by
  have hnone : (tree.files.filter fun file => file.1 != place).find? (·.1 == place) = none :=
    List.find?_eq_none.2 fun file hfile => by simpa using (List.mem_filter.1 hfile).2
  rw [put, if_neg h, file?, if_neg h, List.find?_append, hnone, Option.none_or,
    List.find?_singleton, if_pos (beq_self_eq_true place)]
  rfl

/-- A tree with a new file tells of the same directories, and of that of the file. -/
theorem tells_put (h : place ∉ tree.sinks) {directory : Place} :
    (tree.put place bytes).Tells directory ↔
      tree.Tells directory ∨ directory = place.dropLast := by
  rw [put, if_neg h]
  constructor
  · intro htells
    cases htells with
    | home => exact .inl .home
    | directory hmem => exact .inl (.directory hmem)
    | sink hmem => exact .inl (.sink hmem)
    | file hmem =>
      rcases List.mem_append.1 hmem with hkept | hnew
      · exact .inl (.file (List.mem_filter.1 hkept).1)
      · exact .inr (congrArg (·.1.dropLast) (List.mem_singleton.1 hnew))
  · have hnew : Tells { tree with
        files := (tree.files.filter fun file => file.1 != place) ++ [(place, bytes)] }
        place.dropLast :=
      @Tells.file _ (place, bytes) (List.mem_append_right _ (List.mem_singleton_self _))
    rintro (htells | rfl)
    · cases htells with
      | home => exact .home
      | directory hmem => exact .directory hmem
      | sink hmem => exact .sink hmem
      | @file file hmem =>
        -- The file that was at the place before is replaced by the new one in the same directory.
        by_cases hsame : file.1 = place
        · rw [hsame]
          exact hnew
        · exact .file (List.mem_append_left _ (List.mem_filter.2 ⟨hmem, by simpa using hsame⟩))
    · exact hnew

/-- To write a file in a directory changes no directory. -/
theorem sameShape_put (h : tree.hasDirectory place.dropLast = true) (bytes : ByteArray) :
    SameShape tree (tree.put place bytes) := by
  by_cases hsink : place ∈ tree.sinks
  · rw [put, if_pos hsink]
    exact .refl tree
  refine ⟨by rw [put, if_neg hsink], fun other => ?_⟩
  rw [Bool.eq_iff_iff]
  constructor
  · intro hother
    obtain ⟨directory, htells, hfront⟩ := hasDirectory_iff.1 hother
    rcases (tells_put hsink).1 htells with htells | rfl
    · exact hasDirectory_iff.2 ⟨directory, htells, hfront⟩
    · exact hasDirectory_of_prefix h hfront
  · intro hother
    obtain ⟨directory, htells, hfront⟩ := hasDirectory_iff.1 hother
    exact hasDirectory_iff.2 ⟨directory, (tells_put hsink).2 (.inl htells), hfront⟩

/-- No file becomes a sink or is none any more. -/
theorem sinks_put (tree : FileTree) (place : Place) (bytes : ByteArray) :
    (tree.put place bytes).sinks = tree.sinks := by
  rw [put]
  split <;> rfl

/-- What a file holds is read from a path that leads to it. -/
theorem read_of_target (h : tree.target name = .ok place) (hfile : tree.file? place = some bytes) :
    tree.read name = .ok bytes := by
  obtain ⟨path, directory, last, hpath, hwalk, hclosed, hlast, hdots, hbytes, rfl, hplace⟩ :=
    target_ok_iff.1 h
  rw [read, except_bind_ok]
  refine ⟨path, hpath, except_bind_ok.2 ⟨directory, hwalk, except_bind_ok.2
    ⟨.file (directory ++ [last]) bytes, ?_, ?_⟩⟩⟩
  · rw [hlast, FileTree.goal, if_neg (by simp [hdots]), if_neg (Nat.not_lt.2 hbytes), goalAt,
      if_neg (by simp [hplace]), hfile]
  · exact if_neg (by simp [hclosed])

end FileTree

end ThreeAddress
