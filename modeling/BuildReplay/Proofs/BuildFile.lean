import BuildReplay.BuildFile
import BuildReplay.Proofs.FileTree
import Mathlib.Data.List.Nodup

/-! # Searches for build files

A search goes down from its root through all directories that it does not skip. What it finds is
known from the tree alone, and not from the order in which directories list their entries. -/

namespace BuildReplay

/-- The names lead from a node to a file of a name, through no directory that searches skip. The
node itself is called `own`, and is searched whatever that is. -/
structure FileNode.Finds (n : FileNode) (name own : String) (names : List String) : Prop where
  file : n.FileAt names
  name_eq : names.getLastD own = name
  not_skipped : ∀ d ∈ names.dropLast, d ∉ skippedDirectories

namespace FileNode

variable {name own : String} {names : List String}

theorem finds_file {bytes : ByteArray} :
    (FileNode.file bytes).Finds name own names ↔ names = [] ∧ own = name := by
  constructor
  · rintro ⟨hfile, hname, -⟩
    cases hfile
    exact ⟨rfl, hname⟩
  · rintro ⟨rfl, rfl⟩
    exact ⟨.here bytes, rfl, by simp⟩

/-- In a directory the first name is that of an entry. If the entry is a directory in turn, it must
not be one to skip. -/
theorem finds_directory {entries : List (String × FileNode)} :
    (FileNode.directory entries).Finds name own names ↔
      ∃ e ∈ entries, ∃ rest, e.2.Finds name e.1 rest ∧ (rest ≠ [] → e.1 ∉ skippedDirectories) ∧
        names = e.1 :: rest := by
  constructor
  · rintro ⟨hfile, hname, hskip⟩
    obtain _ | @⟨_, entry, n, rest, hmem, hfile⟩ := hfile
    rw [List.getLastD_cons] at hname
    by_cases hrest : rest = []
    · subst hrest
      exact ⟨_, hmem, [], ⟨hfile, hname, by simp⟩, absurd rfl, rfl⟩
    · rw [List.dropLast_cons_of_ne_nil hrest, List.forall_mem_cons] at hskip
      exact ⟨_, hmem, rest, ⟨hfile, hname, hskip.2⟩, fun _ => hskip.1, rfl⟩
  · rintro ⟨e, hmem, rest, ⟨hfile, hname, hskip⟩, hentry, rfl⟩
    refine ⟨.inside hmem hfile, by rwa [List.getLastD_cons], ?_⟩
    by_cases hrest : rest = []
    · subst hrest
      simp
    · rw [List.dropLast_cons_of_ne_nil hrest, List.forall_mem_cons]
      exact ⟨hentry hrest, hskip⟩

theorem Rearranged.finds_iff {n n' : FileNode} (h : n.Rearranged n') :
    n.Finds name own names ↔ n'.Finds name own names :=
  ⟨fun hf => ⟨h.fileAt hf.file, hf.name_eq, hf.not_skipped⟩,
    fun hf => ⟨h.symm.fileAt hf.file, hf.name_eq, hf.not_skipped⟩⟩

end FileNode

/-! ## What is found -/

section Found

variable (name : String)

theorem filesBelow_eq (dir : Path) (entries : List (String × FileNode)) :
    filesBelow name dir entries =
      entries.flatMap fun e => filesNamed name (dir.join ⟨e.1⟩) e.1 e.2 := by
  induction entries with
  | nil => simp only [filesBelow, List.flatMap_nil]
  | cons e rest ih => simp only [filesBelow, List.flatMap_cons, ih]

theorem mem_filesBelow {dir p : Path} {entries : List (String × FileNode)}
    (h : ∀ e ∈ entries, ∀ path, p ∈ filesNamed name path e.1 e.2 ↔
      ∃ names, e.2.Finds name e.1 names ∧ (names ≠ [] → e.1 ∉ skippedDirectories) ∧
        p = path.descend names) (own : String) :
    p ∈ filesBelow name dir entries ↔
      ∃ names, (FileNode.directory entries).Finds name own names ∧ p = dir.descend names := by
  simp only [filesBelow_eq, List.mem_flatMap, FileNode.finds_directory]
  constructor
  · rintro ⟨e, he, hp⟩
    obtain ⟨rest, hfinds, hskip, rfl⟩ := (h e he _).1 hp
    exact ⟨_, ⟨e, he, rest, hfinds, hskip, rfl⟩, rfl⟩
  · rintro ⟨_, ⟨e, he, rest, hfinds, hskip, rfl⟩, rfl⟩
    exact ⟨e, he, (h e he _).2 ⟨rest, hfinds, hskip, rfl⟩⟩

theorem mem_filesNamed {p : Path} (n : FileNode) : ∀ (path : Path) (entry : String),
    p ∈ filesNamed name path entry n ↔
      ∃ names, n.Finds name entry names ∧ (names ≠ [] → entry ∉ skippedDirectories) ∧
        p = path.descend names := by
  induction n using FileNode.induct with
  | file bytes =>
      intro path entry
      simp only [filesNamed, FileNode.finds_file]
      split
      · simp_all [Path.descend]
      · simp_all
  | directory entries ih =>
      intro path entry
      simp only [filesNamed]
      split
      · rename_i hskip
        simp only [List.not_mem_nil, false_iff]
        rintro ⟨names, hfinds, hentry, -⟩
        obtain ⟨e, -, rest, -, -, rfl⟩ := FileNode.finds_directory.1 hfinds
        exact hentry (by simp) hskip
      · rename_i hskip
        rw [mem_filesBelow name (fun e he path => ih e he path e.1) entry]
        simp only [hskip, not_false_eq_true, implies_true, true_and]

/-- The root's own name counts for a file alone. -/
theorem mem_filesUnder {root p : Path} (n : FileNode) :
    p ∈ filesUnder name root n ↔
      ∃ names, n.Finds name (root.fileName?.getD root.text) names ∧ p = root.descend names := by
  cases n with
  | file bytes =>
      simp only [filesUnder, FileNode.finds_file]
      split
      · simp_all [Path.descend]
      · simp_all
  | directory entries =>
      exact mem_filesBelow name (fun e _ path => mem_filesNamed name e.2 path e.1) _

/-! ## How often it is found -/

/-- All that is found at a path stands below the path. -/
theorem prefix_of_mem_filesNamed {n : FileNode} (hn : n.Proper) {path p : Path} {entry : String}
    (h : p ∈ filesNamed name path entry n) : path.components <+: p.components := by
  obtain ⟨names, hfinds, -, rfl⟩ := (mem_filesNamed name n path entry).1 h
  rw [Path.components_descend path (hfinds.file.isEntry hn)]
  exact List.prefix_append _ _

theorem nodup_filesBelow {entries : List (String × FileNode)}
    (hn : (FileNode.directory entries).Proper) (dir : Path)
    (h : ∀ e ∈ entries, ∀ path, ((filesNamed name path e.1 e.2).map Path.components).Nodup) :
    ((filesBelow name dir entries).map Path.components).Nodup := by
  obtain _ | ⟨hnodup, hentry, hproper⟩ := hn
  rw [filesBelow_eq, List.map_flatMap, List.nodup_flatMap]
  refine ⟨fun e he => h e he _, (List.pairwise_map.1 hnodup).imp_of_mem ?_⟩
  intro e e' he he' hne components hmem hmem'
  -- what stands below two entries has two names in the same place
  obtain ⟨p, hp, rfl⟩ := List.mem_map.1 hmem
  obtain ⟨p', hp', hcomponents⟩ := List.mem_map.1 hmem'
  have hprefix := prefix_of_mem_filesNamed name (hproper e he) hp
  have hprefix' := prefix_of_mem_filesNamed name (hproper e' he') hp'
  rw [(hentry e he).components_join] at hprefix
  rw [(hentry e' he').components_join, hcomponents] at hprefix'
  have heq := (List.prefix_of_prefix_length_le hprefix hprefix' (by simp)).eq_of_length (by simp)
  exact hne (by simpa using heq)

theorem nodup_filesNamed {n : FileNode} (hn : n.Proper) : ∀ (path : Path) (entry : String),
    ((filesNamed name path entry n).map Path.components).Nodup := by
  induction hn with
  | file bytes =>
      intro path entry
      simp only [filesNamed]
      split <;> simp
  | directory hnodup hentry hproper ih =>
      intro path entry
      simp only [filesNamed]
      split
      · exact .nil
      · exact nodup_filesBelow name (.directory hnodup hentry hproper) path
          fun e he path => ih e he path e.1

theorem nodup_filesUnder {n : FileNode} (hn : n.Proper) (root : Path) :
    ((filesUnder name root n).map Path.components).Nodup := by
  cases n with
  | file bytes =>
      simp only [filesUnder]
      split <;> simp
  | directory entries =>
      refine nodup_filesBelow name hn root fun e he path => ?_
      obtain _ | ⟨-, -, hproper⟩ := hn
      exact nodup_filesNamed name (hproper e he) path e.1

end Found

/-! ## The search -/

namespace FileSystem

variable {fs : FileSystem}

theorem findBuildFiles_of_ok {root : Path} {n : FileNode} (h : fs.resolve root = .ok n)
    (name : String) :
    (findBuildFiles fs.files root name).run = (filesUnder name root n).mergeSort Path.le := by
  simp only [findBuildFiles, files, h]
  rfl

theorem findBuildFiles_of_error {root : Path} {fault : Fault} (h : fs.resolve root = .error fault)
    (name : String) : (findBuildFiles fs.files root name).run = [] := by
  simp only [findBuildFiles, files, h]
  rfl

/-- The paths are those of all files of a name at or below a root, in increasing order and each of
them once. -/
structure AreBuildFiles (fs : FileSystem) (root : Path) (name : String) (found : List Path) :
    Prop where
  mem_iff : ∀ p, p ∈ found ↔ ∃ n names, fs.resolve root = .ok n ∧
    n.Finds name (root.fileName?.getD root.text) names ∧ p = root.descend names
  ordered : found.Pairwise Path.Before
  nodup : found.Nodup

theorem findBuildFiles_areBuildFiles (h : fs.top.Proper) (root : Path) (name : String) :
    AreBuildFiles fs root name (findBuildFiles fs.files root name).run := by
  cases hn : fs.resolve root with
  | error fault =>
      rw [findBuildFiles_of_error hn]
      exact ⟨by simp [hn], .nil, .nil⟩
  | ok n =>
      rw [findBuildFiles_of_ok hn]
      have hordered := Path.pairwise_before_mergeSort
        (nodup_filesUnder name (resolve_proper h hn) root)
      refine ⟨fun p => ?_, hordered, Path.nodup_of_pairwise_before hordered⟩
      rw [List.mem_mergeSort, mem_filesUnder]
      simp [hn]

/-- A search finds exactly the files of the name that no skipped directory hides, each once and in
increasing order, in whatever order the directories list their entries. -/
theorem findBuildFiles_exact (h : fs.top.Proper) (root : Path) (name : String) :
    AreBuildFiles fs root name (findBuildFiles fs.files root name).run ∧
    ∀ top', fs.top.Rearranged top' →
      (findBuildFiles { fs with top := top' }.files root name).run =
        (findBuildFiles fs.files root name).run := by
  have hfound := findBuildFiles_areBuildFiles h root name
  refine ⟨hfound, fun top' hrearranged => ?_⟩
  have hfound' : AreBuildFiles { fs with top := top' } root name
      (findBuildFiles { fs with top := top' }.files root name).run :=
    findBuildFiles_areBuildFiles (hrearranged.proper h) root name
  refine Path.eq_of_pairwise_before hfound'.ordered hfound.ordered fun p => ?_
  rw [hfound.mem_iff, hfound'.mem_iff]
  have hresolve := resolve_rearranged hrearranged root
  generalize fs.resolve root = r, { fs with top := top' }.resolve root = r' at hresolve
  cases hresolve with
  | error fault => simp
  | ok hn => simp [hn.finds_iff]

/-- A project in a directory with a name that searches skip, beside an output directory. -/
def projectInBuild : FileSystem where
  top := .directory [("build", .directory
    [("target", .directory [("app.toml", .file .empty)]), ("app.toml", .file .empty)])]
  workingDir := []

theorem projectInBuild_proper : projectInBuild.top.Proper := by
  have hentry : ∀ name ∈ ["build", "target", "app.toml"], Path.IsEntry name := by
    intro name hname
    exact ⟨by revert name; decide, by revert name; decide, by revert name; decide,
      by revert name; decide⟩
  have hfile : ∀ e ∈ [("app.toml", FileNode.file .empty)], e.2.Proper := by
    simp [FileNode.Proper.file]
  have htarget : (FileNode.directory [("app.toml", .file .empty)]).Proper :=
    .directory (by simp) (by simp [hentry]) hfile
  have hbuild : (FileNode.directory
      [("target", .directory [("app.toml", .file .empty)]), ("app.toml", .file .empty)]).Proper :=
    .directory (by simp) (by simp [hentry]) (by simpa [htarget] using hfile)
  exact .directory (by simp) (by simp [hentry]) (by simpa using hbuild)

/-- Only what lies below the root is skipped. -/
theorem findBuildFiles_exact_projectInBuild :
    projectInBuild.top.Proper ∧
    AreBuildFiles projectInBuild ⟨"/build"⟩ "app.toml" [⟨"/build/app.toml"⟩] := by
  have hfound : (findBuildFiles projectInBuild.files ⟨"/build"⟩ "app.toml").run =
      [⟨"/build/app.toml"⟩] := by
    rw [findBuildFiles_of_ok (show projectInBuild.resolve ⟨"/build"⟩ = .ok (.directory
      [("target", .directory [("app.toml", .file .empty)]), ("app.toml", .file .empty)]) from rfl)]
    rw [show filesUnder "app.toml" ⟨"/build"⟩ _ = [⟨"/build/app.toml"⟩] from rfl,
      List.mergeSort_singleton]
  have h := (findBuildFiles_exact projectInBuild_proper ⟨"/build"⟩ "app.toml").1
  rw [hfound] at h
  exact ⟨projectInBuild_proper, h⟩

end FileSystem

end BuildReplay
