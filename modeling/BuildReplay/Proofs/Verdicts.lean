import BuildReplay.Proofs.BuildFile
import BuildReplay.Proofs.Edits

/-! # Verdicts on build files

What `check` reports: a verdict on every build file under a root, each on the file alone, and their
count. -/

namespace BuildReplay

namespace FileSystem

variable {fs : FileSystem}

/-! ## Found files -/

theorem exists_of_descend {names : List String} (hnames : ∀ name ∈ names, Path.IsEntry name)
    {root : Path} (hroot : root.text ≠ "") {m : FileNode}
    (h : fs.resolve (root.descend names) = .ok m) : ∃ n, fs.resolve root = .ok n := by
  induction names generalizing root with
  | nil => exact ⟨m, h⟩
  | cons entry rest ih =>
      obtain ⟨hentry, hrest⟩ := List.forall_mem_cons.1 hnames
      obtain ⟨n, hn⟩ := ih hrest (hentry.text_join_ne root) h
      obtain ⟨entries, hdir, -⟩ := resolve_join hentry hroot hn
      exact ⟨_, hdir⟩

/-- The names that lead to a file lead to it as a path, unless the path is too long. -/
theorem file_of_fileAt {n : FileNode} {names : List String} (hfile : n.FileAt names)
    (hn : n.Proper) {root : Path} (hroot : fs.resolve root = .ok n) {m : FileNode}
    (h : fs.resolve (root.descend names) = .ok m) : ∃ bytes, m = .file bytes := by
  induction hfile generalizing root with
  | here bytes =>
      have heq : fs.resolve root = .ok m := h
      rw [hroot] at heq
      cases heq
      exact ⟨bytes, rfl⟩
  | @inside entries entry n rest hmem hfile ih =>
      obtain _ | ⟨hnodup, hentry, hproper⟩ := hn
      have hentry := hentry _ hmem
      obtain ⟨n', hn'⟩ :=
        exists_of_descend (hfile.isEntry (hproper _ hmem)) (hentry.text_join_ne root) h
      obtain ⟨entries', hdir, hfind⟩ := resolve_join hentry (text_ne_of_resolve hroot) hn'
      rw [hroot] at hdir
      cases hdir
      have heq := List.inj_on_of_nodup_map hnodup (FileNode.mem_of_find? hfind) hmem rfl
      cases heq
      exact ih (hproper _ hmem) hn' h

section Found

variable {root file : Path} {name : String}

theorem not_isDirectory_of_found (h : fs.top.Proper)
    (hfile : file ∈ (findBuildFiles fs.files root name).run) : ¬fs.IsDirectory file := by
  rintro ⟨entries, hentries⟩
  obtain ⟨n, names, hroot, hfinds, rfl⟩ :=
    ((findBuildFiles_areBuildFiles h root name).mem_iff file).1 hfile
  obtain ⟨bytes, hbytes⟩ := file_of_fileAt hfinds.file (resolve_proper h hroot) hroot hentries
  cases hbytes

theorem components_of_found (h : fs.top.Proper) (hname : Path.IsEntry name)
    (hfile : file ∈ (findBuildFiles fs.files root name).run) :
    ∃ before, file.components = before ++ [.name name] := by
  obtain ⟨n, names, hroot, hfinds, rfl⟩ :=
    ((findBuildFiles_areBuildFiles h root name).mem_iff file).1 hfile
  have hentries := hfinds.file.isEntry (resolve_proper h hroot)
  rw [Path.components_descend root hentries]
  rcases List.eq_nil_or_concat' names with rfl | ⟨init, last, rfl⟩
  · have hown : root.fileName?.getD root.text = name := hfinds.name_eq
    rw [List.map_nil, List.append_nil]
    cases hlast : root.fileName? with
    | some last =>
        rw [hlast, Option.getD_some] at hown
        exact hown ▸ Path.components_of_fileName? hlast
    | none =>
        rw [hlast, Option.getD_none] at hown
        have hroot : (⟨""⟩ : Path).join ⟨name⟩ = root := by
          rw [← hown, Path.join, if_pos (by simp)]
        exact ⟨[], by rw [← hroot, hname.components_join]; rfl⟩
  · obtain rfl : last = name := by simpa using hfinds.name_eq
    exact ⟨root.components ++ init.map .name, by simp⟩

end Found

/-! ## Verdicts -/

/-- The project of a file can be configured. -/
def passes (fs : FileSystem) (r : Cli.Request) (file : Path) : Bool :=
  Except.isOk (Cli.configureProject fs.files r file).run

end FileSystem

namespace Cli

/-- What is written about a file that fared so. -/
inductive Line (file : Path) : Except Failure (Json String) → String → Prop where
  | passed (report : Json String) : Line file (.ok report) ("✅ " ++ file.text ++ "\n")
  | failed (failure : Failure) :
      Line file (.error failure) ("❌ " ++ file.text ++ "\n   " ++ failure.text ++ "\n")

/-- The outcome reports how files fared: each in its turn, as it would alone, and their count. -/
structure Reports (fs : FileSystem) (r : Request) (found : List Path) (outcome : Outcome) :
    Prop where
  output : ∃ lines,
    List.Forall₂ (fun file => Line file (configureProject fs.files r file).run) found lines ∧
    outcome.output = String.join lines ++ "\n" ++ toString found.length ++ " checked, "
      ++ toString (found.countP fun file => !fs.passes r file) ++ " failed\n"
  ok_iff : outcome.result = .ok () ↔ ∀ file ∈ found, fs.passes r file
  error : ∀ failure, outcome.result = .error failure → failure = .ofText
    (toString (found.countP fun file => !fs.passes r file) ++ " of " ++ toString found.length
      ++ " build files failed")

variable {fs : FileSystem} (r : Request)

/-- The verdict on a file. -/
def verdictOf (fs : FileSystem) (r : Request) (file : Path) : Verdict :=
  ⟨file, match (configureProject fs.files r file).run with
    | .ok _ => none
    | .error failure => some failure⟩

theorem verdicts_eq (found : List Path) :
    verdicts fs.files r found = found.map (verdictOf fs r) := by
  induction found with
  | nil => rfl
  | cons file rest ih =>
      change (⟨file, _⟩ :: verdicts fs.files r rest : List Verdict) = _
      rw [ih]
      rfl

theorem line_verdictOf (file : Path) :
    Line file (configureProject fs.files r file).run (verdictOf fs r file).lines := by
  unfold verdictOf Verdict.lines
  cases (configureProject fs.files r file).run with
  | ok report => exact .passed report
  | error failure => exact .failed failure

theorem isFailure_verdictOf (file : Path) :
    (verdictOf fs r file).isFailure = !fs.passes r file := by
  unfold verdictOf Verdict.isFailure FileSystem.passes
  cases (configureProject fs.files r file).run <;> rfl

theorem summary_reports (found : List Path) :
    Reports fs r found (summary (found.map (verdictOf fs r))) := by
  have hcount : ((found.map (verdictOf fs r)).filter Verdict.isFailure).length =
      found.countP fun file => !fs.passes r file := by
    rw [← List.countP_eq_length_filter, List.countP_map]
    exact List.countP_congr fun file _ => by simp [isFailure_verdictOf]
  refine ⟨⟨(found.map (verdictOf fs r)).map Verdict.lines, ?_, ?_⟩, ?_, ?_⟩
  · rw [List.map_map, List.forall₂_map_right_iff, List.forall₂_same]
    exact fun file _ => line_verdictOf r file
  · simp only [summary, hcount, List.length_map]
  · have hall : (∀ file ∈ found, fs.passes r file) ↔
        (found.countP fun file => !fs.passes r file) = 0 := by
      simp [List.countP_eq_zero]
    rw [hall]
    simp only [summary, hcount]
    split <;> simp_all
  · intro failure hfailure
    simp only [summary, hcount, List.length_map] at hfailure
    split at hfailure
    · cases hfailure
    · exact (Except.error.inj hfailure).symm

/-- How a file fares hangs on the file and the files of settings alone. Where the build files are
called like those, it hangs on the file alone. -/
def StandsAlone (fs : FileSystem) (r : Request) (name : String) (file : Path) : Prop :=
  ∀ top', fs.top.SameBut (fun entry => entry = name ∨ entry ≠ configFileName) top' →
    { fs with top := top' }.resolve file = fs.resolve file →
    { fs with top := top' }.passes r file = fs.passes r file ∧
      (fs.IsFile file → (configureProject { fs with top := top' }.files r file).run =
        (configureProject fs.files r file).run)

theorem standsAlone_of_found (h : fs.top.Proper) {root file : Path} {name : String}
    (hfile : file ∈ (findBuildFiles fs.files root name).run) : StandsAlone fs r name file := by
  intro top' hsame hresolve
  have hown : configFileName = name ∨ configFileName ≠ configFileName →
      ∃ before, file.components = before ++ [.name configFileName] := by
    rintro (rfl | hne)
    · exact FileSystem.components_of_found h FileSystem.isEntry_configFileName hfile
    · exact absurd rfl hne
  have hrun := fun hfile => FileSystem.configureProject_sameBut r hfile hresolve hsame hown
  refine ⟨?_, hrun⟩
  cases hn : fs.resolve file with
  | ok n =>
      cases n with
      | file bytes => rw [FileSystem.passes, FileSystem.passes, hrun ⟨bytes, hn⟩]
      | directory entries =>
          exact absurd ⟨entries, hn⟩ (FileSystem.not_isDirectory_of_found h hfile)
  | error fault =>
      obtain ⟨failure, hfailure⟩ := FileSystem.configureProject_of_error r hn
      obtain ⟨failure', hfailure'⟩ := FileSystem.configureProject_of_error r (hresolve.trans hn)
      rw [FileSystem.passes, FileSystem.passes, hfailure, hfailure']
      rfl

/-- A check of a root tells how each build file under it fares alone, in the order of their paths,
and how many there are and fail. It succeeds if all of them do; where there is none it fails. -/
theorem check_verdicts (h : fs.top.Proper) (root : Path) (strict : Bool)
    (override : Option String) :
    let r : Request := { strict, projectRoot := none, variants := true, override }
    let outcome := ((Command.check root strict).run fs.files override).run
    match (Config.discover fs.files root).run with
    | .error e => outcome = ⟨"", .error (.ofError e)⟩
    | .ok c =>
      let name := c.effectiveBuildFileName
      let found := (findBuildFiles fs.files root name).run
      if found = [] then
        outcome = ⟨"", .error (.ofText ("No " ++ name ++ " found under " ++ root.text))⟩
      else Reports fs r found outcome ∧ ∀ file ∈ found, StandsAlone fs r name file := by
  intro r outcome
  have houtcome : outcome = checkRoot fs.files r root := rfl
  rw [checkRoot] at houtcome
  cases hdiscover : (Config.discover fs.files root).run with
  | error e =>
      rw [hdiscover] at houtcome
      exact houtcome
  | ok c =>
      rw [hdiscover] at houtcome
      let name := c.effectiveBuildFileName
      let found := (findBuildFiles fs.files root name).run
      change if found = [] then _
        else Reports fs r found outcome ∧ ∀ file ∈ found, StandsAlone fs r name file
      have hfound : ∀ file ∈ found, StandsAlone fs r name file :=
        fun file hfile => standsAlone_of_found r h hfile
      have houtcome : outcome =
          if found.isEmpty then
            ⟨"", .error (.ofText ("No " ++ name ++ " found under " ++ root.text))⟩
          else summary (verdicts fs.files r found) := houtcome
      rw [verdicts_eq] at houtcome
      split
      · rename_i hempty
        rw [houtcome, if_pos (List.isEmpty_iff.2 hempty)]
      · rename_i hne
        rw [if_neg (mt List.isEmpty_iff.1 hne)] at houtcome
        rw [houtcome]
        exact ⟨summary_reports r found, hfound⟩

/-- Two projects, one of them with a document that cannot be read. -/
def twoProjects : FileSystem where
  top := .directory [("app", .directory [(defaultBuildFileName, .file .empty)]),
    ("lib", .directory [(defaultBuildFileName, .file "=".toUTF8)])]
  workingDir := []

theorem twoProjects_proper : twoProjects.top.Proper := by
  have hentry : ∀ name ∈ ["app", "lib", defaultBuildFileName], Path.IsEntry name := by
    intro name hname
    exact ⟨by revert name; decide, by revert name; decide, by revert name; decide,
      by revert name; decide⟩
  have hproject : ∀ bytes, (FileNode.directory [(defaultBuildFileName, .file bytes)]).Proper := by
    intro bytes
    exact .directory (by simp) (by simp [hentry]) (by simp [FileNode.Proper.file])
  exact .directory (by simp) (by simp [hentry]) (by simp [hproject])

/-- The other project without its document. -/
def otherProject : FileNode :=
  .directory [("app", .directory [(defaultBuildFileName, .file .empty)]), ("lib", .directory [])]

theorem twoProjects_sameBut : twoProjects.top.SameBut
    (fun entry => entry = defaultBuildFileName ∨ entry ≠ configFileName) otherProject := by
  refine FileNode.directory_sameBut_iff.2 fun name => .inl ?_
  simp only [FileNode.find?]
  split
  · exact .some (.refl _ _)
  split
  · refine .some (FileNode.directory_sameBut_iff.2 fun name => ?_)
    simp only [FileNode.find?]
    split
    · rename_i hname
      exact .inr ⟨.inl hname.symm, by simp [FileNode.NoDirectory]⟩
    · exact .inl .none
  · exact .none

/-- One project fails, and the other passes with or without it. -/
theorem check_verdicts_twoProjects :
    twoProjects.top.Proper ∧
    let r : Request := { strict := false, projectRoot := none, variants := true, override := none }
    let outcome := ((Command.check ⟨"."⟩ false).run twoProjects.files none).run
    Reports twoProjects r [⟨"./app/build.gradle.toml"⟩, ⟨"./lib/build.gradle.toml"⟩] outcome ∧
    outcome.result ≠ .ok () ∧
    { twoProjects with top := otherProject }.passes r ⟨"./app/build.gradle.toml"⟩ := by
  have h := check_verdicts twoProjects_proper ⟨"."⟩ false none
  have hdiscover : (Config.discover twoProjects.files ⟨"."⟩).run = .ok .default := by
    have hancestors : (twoProjects.startOf ⟨"."⟩).ancestors = [⟨"."⟩, ⟨""⟩] := by
      rw [show twoProjects.startOf ⟨"."⟩ = ⟨"."⟩ from rfl,
        Path.ancestors_of_parent? (q := ⟨""⟩) rfl, Path.ancestors_of_parent?_none rfl]
    rw [FileSystem.discover_eq, hancestors, FileSystem.loadFirst_eq]
    rfl
  have hfound : (findBuildFiles twoProjects.files ⟨"."⟩ defaultBuildFileName).run =
      [⟨"./app/build.gradle.toml"⟩, ⟨"./lib/build.gradle.toml"⟩] := by
    rw [FileSystem.findBuildFiles_of_ok (n := twoProjects.top) rfl]
    exact List.mergeSort_of_pairwise (by decide)
  simp only [hdiscover, show Config.default.effectiveBuildFileName = defaultBuildFileName from rfl,
    hfound, List.cons_ne_nil, if_false] at h
  obtain ⟨hreports, halone⟩ := h
  refine ⟨twoProjects_proper, hreports, ?_, ?_⟩
  · rw [ne_eq, hreports.ok_iff]
    intro hall
    have hlib := hall ⟨"./lib/build.gradle.toml"⟩ (by simp)
    revert hlib
    decide +kernel
  · obtain ⟨hpasses, -⟩ := halone ⟨"./app/build.gradle.toml"⟩ (by simp) otherProject
      twoProjects_sameBut (by rfl)
    rw [hpasses]
    decide +kernel

end Cli

end BuildReplay
