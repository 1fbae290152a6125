import BuildReplay.Cli.Run
import BuildReplay.Proofs.Discovery

/-! # Locations of build files

A build file is located by its directory or by its own path. Both ways come to the same file, and to
the same project where the file stands right in the directory. -/

namespace BuildReplay

/-! ## Joined paths -/

namespace Path

theorem components_join_congr {p q : Path} (h : p.components = q.components) (r : Path) :
    (p.join r).components = (q.join r).components := by
  cases hr : r.isAbsolute with
  | true => simp only [join, hr, Bool.true_or, if_true]
  | false =>
      by_cases hp : p.text = ""
      · have hq : q.text = "" := by rwa [← components_eq_nil_iff, ← h, components_eq_nil_iff]
        rw [join, join, if_pos (by simp [hp]), if_pos (by simp [hq])]
      · have hq : q.text ≠ "" := by rwa [ne_eq, ← components_eq_nil_iff, ← h, components_eq_nil_iff]
        rw [components_join_of_relative hp hr, components_join_of_relative hq hr, h]

end Path

theorem resolvePath_congr {root root' : Path} (h : root.components = root'.components)
    (raw : String) : (resolvePath root raw).components = (resolvePath root' raw).components := by
  unfold resolvePath
  split
  · rfl
  · exact Path.components_join_congr h _

/-! ## Located files -/

namespace FileSystem

variable {fs : FileSystem} {path : Path} {name : String} {l : BuildLocation}

/-- A file stands at the path. -/
def IsFile (fs : FileSystem) (p : Path) : Prop := ∃ bytes, fs.resolve p = .ok (.file bytes)

/-- A directory stands at the path. -/
def IsDirectory (fs : FileSystem) (p : Path) : Prop :=
  ∃ entries, fs.resolve p = .ok (.directory entries)

theorem kind?_of_error {fault : Fault} (h : fs.resolve path = .error fault) :
    fs.files.kind? path = none := by
  simp only [files, h]
  rfl

theorem kind?_of_ok {n : FileNode} (h : fs.resolve path = .ok n) :
    fs.files.kind? path = some n.kind := by
  simp only [files, h]
  rfl

theorem locateBuildFile_of_file (h : fs.IsFile path) (name : String) :
    (locateBuildFile fs.files path name).run = .ok ⟨projectDirOf path, path⟩ := by
  obtain ⟨bytes, hbytes⟩ := h
  simp only [locateBuildFile, kind?_of_ok hbytes]
  rfl

/-- The two ways to a build file. -/
theorem locateBuildFile_cases (h : (locateBuildFile fs.files path name).run = .ok l) :
    (fs.IsFile path ∧ l = ⟨projectDirOf path, path⟩) ∨
      (fs.IsDirectory path ∧ fs.IsFile (path.join ⟨name⟩) ∧ l = ⟨path, path.join ⟨name⟩⟩) := by
  cases hpath : fs.resolve path with
  | error fault =>
      simp only [locateBuildFile, kind?_of_error hpath] at h
      cases h
  | ok n =>
      cases n with
      | file bytes =>
          rw [locateBuildFile_of_file ⟨bytes, hpath⟩] at h
          cases h
          exact .inl ⟨⟨bytes, hpath⟩, rfl⟩
      | directory entries =>
          cases hjoin : fs.resolve (path.join ⟨name⟩) with
          | error fault =>
              simp only [locateBuildFile, kind?_of_ok hpath, kind?_of_error hjoin] at h
              cases h
          | ok n =>
              simp only [locateBuildFile, kind?_of_ok hpath, kind?_of_ok hjoin] at h
              cases n with
              | file bytes =>
                  cases h
                  exact .inr ⟨⟨entries, hpath⟩, ⟨bytes, hjoin⟩, rfl⟩
              | directory entries => cases h

theorem isFile_of_locateBuildFile (h : (locateBuildFile fs.files path name).run = .ok l) :
    fs.IsFile l.buildFile := by
  rcases locateBuildFile_cases h with ⟨hfile, rfl⟩ | ⟨-, hfile, rfl⟩
  · exact hfile
  · exact hfile

/-! ## Project directories -/

/-- The project directory of a file lacks the name of the file; it is spelled as a dot where nothing
is left. -/
theorem components_projectDirOf {file : Path} (h : fs.IsFile file) :
    ∃ before c, file.components = before ++ [c] ∧ c.step? ≠ none ∧
      (projectDirOf file).components = if before = [] then [.here] else before := by
  obtain ⟨bytes, hbytes⟩ := h
  obtain ⟨q, c, hparent, hc, hstep⟩ := (endsInStep_of_file hbytes).exists_parent
  refine ⟨q.components, c, hc, hstep, ?_⟩
  rw [projectDirOf, hparent]
  by_cases hq : q.text = ""
  · simp only [hq, String.isEmpty_iff, if_true, Path.components_eq_nil_iff.2 hq]
    rfl
  · simp only [hq, String.isEmpty_iff, if_false, mt Path.components_eq_nil_iff.1 hq]

/-- A file found through a directory has the directory as its project directory where it stands
right in it, and nowhere else. -/
theorem components_projectDirOf_join (hpath : path.text ≠ "") (h : fs.IsFile (path.join ⟨name⟩)) :
    (projectDirOf (path.join ⟨name⟩)).components = path.components ↔
      ∃ c, (path.join ⟨name⟩).components = path.components ++ [c] := by
  have hne : path.components ≠ [] := mt Path.components_eq_nil_iff.1 hpath
  obtain ⟨before, c, hc, hstep, hdir⟩ := components_projectDirOf h
  constructor
  · intro heq
    by_cases hbefore : before = []
    · -- a single step stands below no directory that can be spelled
      rw [hdir, if_pos hbefore] at heq
      rw [hbefore, List.nil_append] at hc
      cases hname : Path.isAbsolute ⟨name⟩ with
      | true =>
          have hjoin : path.join ⟨name⟩ = ⟨name⟩ := by
            simp only [Path.join, hname, Bool.true_or, if_true]
          rw [hjoin] at hc
          have hroot := Path.isAbsolute_iff.1 hname
          rw [hc, List.head?_cons] at hroot
          cases hroot
          exact absurd rfl hstep
      | false =>
          rw [Path.components_join_of_relative hpath hname, ← heq] at hc
          have hhere := (List.cons.inj hc).1
          subst hhere
          exact absurd rfl hstep
    · rw [hdir, if_neg hbefore] at heq
      exact ⟨c, by rw [hc, heq]⟩
  · rintro ⟨d, hd⟩
    have hbefore : before = path.components := List.append_inj_left' (hc.symm.trans hd) rfl
    rw [hdir, hbefore, if_neg hne]

end FileSystem

/-! ## Options of a project -/

/-- The same settings from the same directory, which may be spelled in two ways. -/
structure Config.Alike (c c' : Config) : Prop where
  strict_eq : c.strict = c'.strict
  projectRoot_eq : c.projectRoot = c'.projectRoot
  sourceDir_eq : c.sourceDir.map Path.components = c'.sourceDir.map Path.components

theorem Config.Alike.refl (c : Config) : c.Alike c := ⟨rfl, rfl, rfl⟩

theorem Config.ofNode_alike {dir dir' : Path} (h : dir.components = dir'.components) {n : FileNode}
    {c : Config} (hc : ofNode dir n = .ok c) : ∃ c', ofNode dir' n = .ok c' ∧ c.Alike c' := by
  unfold ofNode at hc ⊢
  split at hc
  · cases hc
  · split at hc
    · cases hc
      exact ⟨_, rfl, rfl, rfl, congrArg some h⟩
    · cases hc

/-- A document resolves its paths alike under both options. -/
structure Options.Alike (options options' : Options) : Prop where
  strictness_eq : options.strictness = options'.strictness
  resolve_eq : ∀ raw, (resolvePath options.projectRoot raw).components =
    (resolvePath options'.projectRoot raw).components

theorem Cli.Request.options_alike (r : Request) {c c' : Config} (hc : c.Alike c')
    {fallback fallback' : Path} (hfallback : fallback.components = fallback'.components) :
    (r.options c fallback).Alike (r.options c' fallback') := by
  obtain ⟨hstrict, hroot, hsource⟩ := hc
  refine ⟨?_, resolvePath_congr ?_⟩
  · simp only [options, Config.toOptions, Config.strictness, hstrict]
  · have hdir : (c.sourceDir.getD fallback).components =
        (c'.sourceDir.getD fallback').components := by
      cases h : c.sourceDir <;> cases h' : c'.sourceDir <;> simp_all
    simp only [options, Config.toOptions, hroot]
    cases r.projectRoot with
    | some root => rfl
    | none =>
        cases c'.projectRoot with
        | none => exact hfallback
        | some root =>
            simp only [Option.getD_none]
            split
            · rfl
            · exact Path.components_join_congr hdir root

namespace FileSystem

variable {fs : FileSystem} {path : Path} {name : String} {l : BuildLocation}

theorem firstIn_alike {dirs dirs' : List Path}
    (h : List.Forall₂ (fun dir dir' => dir.components = dir'.components) dirs dirs')
    (hfits : ∀ dir ∈ dirs, (dir.join ⟨configFileName⟩).Fits)
    (hfits' : ∀ dir ∈ dirs', (dir.join ⟨configFileName⟩).Fits) :
    (fs.firstIn dirs).map (fun found => (found.1.components, found.2)) =
      (fs.firstIn dirs').map fun found => (found.1.components, found.2) := by
  induction h with
  | nil => rfl
  | @cons dir dir' rest rest' hdir hrest ih =>
      obtain ⟨hhead, htail⟩ := List.forall_mem_cons.1 hfits
      obtain ⟨hhead', htail'⟩ := List.forall_mem_cons.1 hfits'
      have hfile : fs.settingsIn dir = fs.settingsIn dir' := by
        rw [settingsIn_eq dir hhead, settingsIn_eq dir' hhead', way_congr hdir]
      rw [firstIn, firstIn, List.findSome?_cons, List.findSome?_cons, hfile]
      cases fs.settingsIn dir' with
      | none => exact ih htail htail'
      | some n => exact congrArg (fun cs => some (cs, n)) hdir

theorem startOf_of_directory {entries : List (String × FileNode)}
    (h : fs.resolve path = .ok (.directory entries)) : fs.startOf path = path := by
  rw [startOf, kind?_of_ok h]
  rfl

theorem components_startOf_of_file (h : fs.IsFile path) {before : List Path.Component}
    {c : Path.Component} (hc : path.components = before ++ [c]) :
    (fs.startOf path).components = before := by
  obtain ⟨bytes, hbytes⟩ := h
  obtain ⟨q, d, hparent, hd, -⟩ := (endsInStep_of_file hbytes).exists_parent
  rw [startOf, kind?_of_ok hbytes, hparent]
  exact List.append_inj_left' (hd.symm.trans hc) rfl

/-- The system takes the paths of all configuration files that are looked for. -/
def ConfigsFit (fs : FileSystem) (start : Path) : Prop :=
  ∀ dir ∈ (fs.startOf start).ancestors, (dir.join ⟨configFileName⟩).Fits

theorem configsFit_of_fits {start : Path} (h : (start.join ⟨configFileName⟩).Fits) :
    fs.ConfigsFit start :=
  fun _ hdir => isEntry_configFileName.fits_join start (ancestors_startOf hdir) h

/-- Searches from two spellings of a directory come to the same settings. -/
theorem discover_alike {start start' : Path}
    (h : (fs.startOf start).components = (fs.startOf start').components)
    (hfits : fs.ConfigsFit start) (hfits' : fs.ConfigsFit start')
    {c : Config} (hc : (Config.discover fs.files start).run = .ok c) :
    ∃ c', (Config.discover fs.files start').run = .ok c' ∧ c.Alike c' := by
  have hfirst := fs.firstIn_alike (Path.ancestors_alike h) hfits hfits'
  rw [discover_eq, loadFirst_eq] at hc ⊢
  generalize fs.firstIn (fs.startOf start).ancestors = found,
    fs.firstIn (fs.startOf start').ancestors = found' at *
  cases found with
  | none =>
      obtain rfl : found' = none := Option.map_eq_none_iff.1 hfirst.symm
      cases hc
      exact ⟨_, rfl, .refl _⟩
  | some found =>
      cases found' with
      | none => cases hfirst
      | some found' =>
          obtain ⟨dir, n⟩ := found
          obtain ⟨dir', n'⟩ := found'
          obtain ⟨hdir, rfl⟩ := Prod.mk.inj (Option.some.inj hfirst)
          exact Config.ofNode_alike hdir hc

/-- A build file that is located by its own path is the one that was located before, and its project
is in the directory of the file. This is the directory before where a file was meant from the start,
or the file stands right in the directory that was meant, and nowhere else; then both ways make
options under which a document resolves its paths alike. -/
theorem locateBuildFile_again (h : (locateBuildFile fs.files path name).run = .ok l) :
    ∃ l', (locateBuildFile fs.files l.buildFile name).run = .ok l' ∧ l'.buildFile = l.buildFile ∧
      l'.projectDir = projectDirOf l.buildFile ∧
      (l'.projectDir.components = l.projectDir.components ↔
        fs.IsFile path ∨ ∃ c, l.buildFile.components = path.components ++ [c]) ∧
      (l'.projectDir.components = l.projectDir.components →
        fs.ConfigsFit path → fs.ConfigsFit l.buildFile →
        ∀ c, (Config.discover fs.files path).run = .ok c →
          ∃ c', (Config.discover fs.files l.buildFile).run = .ok c' ∧
            ∀ r : Cli.Request, (r.options c l.projectDir).Alike (r.options c' l'.projectDir)) := by
  have hagain := locateBuildFile_of_file (isFile_of_locateBuildFile h) name
  refine ⟨_, hagain, rfl, rfl, ?_⟩
  rcases locateBuildFile_cases h with ⟨hfile, rfl⟩ | ⟨hdirectory, hfile, rfl⟩
  · refine ⟨iff_of_true rfl (.inl hfile), fun _ _ _ c hc => ⟨c, hc, fun r => ?_⟩⟩
    exact r.options_alike (.refl c) rfl
  · obtain ⟨entries, hentries⟩ := hdirectory
    have hnot : ¬fs.IsFile path := by
      rintro ⟨bytes, hbytes⟩
      rw [hbytes] at hentries
      cases hentries
    have hiff := components_projectDirOf_join (text_ne_of_resolve hentries) hfile
    refine ⟨by rw [hiff, or_iff_right hnot], fun hsame hfits hfits' c hc => ?_⟩
    obtain ⟨d, hd⟩ := hiff.1 hsame
    have hstart : (fs.startOf path).components = (fs.startOf (path.join ⟨name⟩)).components := by
      rw [startOf_of_directory hentries, components_startOf_of_file hfile hd]
    obtain ⟨c', hc', halike⟩ := discover_alike hstart hfits hfits' hc
    exact ⟨c', hc', fun r => r.options_alike halike hsame.symm⟩

/-- A project in a directory, with one more build file further down. -/
def nestedProject : FileSystem where
  top := .directory [("app", .directory [("app.toml", .file .empty),
    ("lib", .directory [("app.toml", .file .empty)])])]
  workingDir := []

theorem discover_nestedProject :
    (Config.discover nestedProject.files ⟨"app/."⟩).run = .ok .default := by
  have hancestors : (nestedProject.startOf ⟨"app/."⟩).ancestors = [⟨"app/."⟩, ⟨""⟩] := by
    rw [show nestedProject.startOf ⟨"app/."⟩ = ⟨"app/."⟩ from rfl,
      Path.ancestors_of_parent? (q := ⟨""⟩) rfl, Path.ancestors_of_parent?_none rfl]
  rw [discover_eq, hancestors, loadFirst_eq]
  rfl

/-- The directory is spelled with a dot at its end, and its file makes the same project. -/
theorem locateBuildFile_again_app :
    (locateBuildFile nestedProject.files ⟨"app/."⟩ "app.toml").run =
      .ok ⟨⟨"app/."⟩, ⟨"app/./app.toml"⟩⟩ ∧
    ∃ l', (locateBuildFile nestedProject.files ⟨"app/./app.toml"⟩ "app.toml").run = .ok l' ∧
      l'.buildFile = ⟨"app/./app.toml"⟩ ∧ l'.projectDir.components = [.name "app"] ∧
      ∃ c', (Config.discover nestedProject.files ⟨"app/./app.toml"⟩).run = .ok c' ∧
        ∀ r : Cli.Request, (r.options .default ⟨"app/."⟩).Alike (r.options c' l'.projectDir) := by
  have h : (locateBuildFile nestedProject.files ⟨"app/."⟩ "app.toml").run =
      .ok ⟨⟨"app/."⟩, ⟨"app/./app.toml"⟩⟩ := rfl
  obtain ⟨l', hl', hfile, -, hdir, halike⟩ := locateBuildFile_again h
  have hsame := hdir.2 (.inr ⟨.name "app.toml", by decide⟩)
  have hfits : nestedProject.ConfigsFit ⟨"app/."⟩ := configsFit_of_fits ⟨by decide, by decide⟩
  have hfits' : nestedProject.ConfigsFit ⟨"app/./app.toml"⟩ :=
    configsFit_of_fits ⟨by decide, by decide⟩
  exact ⟨h, l', hl', hfile, hsame, halike hsame hfits hfits' _ discover_nestedProject⟩

/-- A file further down is located in another project by its own path. -/
theorem locateBuildFile_again_nested :
    ∃ l, (locateBuildFile nestedProject.files ⟨"app"⟩ "lib/app.toml").run = .ok l ∧
      ¬∃ l', (locateBuildFile nestedProject.files l.buildFile "lib/app.toml").run = .ok l' ∧
        l'.buildFile.components = l.buildFile.components ∧
        l'.projectDir.components = l.projectDir.components := by
  refine ⟨⟨⟨"app"⟩, ⟨"app/lib/app.toml"⟩⟩, rfl, ?_⟩
  rintro ⟨l', hl', -, hdir⟩
  have hfile : (locateBuildFile nestedProject.files ⟨"app/lib/app.toml"⟩ "lib/app.toml").run =
      .ok ⟨⟨"app/lib"⟩, ⟨"app/lib/app.toml"⟩⟩ := rfl
  rw [hfile] at hl'
  cases hl'
  revert hdir
  decide

end FileSystem

end BuildReplay
