import BuildReplay.Proofs.Location

/-! # Edited files

What becomes of the project of a build file when other files are edited, added or removed: nothing,
as long as the files of settings stay as they are. -/

namespace BuildReplay

namespace FileNode

/-- What stands where names lead down from a node. -/
def below? : List String → FileNode → Option FileNode
  | [], n => some n
  | name :: rest, .directory entries => (find? name entries).bind (below? rest)
  | _ :: _, .file _ => none

/-- The bytes of a file. -/
def bytes? : FileNode → Option ByteArray
  | file bytes => some bytes
  | directory _ => none

/-- Two trees have the same directories, and the same files but for some with loose names. -/
def SameBut (loose : String → Prop) (n n' : FileNode) : Prop :=
  ∀ names, (n.below? names).map bytes? = (n'.below? names).map bytes? ∨
    (∃ name ∈ names.getLast?, loose name) ∧
      NoDirectory (n.below? names) ∧ NoDirectory (n'.below? names)

variable {loose : String → Prop} {n n' : FileNode}

theorem SameBut.bytes?_eq (h : n.SameBut loose n') : n.bytes? = n'.bytes? := by
  rcases h [] with heq | ⟨⟨name, hname, -⟩, -⟩
  · exact Option.some.inj heq
  · cases hname

theorem text_eq_of_bytes? (h : n.bytes? = n'.bytes?) : n.text = n'.text := by
  cases n <;> cases n' <;> cases h <;> rfl

/-- The entries of each name are the same but for loose names, or they are files with such a
name. -/
theorem directory_sameBut_iff {entries entries' : List (String × FileNode)} :
    (directory entries).SameBut loose (directory entries') ↔ ∀ name,
      Option.Rel (SameBut loose) (find? name entries) (find? name entries') ∨
        loose name ∧ NoDirectory (find? name entries) ∧ NoDirectory (find? name entries') := by
  constructor
  · intro h name
    have hname := h [name]
    have hbelow := fun next rest => h (name :: next :: rest)
    simp only [below?, Option.bind_fun_some, List.getLast?_cons_cons] at hname hbelow
    rcases hname with hbytes | ⟨hloose, hends⟩
    · left
      generalize find? name entries = m?, find? name entries' = m?' at hbytes hbelow
      cases m? with
      | none =>
          obtain rfl : m?' = none := Option.map_eq_none_iff.1 hbytes.symm
          exact .none
      | some m =>
          obtain ⟨m', rfl, -⟩ := Option.map_eq_some_iff.1 hbytes.symm
          refine .some fun rest => ?_
          cases rest with
          | nil => exact .inl hbytes
          | cons next rest => exact hbelow next rest
    · exact .inr ⟨by simpa using hloose, hends⟩
  · intro h names
    cases names with
    | nil => exact .inl rfl
    | cons name rest =>
        simp only [below?]
        rcases h name with hrel | ⟨hloose, hends⟩
        · generalize find? name entries = m?, find? name entries' = m?' at hrel
          cases hrel with
          | none => exact .inl rfl
          | some hm =>
              cases rest with
              | nil => exact .inl (congrArg some hm.bytes?_eq)
              | cons next rest => simpa using hm (next :: rest)
        · cases rest with
          | nil => exact .inr ⟨⟨name, rfl, hloose⟩, by simpa [below?] using hends⟩
          | cons next rest =>
              -- nothing stands below a file
              have hnone : ∀ {m? : Option FileNode}, NoDirectory m? →
                  m?.bind (below? (next :: rest)) = none := by
                rintro (_ | _ | below) hend
                · rfl
                · rfl
                · exact absurd rfl (hend below)
              rw [hnone hends.1, hnone hends.2]
              exact .inl rfl

theorem SameBut.refl (loose : String → Prop) (n : FileNode) : n.SameBut loose n :=
  fun _ => .inl rfl

theorem sameBut_descends (loose : String → Prop) : FileSystem.Descends loose (SameBut loose) where
  file {bytes n'} h := by
    cases n' with
    | file bytes' => exact ⟨bytes', rfl⟩
    | directory entries => cases h.bytes?_eq
  directory {entries n'} h := by
    cases n' with
    | file bytes => cases h.bytes?_eq
    | directory entries' => exact ⟨entries', rfl, directory_sameBut_iff.1 h⟩

end FileNode

namespace FileSystem

variable {fs fs' : FileSystem} {top' : FileNode} {loose : String → Prop}

/-! ## Settings of an edited tree -/

theorem settingsIn_sameBut (h : fs.top.SameBut loose top') (hloose : ¬loose configFileName)
    (dir : Path) :
    ({ fs with top := top' }.settingsIn dir).map FileNode.text =
      (fs.settingsIn dir).map FileNode.text := by
  obtain ⟨before, hsegments, -⟩ := isEntry_configFileName.segments_join dir
  have hlast : ∀ last ∈ (Path.segments (dir.join ⟨configFileName⟩).text.toList).getLast?,
      ¬loose (String.ofList last) := by
    intro last hmem
    rw [hsegments, List.getLast?_concat] at hmem
    cases hmem
    rwa [String.ofList_toList]
  have halike := (FileNode.sameBut_descends loose).resolve h hlast
  rw [settingsIn, settingsIn]
  generalize fs.resolve _ = r, { fs with top := top' }.resolve _ = r' at halike
  cases halike with
  | error fault fault' => rfl
  | ok hn => exact congrArg some (FileNode.text_eq_of_bytes? hn.bytes?_eq).symm

theorem load_congr {dir : Path}
    (h : (fs'.settingsIn dir).map FileNode.text = (fs.settingsIn dir).map FileNode.text) :
    (Config.load fs'.files dir).run = (Config.load fs.files dir).run := by
  rw [load_eq, load_eq]
  cases hn : fs.settingsIn dir with
  | none =>
      rw [hn] at h
      rw [Option.map_eq_none_iff.1 h]
  | some n =>
      rw [hn] at h
      obtain ⟨n', hn', htext⟩ := Option.map_eq_some_iff.1 h
      simp only [hn', Config.ofNode, htext]

theorem loadFirst_congr {dirs : List Path} (h : ∀ dir ∈ dirs,
    (fs'.settingsIn dir).map FileNode.text = (fs.settingsIn dir).map FileNode.text) :
    (Config.loadFirst fs'.files dirs).run = (Config.loadFirst fs.files dirs).run := by
  induction dirs with
  | nil => rfl
  | cons dir outer ih =>
      obtain ⟨hdir, houter⟩ := List.forall_mem_cons.1 h
      rw [Config.loadFirst, Config.loadFirst, ExceptT.run_bind, ExceptT.run_bind, load_congr hdir]
      cases (Config.load fs.files dir).run with
      | error e => rfl
      | ok c? =>
          cases c? with
          | none => exact ih houter
          | some c => rfl

theorem startOf_congr {start : Path} (h : fs'.resolve start = fs.resolve start) :
    fs'.startOf start = fs.startOf start := by
  simp only [startOf, files, h]

/-- A search asks only for the files of settings above its start. -/
theorem discover_congr {start : Path} (h : fs'.resolve start = fs.resolve start)
    (hsettings : ∀ dir ∈ (fs.startOf start).ancestors,
      (fs'.settingsIn dir).map FileNode.text = (fs.settingsIn dir).map FileNode.text) :
    (Config.discover fs'.files start).run = (Config.discover fs.files start).run := by
  rw [discover_eq, discover_eq, startOf_congr h, loadFirst_congr hsettings]

/-- A file of settings counts for itself. -/
theorem discover_own {file : Path} {bytes : ByteArray} (h : fs.resolve file = .ok (.file bytes))
    {before : List Path.Component} (hname : file.components = before ++ [.name configFileName]) :
    ∃ dir, file.parent? = some dir ∧
      (Config.discover fs.files file).run = Config.ofNode dir (.file bytes) := by
  have hend := endsInStep_of_file h
  obtain ⟨dir, c, hparent, hcomponents, -⟩ := hend.exists_parent
  obtain rfl : c = .name configFileName := by
    simpa using congrArg List.getLast? (hcomponents.symm.trans hname)
  have hstart : fs.startOf file = dir := by
    rw [startOf, kind?_of_ok h, hparent]
    rfl
  have hsame : (dir.join ⟨configFileName⟩).components = file.components := by
    rw [isEntry_configFileName.components_join, hcomponents]
  have hfits := fits_of_resolve h
  have hfile : fs.settingsIn dir = some (.file bytes) := by
    rw [settingsIn, resolve_eq_nodeAt
      (isEntry_configFileName.fits_join_parent file hparent hcomponents hfits)
      (isEntry_configFileName.endsInStep_join dir), way_congr hsame, ← resolve_eq_nodeAt hfits hend,
      h]
    rfl
  refine ⟨dir, hparent, ?_⟩
  rw [discover_eq, loadFirst_eq, hstart, Path.ancestors_eq, firstIn, List.findSome?_cons, hfile]
  rfl

/-! ## Projects of an edited tree -/

section Projects

variable {file : Path} (r : Cli.Request)

/-- The project of a file takes the settings that count for it, and its text. -/
theorem configureProject_of_file (h : fs.IsFile file) :
    (Cli.configureProject fs.files r file).run =
      match (Config.discover fs.files file).run with
      | .error e => .error <|
          (Cli.Failure.ofError e).within ("Failed to load configuration for " ++ file.text)
      | .ok config => match (loadFile fs.files file).run with
        | .error e => .error (.ofError e)
        | .ok document =>
          Cli.reportOf (r.options config (projectDirOf file)) r.variants file document := by
  have hlocate := locateBuildFile_of_file h
  simp only [Cli.configureProject, ExceptT.run_bind, ExceptT.run_adapt]
  cases (Config.discover fs.files file).run with
  | error e => rfl
  | ok config =>
      dsimp only [Functor.map, bind, Except.mapError]
      rw [hlocate]
      dsimp only
      cases (loadFile fs.files file).run <;> rfl

theorem configureProject_of_error {fault : Fault} (h : fs.resolve file = .error fault) :
    ∃ failure, (Cli.configureProject fs.files r file).run = .error failure := by
  have hlocate : ∀ name, (locateBuildFile fs.files file name).run =
      .error ("Path not found: " ++ file.text) := by
    intro name
    simp only [locateBuildFile, kind?_of_error h]
    rfl
  simp only [Cli.configureProject, ExceptT.run_bind, ExceptT.run_adapt]
  cases (Config.discover fs.files file).run with
  | error e => exact ⟨_, rfl⟩
  | ok config =>
      dsimp only [Functor.map, bind, Except.mapError]
      rw [hlocate]
      exact ⟨_, rfl⟩

/-- The project of a file stays as it is while the file does, and the files of settings; a file of
settings that is a build file itself has no other settings. -/
theorem configureProject_sameBut (hfile : fs.IsFile file)
    (h : { fs with top := top' }.resolve file = fs.resolve file) (hsame : fs.top.SameBut loose top')
    (hown : loose configFileName →
      ∃ before, file.components = before ++ [.name configFileName]) :
    (Cli.configureProject { fs with top := top' }.files r file).run =
      (Cli.configureProject fs.files r file).run := by
  have hdiscover : (Config.discover { fs with top := top' }.files file).run =
      (Config.discover fs.files file).run := by
    by_cases hloose : loose configFileName
    · obtain ⟨before, hname⟩ := hown hloose
      obtain ⟨bytes, hbytes⟩ := hfile
      obtain ⟨dir, hparent, hown⟩ := discover_own hbytes hname
      obtain ⟨dir', hparent', hown'⟩ := discover_own (h.trans hbytes) hname
      rw [hparent] at hparent'
      cases hparent'
      rw [hown, hown']
    · exact discover_congr h fun dir _ => settingsIn_sameBut hsame hloose dir
  have hload : loadFile { fs with top := top' }.files file = loadFile fs.files file := by
    simp only [loadFile, files, h]
  have hfile' : { fs with top := top' }.IsFile file := hfile.imp fun bytes hbytes => h.trans hbytes
  rw [configureProject_of_file r hfile', configureProject_of_file r hfile, hdiscover, hload]

end Projects

end FileSystem

end BuildReplay
