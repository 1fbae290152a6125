import BuildReplay.Config
import BuildReplay.Proofs.Way
import Mathlib.Data.List.Induction

/-! # Discovery of settings

Which file of settings counts for a path. The search goes up the text of the path, so what it comes
to are directories above the path where the text has no two dots, and it ends where the text starts.
-/

namespace BuildReplay

/-- Files whose texts are read on record. -/
def Files.recorded (files : Files Id) : Files (StateM (List Path)) where
  kind? p := pure (files.kind? p)
  read p := do
    modify (· ++ [p])
    return files.read p
  tree? p := pure (files.tree? p)

/-- What the file of settings in a directory says: the settings, or what is wrong with it. -/
def Config.ofNode (dir : Path) (n : FileNode) : Except Error Config :=
  match n.text with
  | .error fault => .error (.io fault.text)
  | .ok text => match read? text with
    | some c => .ok { c with sourceDir := some dir }
    | none => .error (.config ((dir.join ⟨configFileName⟩).text ++ ": malformed settings"))

theorem Config.ofNode_ne_default (dir : Path) (n : FileNode) : ofNode dir n ≠ .ok .default := by
  unfold ofNode
  split
  · simp
  · split
    · simp [Config.default]
    · simp

namespace FileSystem

variable {fs : FileSystem}

/-! ## The nearest file -/

/-- The file of settings in the directory that names lead to from the top. -/
def settingsAt (fs : FileSystem) (names : List String) : Option FileNode :=
  (fs.nodeAt (names ++ [configFileName])).toOption

/-- The outcome is that of the nearest file of settings among directories that lie above one
another, and only files of settings in them are read. -/
structure FromNearest (fs : FileSystem) (chain : List String → Prop) (outcome : Except Error Config)
    (reads : List Path) : Prop where
  /-- The nearest file counts, and its errors do too. -/
  nearest : ∀ {names n}, chain names → fs.settingsAt names = some n →
    (∀ inner, chain inner → names.length < inner.length → fs.settingsAt inner = none) →
    ∃ dir, fs.way dir = names ∧ outcome = Config.ofNode dir n
  default_iff : outcome = .ok .default ↔ ∀ names, chain names → fs.settingsAt names = none
  reads : ∀ p ∈ reads, ∃ names, chain names ∧ fs.way p = names ++ [configFileName]

/-- Outer directories change nothing, if those with a file have one with a file below them. -/
theorem FromNearest.extend {chain chain' : List String → Prop} {outcome : Except Error Config}
    {reads : List Path} (h : fs.FromNearest chain outcome reads)
    (hsub : ∀ names, chain names → chain' names)
    (houter : ∀ names, chain' names → ¬chain names → fs.settingsAt names ≠ none →
      ∃ inner, chain inner ∧ names.length < inner.length ∧ fs.settingsAt inner ≠ none) :
    fs.FromNearest chain' outcome reads where
  nearest {names n} hnames hn hnearest := by
    by_cases hchain : chain names
    · exact h.nearest hchain hn fun inner hinner => hnearest inner (hsub inner hinner)
    · obtain ⟨inner, hinner, hlt, hfile⟩ := houter names hnames hchain (by simp [hn])
      exact absurd (hnearest inner (hsub inner hinner) hlt) hfile
  default_iff := by
    rw [h.default_iff]
    constructor
    · intro hnone names hnames
      by_contra hfile
      by_cases hchain : chain names
      · exact hfile (hnone names hchain)
      · obtain ⟨inner, hinner, -, hinner_file⟩ := houter names hnames hchain hfile
        exact hinner_file (hnone inner hinner)
    · exact fun hnone names hnames => hnone names (hsub names hnames)
  reads p hp := by
    obtain ⟨names, hnames, hway⟩ := h.reads p hp
    exact ⟨names, hsub names hnames, hway⟩

/-! ## Loading -/

theorem isEntry_configFileName : Path.IsEntry configFileName :=
  ⟨by decide, by decide, by decide, by decide⟩

/-- The file of settings in a directory, as its path has it. -/
def settingsIn (fs : FileSystem) (dir : Path) : Option FileNode :=
  (fs.resolve (dir.join ⟨configFileName⟩)).toOption

theorem settingsIn_eq (dir : Path) (h : (dir.join ⟨configFileName⟩).Fits) :
    fs.settingsIn dir = fs.settingsAt (fs.way dir) := by
  rw [settingsIn, resolve_eq_nodeAt h (isEntry_configFileName.endsInStep_join dir),
    isEntry_configFileName.way_join, settingsAt]

theorem settingsIn_of_not_fits {dir : Path} (h : ¬(dir.join ⟨configFileName⟩).Fits) :
    fs.settingsIn dir = none := by
  obtain ⟨fault, hfault⟩ := fs.resolve_of_not_fits h
  rw [settingsIn, hfault]
  rfl

theorem load_eq (dir : Path) :
    (Config.load fs.files dir).run = match fs.settingsIn dir with
      | some n => (Config.ofNode dir n).map some
      | none => .ok none := by
  simp only [Config.load, files, settingsIn]
  cases fs.resolve (dir.join ⟨configFileName⟩) with
  | error fault => rfl
  | ok n =>
      simp only [Except.toOption, Option.map_some, Config.ofNode]
      cases n.text with
      | error fault => rfl
      | ok text =>
          dsimp only
          change ExceptT.run (match Config.read? text with
            | some c => _
            | none => _) = _
          cases Config.read? text <;> rfl

theorem load_recorded (dir : Path) (log : List Path) :
    (Config.load fs.files.recorded dir).run.run log = match fs.settingsIn dir with
      | some n => ((Config.ofNode dir n).map some, log ++ [dir.join ⟨configFileName⟩])
      | none => (.ok none, log) := by
  simp only [Config.load, files, Files.recorded, settingsIn]
  cases fs.resolve (dir.join ⟨configFileName⟩) with
  | error fault => rfl
  | ok n =>
      simp only [Except.toOption, Option.map_some, Config.ofNode]
      cases n.text with
      | error fault => rfl
      | ok text =>
          dsimp only
          change StateT.run (ExceptT.run (match Config.read? text with
            | some c => _
            | none => _)) (log ++ [dir.join ⟨configFileName⟩]) = _
          cases Config.read? text <;> rfl

/-- The first of some directories with a file of settings, and the file. -/
def firstIn (fs : FileSystem) (dirs : List Path) : Option (Path × FileNode) :=
  dirs.findSome? fun dir => (fs.settingsIn dir).map fun n => (dir, n)

theorem loadFirst_eq (dirs : List Path) :
    (Config.loadFirst fs.files dirs).run = match fs.firstIn dirs with
      | some (dir, n) => Config.ofNode dir n
      | none => .ok .default := by
  induction dirs with
  | nil => rfl
  | cons dir outer ih =>
      rw [Config.loadFirst, ExceptT.run_bind, load_eq, firstIn, List.findSome?_cons]
      cases fs.settingsIn dir with
      | none => exact ih
      | some n =>
          simp only [Option.map_some]
          cases Config.ofNode dir n <;> rfl

theorem loadFirst_recorded (dirs : List Path) (log : List Path) :
    (Config.loadFirst fs.files.recorded dirs).run.run log = match fs.firstIn dirs with
      | some (dir, n) => (Config.ofNode dir n, log ++ [dir.join ⟨configFileName⟩])
      | none => (.ok .default, log) := by
  induction dirs with
  | nil => rfl
  | cons dir outer ih =>
      rw [Config.loadFirst, ExceptT.run_bind, StateT.run_bind, load_recorded, firstIn,
        List.findSome?_cons]
      cases fs.settingsIn dir with
      | none => exact ih
      | some n =>
          simp only [Option.map_some]
          cases Config.ofNode dir n <;> rfl

/-- Where the search for a path starts: at the path, or above it where it is a file. -/
def startOf (fs : FileSystem) (start : Path) : Path :=
  match fs.files.kind? start with
  | some .file => start.parent?.getD start
  | _ => start

theorem discover_eq (start : Path) :
    (Config.discover fs.files start).run =
      (Config.loadFirst fs.files (fs.startOf start).ancestors).run := by
  simp only [Config.discover, startOf]
  cases fs.files.kind? start with
  | none => rfl
  | some kind => cases kind <;> rfl

theorem discover_recorded (start : Path) (log : List Path) :
    (Config.discover fs.files.recorded start).run.run log =
      (Config.loadFirst fs.files.recorded (fs.startOf start).ancestors).run.run log := by
  simp only [Config.discover, startOf, Files.recorded]
  cases fs.files.kind? start with
  | none => rfl
  | some kind => cases kind <;> rfl

/-! ## Where the search goes -/

/-- The directories that the search for a path comes to. One whose file of settings would have too
long a path is passed over. -/
def Searched (fs : FileSystem) (start : Path) (names : List String) : Prop :=
  ∃ dir ∈ (fs.startOf start).ancestors, (dir.join ⟨configFileName⟩).Fits ∧ fs.way dir = names

theorem isPrefix_way {p q : Path} (habsolute : q.isAbsolute = p.isAbsolute)
    (h : q.components <+: p.components) : fs.way q <+: fs.way p := by
  rw [way, way, origin, origin, habsolute, List.prefix_append_right_inj]
  exact h.filterMap _

section Outcome

variable {start : Path}

theorem fromNearest_of_firstIn_none (h : fs.firstIn (fs.startOf start).ancestors = none) :
    fs.FromNearest (fs.Searched start) (.ok .default) [] := by
  have hnone : ∀ names, fs.Searched start names → fs.settingsAt names = none := by
    rintro _ ⟨dir, hdir, hfits, rfl⟩
    have hdir := List.findSome?_eq_none_iff.1 h dir hdir
    rwa [Option.map_eq_none_iff, settingsIn_eq dir hfits] at hdir
  refine ⟨fun hnames hn _ => ?_, ⟨fun _ => hnone, fun _ => rfl⟩, by simp⟩
  rw [hnone _ hnames] at hn
  cases hn

theorem fromNearest_of_firstIn {dir : Path} {n : FileNode}
    (h : fs.firstIn (fs.startOf start).ancestors = some (dir, n)) :
    fs.FromNearest (fs.Searched start) (Config.ofNode dir n) [dir.join ⟨configFileName⟩] := by
  obtain ⟨inner, dir', outer, hancestors, hfound, hinner⟩ := List.findSome?_eq_some_iff.1 h
  obtain ⟨n', hfile, hpair⟩ := Option.map_eq_some_iff.1 hfound
  cases hpair
  have hmem : dir ∈ (fs.startOf start).ancestors := by simp [hancestors]
  have hfits : (dir.join ⟨configFileName⟩).Fits := by
    by_contra hfits
    rw [settingsIn_of_not_fits hfits] at hfile
    cases hfile
  rw [settingsIn_eq dir hfits] at hfile
  -- a directory that the search comes to is empty, is this one, or lies above it
  have hcases : ∀ names, fs.Searched start names →
      fs.settingsAt names = none ∨ names <+: fs.way dir := by
    rintro _ ⟨other, hother, hother_fits, rfl⟩
    rw [hancestors, List.mem_append, List.mem_cons] at hother
    rcases hother with hother | rfl | hother
    · have hnone := hinner other hother
      rw [Option.map_eq_none_iff, settingsIn_eq other hother_fits] at hnone
      exact .inl hnone
    · exact .inr List.prefix_rfl
    · have hpairwise := (fs.startOf start).pairwise_ancestors
      rw [hancestors] at hpairwise
      have hprefix := List.rel_of_pairwise_cons (List.pairwise_append.1 hpairwise).2.1 hother
      refine .inr (isPrefix_way ?_ hprefix)
      rw [Path.isAbsolute_of_mem_ancestors (p := fs.startOf start) (by simp [hancestors, hother]),
        Path.isAbsolute_of_mem_ancestors hmem]
  have hsearched : fs.Searched start (fs.way dir) := ⟨dir, hmem, hfits, rfl⟩
  refine ⟨fun {names n'} hnames hn' hnearest => ?_, ?_, fun p hp => ?_⟩
  · rcases hcases names hnames with hnone | hprefix
    · rw [hnone] at hn'
      cases hn'
    · obtain hlt | heq := hprefix.length_le.lt_or_eq
      · rw [hnearest _ hsearched hlt] at hfile
        cases hfile
      · obtain rfl := hprefix.eq_of_length heq
        rw [hfile] at hn'
        cases hn'
        exact ⟨dir, rfl, rfl⟩
  · refine iff_of_false (Config.ofNode_ne_default dir n) fun hnone => ?_
    rw [hnone _ hsearched] at hfile
    cases hfile
  · rw [List.mem_singleton.1 hp]
    exact ⟨fs.way dir, hsearched, isEntry_configFileName.way_join dir fs⟩

theorem discover_searched (start : Path) (log : List Path) :
    ∃ reads, (Config.discover fs.files.recorded start).run.run log =
        ((Config.discover fs.files start).run, log ++ reads) ∧
      fs.FromNearest (fs.Searched start) (Config.discover fs.files start).run reads := by
  rw [discover_recorded, discover_eq, loadFirst_recorded, loadFirst_eq]
  cases hfirst : fs.firstIn (fs.startOf start).ancestors with
  | none => exact ⟨[], by rw [List.append_nil], fromNearest_of_firstIn_none hfirst⟩
  | some found => exact ⟨_, rfl, fromNearest_of_firstIn hfirst⟩

end Outcome

theorem ancestors_startOf {start q : Path} (h : q ∈ (fs.startOf start).ancestors) :
    q ∈ start.ancestors := by
  unfold startOf at h
  split at h
  · rw [Path.ancestors_eq start]
    cases hparent : start.parent? with
    | none =>
        rwa [hparent, Option.getD_none, Path.ancestors_eq, hparent] at h
    | some parent =>
        rw [hparent] at h
        exact List.mem_cons_of_mem _ h
  · exact h

theorem isAbsolute_startOf (start : Path) : (fs.startOf start).isAbsolute = start.isAbsolute :=
  Path.isAbsolute_of_mem_ancestors (ancestors_startOf (Path.self_mem_ancestors _))

theorem origin_of_searched {start dir : Path} (h : dir ∈ (fs.startOf start).ancestors) :
    fs.origin dir = fs.origin start := by
  rw [origin, Path.isAbsolute_of_mem_ancestors h, isAbsolute_startOf]
  rfl

/-- The search comes to the directories from where the path stands to where it starts. -/
theorem searched_iff {start : Path} (h : (start.join ⟨configFileName⟩).Fits) (names : List String) :
    fs.Searched start names ↔
      fs.origin start <+: names ∧ names <+: fs.way (fs.startOf start) := by
  have hstart : fs.way (fs.startOf start) = fs.origin start ++ (fs.startOf start).stepNames := by
    rw [way, origin_of_searched (Path.self_mem_ancestors _)]
  constructor
  · rintro ⟨dir, hdir, -, rfl⟩
    refine ⟨?_, isPrefix_way (Path.isAbsolute_of_mem_ancestors hdir)
      (Path.components_prefix_of_mem_ancestors hdir)⟩
    rw [way, origin_of_searched hdir]
    exact List.prefix_append _ _
  · rintro ⟨⟨steps, rfl⟩, hway⟩
    rw [hstart, List.prefix_append_right_inj] at hway
    obtain ⟨dir, hdir, hsteps⟩ := Path.exists_stepNames hway
    refine ⟨dir, hdir, isEntry_configFileName.fits_join start (ancestors_startOf hdir) h, ?_⟩
    rw [way, origin_of_searched hdir, hsteps]

/-! ## Directories above a path -/

/-- The steps of a way, where two dots take back the step before them. -/
def straighten (names : List String) : List String :=
  names.foldl (fun before name => if name = ".." then before.dropLast else before ++ [name]) []

theorem straighten_of_not_mem {names : List String} (h : ".." ∉ names) :
    straighten names = names := by
  induction names using List.reverseRecOn with
  | nil => rfl
  | append_singleton names name ih =>
      simp only [List.mem_append, List.mem_singleton, not_or] at h
      rw [straighten, List.foldl_concat, if_neg (Ne.symm h.2)]
      exact congrArg (· ++ [name]) (ih h.1)

/-- The directory that a path means, as the names that lead to it from the top. -/
def place (fs : FileSystem) (p : Path) : List String := straighten (fs.way p)

theorem isPrefix_way_startOf (start : Path) : fs.way (fs.startOf start) <+: fs.way start := by
  have hmem := ancestors_startOf (Path.self_mem_ancestors (fs.startOf start))
  exact isPrefix_way (Path.isAbsolute_of_mem_ancestors hmem)
    (Path.components_prefix_of_mem_ancestors hmem)

/-- Which settings count for a path. They are those of the nearest file in the directories that the
search comes to, and these are the ones from where the text of the path ends to where it starts. So
where the path has no two dots, the nearest file of all the directories above it counts, but for
files above the working directory where the path starts there and comes to no other file. -/
theorem discover_nearest (fs : FileSystem) (start : Path) :
    ∃ reads, (Config.discover fs.files.recorded start).run.run [] =
        ((Config.discover fs.files start).run, reads) ∧
      fs.FromNearest (fs.Searched start) (Config.discover fs.files start).run reads ∧
      ((start.join ⟨configFileName⟩).Fits →
        (∀ names, fs.Searched start names ↔
          fs.origin start <+: names ∧ names <+: fs.way (fs.startOf start)) ∧
        (".." ∉ fs.way start →
          (∀ names, names <+: fs.origin start → names ≠ fs.origin start →
            fs.settingsAt names ≠ none →
            ∃ inner, fs.Searched start inner ∧ fs.settingsAt inner ≠ none) →
          fs.FromNearest (· <+: fs.place (fs.startOf start))
            (Config.discover fs.files start).run reads)) := by
  obtain ⟨reads, hrun, hnearest⟩ := fs.discover_searched start []
  refine ⟨reads, hrun, hnearest, fun hfits => ⟨searched_iff hfits, fun hdots houter => ?_⟩⟩
  have hplace : fs.place (fs.startOf start) = fs.way (fs.startOf start) :=
    straighten_of_not_mem fun hmem => hdots ((fs.isPrefix_way_startOf start).subset hmem)
  rw [hplace]
  refine hnearest.extend (fun names hnames => ((searched_iff hfits names).1 hnames).2) ?_
  intro names hnames hoff hfile
  have horigin : fs.origin start <+: fs.way (fs.startOf start) := by
    rw [way, origin_of_searched (Path.self_mem_ancestors _)]
    exact List.prefix_append _ _
  -- what is above the path and not searched is above where the path starts
  have habove : ¬fs.origin start <+: names := fun h =>
    hoff ((searched_iff hfits names).2 ⟨h, hnames⟩)
  have hlt : names.length < (fs.origin start).length := by
    by_contra hle
    exact habove (List.prefix_of_prefix_length_le horigin hnames (Nat.not_lt.1 hle))
  have hprefix := List.prefix_of_prefix_length_le hnames horigin hlt.le
  have hne : names ≠ fs.origin start := by
    rintro rfl
    exact habove List.prefix_rfl
  obtain ⟨inner, hinner, hinner_file⟩ := houter names hprefix hne hfile
  exact ⟨inner, hinner, hlt.trans_le ((searched_iff hfits inner).1 hinner).1.length_le, hinner_file⟩

/-- A module in a home directory, both with settings. -/
def homeWithModule : FileSystem where
  top := .directory [("home", .directory [(".declarative.json", .file "[null]".toUTF8),
    ("app", .directory [(".declarative.json", .file "[true]".toUTF8), ("src", .directory [])])])]
  workingDir := ["home"]

/-- The settings of the module count for what is in it. -/
theorem discover_nearest_module :
    ((⟨"app/src"⟩ : Path).join ⟨configFileName⟩).Fits ∧ ".." ∉ homeWithModule.way ⟨"app/src"⟩ ∧
    ∃ dir, homeWithModule.way dir = ["home", "app"] ∧
      (Config.discover homeWithModule.files ⟨"app/src"⟩).run =
        Config.ofNode dir (.file "[true]".toUTF8) := by
  have hfits : ((⟨"app/src"⟩ : Path).join ⟨configFileName⟩).Fits := ⟨by decide, by decide⟩
  have hway : homeWithModule.way ⟨"app/src"⟩ = ["home", "app", "src"] := by decide
  have hplace : homeWithModule.place (homeWithModule.startOf ⟨"app/src"⟩) =
      ["home", "app", "src"] := by decide
  have hdots : ".." ∉ homeWithModule.way ⟨"app/src"⟩ := by decide
  refine ⟨hfits, hdots, ?_⟩
  obtain ⟨reads, -, -, h⟩ := discover_nearest homeWithModule ⟨"app/src"⟩
  have hfile : homeWithModule.settingsAt ["home", "app"] = some (.file "[true]".toUTF8) := rfl
  have hsearched : homeWithModule.Searched ⟨"app/src"⟩ ["home", "app"] :=
    ((h hfits).1 _).2 ⟨by decide, by decide⟩
  have hnearest := (h hfits).2 hdots fun _ _ _ _ => ⟨_, hsearched, by simp [hfile]⟩
  rw [hplace] at hnearest
  refine hnearest.nearest (by decide) hfile fun inner hinner hlt => ?_
  obtain rfl := hinner.eq_of_length_le hlt
  rfl

/-- A directory with settings, beside which there are none. -/
def settingsBelow : FileSystem where
  top := .directory [("sub", .directory [(".declarative.json", .file "[true]".toUTF8)])]
  workingDir := []

/-- A working directory below one with settings. -/
def settingsAbove : FileSystem where
  top := .directory [(".declarative.json", .file "[true]".toUTF8), ("sub", .directory [])]
  workingDir := ["sub"]

/-- The search takes two dots back to a directory that is not above the path, and misses what is
above the working directory. -/
theorem discover_nearest_astray :
    (¬∃ reads, settingsBelow.FromNearest
      (· <+: settingsBelow.place (settingsBelow.startOf ⟨"sub/.."⟩))
      (Config.discover settingsBelow.files ⟨"sub/.."⟩).run reads) ∧
    ¬∃ reads, settingsAbove.FromNearest
      (· <+: settingsAbove.place (settingsAbove.startOf ⟨"."⟩))
      (Config.discover settingsAbove.files ⟨"."⟩).run reads := by
  constructor
  · rintro ⟨reads, h⟩
    have hplace : settingsBelow.place (settingsBelow.startOf ⟨"sub/.."⟩) = [] := by decide
    have hancestors : (settingsBelow.startOf ⟨"sub/.."⟩).ancestors =
        [⟨"sub/.."⟩, ⟨"sub"⟩, ⟨""⟩] := by
      rw [show settingsBelow.startOf ⟨"sub/.."⟩ = ⟨"sub/.."⟩ from rfl,
        Path.ancestors_of_parent? (q := ⟨"sub"⟩) rfl, Path.ancestors_of_parent? (q := ⟨""⟩) rfl,
        Path.ancestors_of_parent?_none rfl]
    have hfirst : settingsBelow.firstIn [⟨"sub/.."⟩, ⟨"sub"⟩, ⟨""⟩] =
        some (⟨"sub"⟩, .file "[true]".toUTF8) := rfl
    rw [discover_eq, hancestors, loadFirst_eq, hfirst] at h
    refine Config.ofNode_ne_default _ _ (h.default_iff.2 fun names hnames => ?_)
    rw [hplace] at hnames
    obtain rfl := List.prefix_nil.1 hnames
    rfl
  · rintro ⟨reads, h⟩
    have hplace : settingsAbove.place (settingsAbove.startOf ⟨"."⟩) = ["sub"] := by decide
    have hancestors : (settingsAbove.startOf ⟨"."⟩).ancestors = [⟨"."⟩, ⟨""⟩] := by
      rw [show settingsAbove.startOf ⟨"."⟩ = ⟨"."⟩ from rfl,
        Path.ancestors_of_parent? (q := ⟨""⟩) rfl, Path.ancestors_of_parent?_none rfl]
    have hfirst : settingsAbove.firstIn [⟨"."⟩, ⟨""⟩] = none := rfl
    rw [discover_eq, hancestors, loadFirst_eq, hfirst] at h
    have hnone := h.default_iff.1 rfl [] (by rw [hplace]; exact List.nil_prefix)
    cases hnone

end FileSystem

end BuildReplay
