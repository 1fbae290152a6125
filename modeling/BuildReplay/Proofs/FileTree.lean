import BuildReplay.FileTree
import BuildReplay.Proofs.Path
import Mathlib.Data.List.Forall2

/-! # Trees of files

Where the files of a tree stand, and what it says of a tree that a directory may list its entries in
any order. -/

namespace BuildReplay

namespace FileNode

theorem induct {P : FileNode → Prop} (file : ∀ bytes, P (.file bytes))
    (directory : ∀ entries, (∀ e ∈ entries, P e.2) → P (.directory entries)) : ∀ n, P n
  | .file bytes => file bytes
  | .directory entries => directory entries fun e _he => induct file directory e.2
termination_by n => sizeOf n
decreasing_by
  have := List.sizeOf_lt_of_mem _he
  rcases e with ⟨name, n⟩
  simp only [Prod.mk.sizeOf_spec] at this
  simp only [FileNode.directory.sizeOf_spec]
  omega

/-- The names lead down from a node to a file. -/
inductive FileAt : FileNode → List String → Prop where
  | here (bytes : ByteArray) : FileAt (.file bytes) []
  | inside {entries : List (String × FileNode)} {entry : String} {n : FileNode}
      {names : List String} :
      (entry, n) ∈ entries → FileAt n names → FileAt (.directory entries) (entry :: names)

/-- The entries of all directories have names of their own. -/
inductive Proper : FileNode → Prop where
  | file (bytes : ByteArray) : Proper (.file bytes)
  | directory {entries : List (String × FileNode)} : (entries.map (·.1)).Nodup →
      (∀ e ∈ entries, Path.IsEntry e.1) → (∀ e ∈ entries, Proper e.2) →
      Proper (.directory entries)

/-- The directories list the same entries, each in an order of its own. -/
inductive Rearranged : FileNode → FileNode → Prop where
  | file (bytes : ByteArray) : Rearranged (.file bytes) (.file bytes)
  | directory {entries entries' : List (String × FileNode)} :
      (entries.map (·.1)).Perm (entries'.map (·.1)) →
      (∀ {name n n'}, (name, n) ∈ entries → (name, n') ∈ entries' → Rearranged n n') →
      Rearranged (.directory entries) (.directory entries')

variable {n n' : FileNode}

theorem FileAt.isEntry {names : List String} (h : n.FileAt names) (hn : n.Proper) :
    ∀ name ∈ names, Path.IsEntry name := by
  induction h with
  | here => exact fun _ hmem => absurd hmem List.not_mem_nil
  | inside hmem _ ih =>
      obtain _ | ⟨-, hentry, hproper⟩ := hn
      exact List.forall_mem_cons.2 ⟨hentry _ hmem, ih (hproper _ hmem)⟩

namespace Rearranged

theorem symm (h : n.Rearranged n') : n'.Rearranged n := by
  induction h with
  | file bytes => exact .file bytes
  | directory hperm _ ih => exact .directory hperm.symm fun hmem hmem' => ih hmem' hmem

/-- An entry is listed by the other directory too. -/
theorem exists_mem {entries entries' : List (String × FileNode)}
    (h : (entries.map (·.1)).Perm (entries'.map (·.1))) {e : String × FileNode}
    (he : e ∈ entries) : ∃ n', (e.1, n') ∈ entries' := by
  obtain ⟨⟨name, n'⟩, hmem, rfl⟩ := List.mem_map.1 (h.subset (List.mem_map_of_mem he))
  exact ⟨n', hmem⟩

theorem fileAt {names : List String} (h : n.Rearranged n') (hn : n.FileAt names) :
    n'.FileAt names := by
  induction hn generalizing n' with
  | here bytes =>
      cases h
      exact .here bytes
  | inside hmem _ ih =>
      obtain _ | ⟨hperm, hentries⟩ := h
      obtain ⟨m', hmem'⟩ := exists_mem hperm hmem
      exact .inside hmem' (ih (hentries hmem hmem'))

theorem proper (h : n.Rearranged n') (hn : n.Proper) : n'.Proper := by
  induction h with
  | file bytes => exact .file bytes
  | directory hperm hentries ih =>
      obtain _ | ⟨hnodup, hentry, hproper⟩ := hn
      refine .directory (hperm.nodup_iff.1 hnodup) (fun e he => ?_) fun e he => ?_
      · obtain ⟨m, hmem⟩ := exists_mem hperm.symm he
        exact hentry (e.1, m) hmem
      · obtain ⟨m, hmem⟩ := exists_mem hperm.symm he
        exact ih hmem he (hproper _ hmem)

end Rearranged

/-! ## Lookups -/

theorem mem_of_find? {name : String} {entries : List (String × FileNode)}
    (h : find? name entries = some n) : (name, n) ∈ entries := by
  induction entries with
  | nil => cases h
  | cons e rest ih =>
      rw [find?] at h
      split at h
      · cases h
        rename_i heq
        exact heq ▸ List.mem_cons_self
      · exact List.mem_cons_of_mem _ (ih h)

theorem find?_eq_none {name : String} {entries : List (String × FileNode)} :
    find? name entries = none ↔ name ∉ entries.map (·.1) := by
  induction entries with
  | nil => simp [find?]
  | cons e rest ih =>
      rw [find?, List.map_cons, List.mem_cons, not_or, ← ih]
      split
      · simp_all
      · simp_all [eq_comm]

/-- There is a file, or nothing. -/
def NoDirectory (n? : Option FileNode) : Prop := ∀ entries, n? ≠ some (.directory entries)

end FileNode

/-! ## Resolution -/

namespace FileSystem

open FileNode

/-- Two lookups both fail, or find what is related. -/
inductive Alike {α : Type} (R : α → α → Prop) : Except Fault α → Except Fault α → Prop where
  | error (fault fault' : Fault) : Alike R (.error fault) (.error fault')
  | ok {a b : α} : R a b → Alike R (.ok a) (.ok b)

/-- Related nodes have related entries under the same names, but for files that stand on one side
or the other under a loose name. -/
structure Descends (loose : String → Prop) (R : FileNode → FileNode → Prop) : Prop where
  file : ∀ {bytes n'}, R (.file bytes) n' → ∃ bytes', n' = .file bytes'
  directory : ∀ {entries n'}, R (.directory entries) n' → ∃ entries', n' = .directory entries' ∧
    ∀ name, Option.Rel R (find? name entries) (find? name entries') ∨
      loose name ∧ NoDirectory (find? name entries) ∧ NoDirectory (find? name entries')

variable {stack stack' : List FileNode}

/-- A step to what is no directory is the last one. -/
theorem step_of_noDirectory {name : String} {entries : List (String × FileNode)}
    (h : NoDirectory (find? name entries)) {outer : List FileNode} (next : String)
    (hhere : ¬(name = "" || name = ".")) (hup : name ≠ "..") :
    ∃ fault, (step name (.directory entries :: outer)).bind (step next) = .error fault := by
  rw [step, if_neg hhere, if_neg hup]
  split
  · exact ⟨_, rfl⟩
  cases hfind : find? name entries with
  | none => exact ⟨_, rfl⟩
  | some n =>
      cases n with
      | file bytes => exact ⟨_, rfl⟩
      | directory below => exact absurd hfind (h below)

theorem walk_cons (name : String) (names : List String) (stack : List FileNode) :
    walk (name :: names) stack = (step name stack).bind (walk names) := by
  rw [walk]
  cases step name stack <;> rfl

theorem walk_append (names names' : List String) (stack : List FileNode) :
    walk (names ++ names') stack = (walk names stack).bind (walk names') := by
  induction names generalizing stack with
  | nil => rfl
  | cons name rest ih =>
      rw [List.cons_append, walk_cons, walk_cons]
      cases step name stack with
      | error fault => rfl
      | ok stack' => exact ih stack'

theorem walk_append_eq_ok {names names' : List String} {after : List FileNode} :
    walk (names ++ names') stack = .ok after ↔
      ∃ between, walk names stack = .ok between ∧ walk names' between = .ok after := by
  rw [walk_append]
  cases walk names stack <;> simp [Except.bind]

/-- Where two steps fail, so does every walk that starts with them. -/
theorem walk_of_error {name next : String} {fault : Fault}
    (h : (step name stack).bind (step next) = .error fault) (rest : List String) :
    walk (name :: next :: rest) stack = .error fault := by
  have hwalk : walk [name, next] stack = .error fault := by
    rw [walk_cons, ← h]
    refine congrArg _ (funext fun stack' => ?_)
    rw [walk_cons]
    cases step next stack' <;> rfl
  rw [show name :: next :: rest = [name, next] ++ rest from rfl, walk_append, hwalk]
  rfl

section Descends

variable {loose : String → Prop} {R : FileNode → FileNode → Prop} (hR : Descends loose R)
include hR

/-- Steps from related nodes lead to related nodes, or by a loose name to two ends. -/
theorem Descends.step (h : List.Forall₂ R stack stack') (name : String) :
    Alike (List.Forall₂ R) (step name stack) (step name stack') ∨
      loose name ∧ ∀ next, (∃ fault, (step name stack).bind (FileSystem.step next) = .error fault) ∧
        ∃ fault, (step name stack').bind (FileSystem.step next) = .error fault := by
  cases h with
  | nil => exact .inl (.error _ _)
  | @cons n n' outer outer' hn houter =>
      cases n with
      | file bytes =>
          obtain ⟨bytes', rfl⟩ := hR.file hn
          exact .inl (.error _ _)
      | directory entries =>
          obtain ⟨entries', rfl, hentries⟩ := hR.directory hn
          have hall := List.Forall₂.cons hn houter
          by_cases hhere : name = "" || name = "."
          · refine .inl ?_
            simp only [FileSystem.step, if_pos hhere]
            exact .ok hall
          by_cases hup : name = ".."
          · refine .inl ?_
            simp only [FileSystem.step, if_neg hhere, if_pos hup]
            cases houter with
            | nil => exact .ok hall
            | cons hm houter => exact .ok (.cons hm houter)
          rcases hentries name with hfind | ⟨hloose, hend, hend'⟩
          · refine .inl ?_
            simp only [FileSystem.step, if_neg hhere, if_neg hup]
            split
            · exact .error _ _
            generalize find? name entries = m?, find? name entries' = m?' at hfind
            cases hfind with
            | none => exact .error _ _
            | some hm => exact .ok (.cons hm hall)
          · exact .inr ⟨hloose, fun next => ⟨step_of_noDirectory hend next hhere hup,
              step_of_noDirectory hend' next hhere hup⟩⟩

/-- Walks that do not end by a loose name go alike. -/
theorem Descends.walk (h : List.Forall₂ R stack stack') {names : List String}
    (hlast : ∀ last ∈ names.getLast?, ¬loose last) :
    Alike (List.Forall₂ R) (walk names stack) (walk names stack') := by
  induction names generalizing stack stack' with
  | nil => exact .ok h
  | cons name rest ih =>
      rcases hR.step h name with hstep | ⟨hloose, hends⟩
      · rw [walk_cons, walk_cons]
        generalize FileSystem.step name stack = r, FileSystem.step name stack' = r' at hstep
        cases hstep with
        | error fault fault' => exact .error fault fault'
        | ok hnext =>
            refine ih hnext fun last hmem => hlast last ?_
            rw [List.getLast?_cons, Option.mem_def.1 hmem]
            rfl
      · cases rest with
        | nil => exact absurd hloose (hlast name rfl)
        | cons next rest =>
            obtain ⟨⟨fault, hfault⟩, fault', hfault'⟩ := hends next
            rw [walk_of_error hfault, walk_of_error hfault']
            exact .error fault fault'

/-- A path that does not end by a loose name means related nodes in related trees. -/
theorem Descends.resolve {fs : FileSystem} {top' : FileNode} (h : R fs.top top') {p : Path}
    (hlast : ∀ last ∈ (Path.segments p.text.toList).getLast?, ¬loose (String.ofList last)) :
    Alike R (fs.resolve p) ({ fs with top := top' }.resolve p) := by
  simp only [FileSystem.resolve]
  split
  · exact .error _ _
  split
  · exact .error _ _
  split
  · exact .error _ _
  have hnames : ∀ last ∈ (if p.isAbsolute then (Path.segments p.text.toList).map String.ofList
      else fs.workingDir ++ (Path.segments p.text.toList).map String.ofList).getLast?,
      ¬loose last := by
    obtain ⟨before, last, hsegments⟩ := (List.eq_nil_or_concat' _).resolve_left
      (Path.segments_ne_nil p.text.toList)
    rw [hsegments] at hlast ⊢
    have := hlast last (by simp)
    split <;> simpa using this
  generalize (if p.isAbsolute then (Path.segments p.text.toList).map String.ofList
    else fs.workingDir ++ (Path.segments p.text.toList).map String.ofList) = names at hnames
  have hwalk := hR.walk (.cons h .nil) hnames
  generalize FileSystem.walk names [fs.top] = r, FileSystem.walk names [top'] = r' at hwalk
  cases hwalk with
  | error fault fault' => exact .error fault fault'
  | ok hstack =>
      cases hstack with
      | nil => exact .error _ _
      | cons hn _ => exact .ok hn

end Descends

theorem rearranged_descends : Descends (fun _ => False) Rearranged where
  file h := by
    cases h
    exact ⟨_, rfl⟩
  directory {entries n'} h := by
    cases h with
    | @directory _ entries' hperm hentries =>
        refine ⟨entries', rfl, fun name => .inl ?_⟩
        cases hfind : find? name entries with
        | none =>
            rw [find?_eq_none, hperm.mem_iff, ← find?_eq_none] at hfind
            rw [hfind]
            exact .none
        | some m =>
            cases hfind' : find? name entries' with
            | none =>
                rw [find?_eq_none, ← hperm.mem_iff, ← find?_eq_none, hfind] at hfind'
                cases hfind'
            | some m' => exact .some (hentries (mem_of_find? hfind) (mem_of_find? hfind'))

/-- A path means the same node, however the directories list their entries. -/
theorem resolve_rearranged {fs : FileSystem} {top' : FileNode} (h : fs.top.Rearranged top')
    (p : Path) : Alike Rearranged (fs.resolve p) ({ fs with top := top' }.resolve p) :=
  rearranged_descends.resolve h fun _ _ => id

theorem step_proper {name : String} (h : ∀ n ∈ stack, n.Proper)
    (hstep : step name stack = .ok stack') : ∀ n ∈ stack', n.Proper := by
  match stack with
  | [] => cases hstep
  | .file bytes :: outer => cases hstep
  | .directory entries :: outer =>
      simp only [step] at hstep
      split at hstep
      · cases hstep
        exact h
      split at hstep
      · cases hstep
        intro n hn
        split at hn
        · exact h n (List.mem_cons.2 (.inl (List.mem_singleton.1 hn)))
        · exact h n (List.mem_cons_of_mem _ hn)
      split at hstep
      · cases hstep
      split at hstep
      · cases hstep
        rename_i hfind
        obtain _ | ⟨-, -, hproper⟩ := h _ List.mem_cons_self
        exact List.forall_mem_cons.2 ⟨hproper _ (mem_of_find? hfind), h⟩
      · cases hstep

theorem walk_proper {names : List String} (h : ∀ n ∈ stack, n.Proper)
    (hwalk : walk names stack = .ok stack') : ∀ n ∈ stack', n.Proper := by
  induction names generalizing stack with
  | nil =>
      cases hwalk
      exact h
  | cons name rest ih =>
      rw [walk] at hwalk
      split at hwalk
      · exact ih (step_proper h ‹_›) hwalk
      · cases hwalk

theorem resolve_proper {fs : FileSystem} (h : fs.top.Proper) {p : Path} {n : FileNode}
    (hn : fs.resolve p = .ok n) : n.Proper := by
  unfold resolve at hn
  split at hn
  · cases hn
  split at hn
  · cases hn
  split at hn
  · cases hn
  dsimp only at hn
  split at hn
  · cases hn
    rename_i hwalk
    exact walk_proper (by simpa using h) hwalk n List.mem_cons_self
  · cases hn
  · cases hn

end FileSystem

end BuildReplay
