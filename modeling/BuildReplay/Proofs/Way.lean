import BuildReplay.Proofs.Ancestors
import BuildReplay.Proofs.FileTree

/-! # Ways

Where a path leads. A path is walked step by step; the dots and repeated slashes in it lead nowhere
else, as long as it does not end with one. -/

namespace BuildReplay

namespace Path

/-- The step of a walk that a component is. -/
def Component.step? : Component → Option String
  | .root | .here => none
  | .parent => some ".."
  | .name s => some s

/-- The steps of a path, without where it starts. -/
def stepNames (p : Path) : List String := p.components.filterMap Component.step?

/-- A path that the system takes. -/
structure Fits (p : Path) : Prop where
  no_zero : '\x00' ∉ p.text.toList
  size_le : p.text.utf8ByteSize ≤ FileSystem.pathLimit

/-- The last piece of the path is a step. -/
def EndsInStep (p : Path) : Prop :=
  ∃ before last, segments p.text.toList = before ++ [last] ∧ isTrivial last = false

theorem utf8ByteSize_le_of_sublist {cs ds : List Char} (h : cs.Sublist ds) :
    (String.ofList cs).utf8ByteSize ≤ (String.ofList ds).utf8ByteSize := by
  induction h with
  | slnil => exact Nat.le_refl _
  | cons c _ ih =>
      rw [String.ofList_cons, String.utf8ByteSize_append]
      exact Nat.le_add_left_of_le ih
  | cons_cons c _ ih =>
      rw [String.ofList_cons, String.ofList_cons, String.utf8ByteSize_append,
        String.utf8ByteSize_append]
      exact Nat.add_le_add_left ih _

/-- A path whose characters all stand in one that the system takes is taken as well. -/
theorem Fits.of_sublist {p q : Path} (h : p.Fits) (hq : q.text.toList.Sublist p.text.toList) :
    q.Fits := by
  have hsize := utf8ByteSize_le_of_sublist hq
  rw [String.ofList_toList, String.ofList_toList] at hsize
  exact ⟨fun hmem => h.no_zero (hq.subset hmem), hsize.trans h.size_le⟩
theorem step?_ofSegment (s : List Char) :
    (Component.ofSegment s).step? = some (String.ofList s) := by
  unfold Component.ofSegment
  split
  · subst s
    rfl
  · rfl

theorem eq_of_ofSegment {s : List Char} {entry : String} (h : Component.ofSegment s = .name entry) :
    s = entry.toList := by
  unfold Component.ofSegment at h
  split at h
  · cases h
  · cases h
    exact String.toList_ofList.symm

theorem filter_segments_anchored (cs : List Char) :
    (segments cs).filter (fun s => !isTrivial s) =
      (segments (anchored cs).2).filter fun s => !isTrivial s := by
  unfold anchored
  split <;> simp [segments, isTrivial]

theorem stepNames_eq (p : Path) :
    p.stepNames =
      ((segments p.text.toList).filter fun s => !isTrivial s).map String.ofList := by
  have hanchor : (anchored p.text.toList).1.component?.toList.filterMap Component.step? = [] := by
    cases (anchored p.text.toList).1 <;> rfl
  rw [stepNames, components_eq, List.filterMap_append, hanchor, List.nil_append, steps,
    filter_segments_anchored p.text.toList, List.filterMap_map]
  exact List.filterMap_eq_map_iff_forall_eq_some.2 fun s _ => step?_ofSegment s

/-- The last component of a path that ends in a step is that step, and the path has a parent. -/
theorem EndsInStep.exists_parent {p : Path} (h : p.EndsInStep) :
    ∃ q c, p.parent? = some q ∧ p.components = q.components ++ [c] ∧ c.step? ≠ none := by
  obtain ⟨before, last, hsegments, hlast⟩ := h
  have hsteps : steps (anchored p.text.toList).2 ≠ [] := by
    rw [steps, ← filter_segments_anchored, hsegments, List.filter_append]
    simp [hlast]
  obtain ⟨init, c, hc⟩ := (List.eq_nil_or_concat' _).resolve_left hsteps
  have hcomponents : p.components =
      (anchored p.text.toList).1.component?.toList ++ init ++ [c] := by
    rw [components_eq, hc, List.append_assoc]
  have hstep : c.step? ≠ none := by
    have hmem : c ∈ steps (anchored p.text.toList).2 := by simp [hc]
    obtain ⟨s, -, rfl⟩ := List.mem_map.1 hmem
    simp [step?_ofSegment]
  cases hparent : p.parent? with
  | none =>
      rcases parent?_eq_none_iff.1 hparent with h | h
      · simp [h] at hcomponents
      · rw [h] at hcomponents
        have hroot : Component.root = c := by simpa using congrArg List.getLast? hcomponents
        exact absurd rfl (hroot ▸ hstep)
  | some q =>
      obtain ⟨c', -, hc'⟩ := components_of_parent? hparent
      have heq := List.append_inj_right' (hcomponents.symm.trans hc') rfl
      exact ⟨q, c', rfl, hc', (List.singleton_inj.1 heq) ▸ hstep⟩

/-- Every beginning of the steps of a path is those of an ancestor. -/
theorem exists_stepNames {p : Path} {names : List String} (h : names <+: p.stepNames) :
    ∃ q ∈ p.ancestors, q.stepNames = names := by
  obtain ⟨rest, hrest⟩ := h
  obtain ⟨cs, ds, hcs, rfl, -⟩ := List.filterMap_eq_append_iff.1 hrest.symm
  by_cases hroot : p.isAbsolute → cs ≠ []
  · obtain ⟨q, hq, hcomponents⟩ := exists_mem_ancestors ⟨ds, hcs.symm⟩ hroot
    exact ⟨q, hq, by rw [stepNames, hcomponents]⟩
  · -- the root of an absolute path is no step
    obtain ⟨habsolute, rfl⟩ : p.isAbsolute ∧ cs = [] := by simpa using hroot
    obtain ⟨steps, hsteps⟩ := List.head?_eq_some_iff.1 (isAbsolute_iff.1 habsolute)
    have hprefix : [Component.root] <+: p.components := by simp [hsteps]
    obtain ⟨q, hq, hcomponents⟩ := exists_mem_ancestors hprefix fun _ => by simp
    exact ⟨q, hq, by rw [stepNames, hcomponents]; rfl⟩

end Path

namespace FileSystem

variable {fs : FileSystem}

/-- The names that lead to where a path starts. -/
def origin (fs : FileSystem) (p : Path) : List String := if p.isAbsolute then [] else fs.workingDir

/-- The names that lead to where a path stands, from the top down, as the path has them. -/
def way (fs : FileSystem) (p : Path) : List String := fs.origin p ++ p.stepNames

theorem way_congr {p q : Path} (h : p.components = q.components) : fs.way p = fs.way q := by
  have habsolute : p.isAbsolute = q.isAbsolute := by
    rw [Bool.eq_iff_iff, Path.isAbsolute_iff, Path.isAbsolute_iff, h]
  rw [way, way, origin, origin, Path.stepNames, Path.stepNames, habsolute, h]

/-- What names lead to from the top. -/
def nodeAt (fs : FileSystem) (names : List String) : Except Fault FileNode :=
  match walk names [fs.top] with
  | .ok (n :: _) => .ok n
  | .ok [] => .error .missing
  | .error fault => .error fault

theorem nodeAt_eq_ok {names : List String} {n : FileNode} :
    fs.nodeAt names = .ok n ↔ ∃ outer, walk names [fs.top] = .ok (n :: outer) := by
  unfold nodeAt
  split <;> simp_all

theorem step_of_trivial {s : List Char} (h : Path.isTrivial s) (entries : List (String × FileNode))
    (outer : List FileNode) :
    step (String.ofList s) (.directory entries :: outer) = .ok (.directory entries :: outer) := by
  have hname : String.ofList s = "" ∨ String.ofList s = "." := by
    rcases Bool.or_eq_true_iff.1 h with h | h
    · exact .inl (by rw [eq_of_beq h, String.ofList_nil])
    · exact .inr (by rw [eq_of_beq h])
  simp only [step]
  rw [if_pos (by simpa using hname)]

/-- On the way to a last step the trivial pieces lead nowhere. -/
theorem walk_filter (pieces : List (List Char)) (last : String) (stack : List FileNode) :
    walk (pieces.map String.ofList ++ [last]) stack =
      walk ((pieces.filter fun s => !Path.isTrivial s).map String.ofList ++ [last]) stack := by
  induction pieces generalizing stack with
  | nil => rfl
  | cons s rest ih =>
      by_cases htrivial : Path.isTrivial s
      · rw [List.filter_cons_of_neg (by simp [htrivial]), ← ih, List.map_cons, List.cons_append]
        match stack with
        | [] => cases rest <;> rfl
        | .file bytes :: outer => cases rest <;> rfl
        | .directory entries :: outer => rw [walk, step_of_trivial htrivial]
      · rw [List.filter_cons_of_pos (by simp [htrivial]), List.map_cons, List.map_cons,
          List.cons_append, List.cons_append, walk, walk]
        cases step (String.ofList s) stack with
        | error fault => rfl
        | ok stack' => exact ih stack'

theorem resolve_of_fits {p : Path} (hne : p.text ≠ "") (h : p.Fits) :
    fs.resolve p = fs.nodeAt (fs.origin p ++
      (Path.segments p.text.toList).map String.ofList) := by
  have hzero : ¬p.text.toList.contains '\x00' := by simpa using h.no_zero
  rw [resolve, if_neg (by simpa using hne), if_neg hzero, if_neg (Nat.not_lt.2 h.size_le), origin]
  cases p.isAbsolute <;> rfl

theorem resolve_of_not_fits {p : Path} (h : ¬p.Fits) : ∃ fault, fs.resolve p = .error fault := by
  rw [resolve]
  split
  · exact ⟨_, rfl⟩
  split
  · exact ⟨_, rfl⟩
  split
  · exact ⟨_, rfl⟩
  rename_i _ hzero hsize
  exact absurd ⟨by simpa using hzero, Nat.not_lt.1 hsize⟩ h

theorem nodeAt_congr {names names' : List String} (h : walk names [fs.top] = walk names' [fs.top]) :
    fs.nodeAt names = fs.nodeAt names' := by
  rw [nodeAt, nodeAt, h]

/-- A path that ends in a step stands where its way leads. -/
theorem resolve_eq_nodeAt {p : Path} (h : p.Fits) (hend : p.EndsInStep) :
    fs.resolve p = fs.nodeAt (fs.way p) := by
  obtain ⟨before, last, hsegments, hlast⟩ := hend
  have hne : p.text ≠ "" := by
    intro hempty
    rw [hempty] at hsegments
    have hnil : [] = last := by simpa [Path.segments] using congrArg List.getLast? hsegments
    rw [← hnil] at hlast
    cases hlast
  rw [resolve_of_fits hne h, way, p.stepNames_eq, hsegments]
  refine nodeAt_congr ?_
  rw [List.filter_append, List.filter_cons_of_pos (by simp [hlast]), List.filter_nil,
    List.map_append, List.map_append, walk_append, walk_append]
  exact congrArg _ (funext (walk_filter before (String.ofList last)))

/-! ## Where files stand -/

theorem fits_of_resolve {p : Path} {n : FileNode} (h : fs.resolve p = .ok n) : p.Fits := by
  by_contra hfits
  obtain ⟨fault, hfault⟩ := resolve_of_not_fits hfits
  rw [hfault] at h
  cases h

theorem text_ne_of_resolve {p : Path} {n : FileNode} (h : fs.resolve p = .ok n) : p.text ≠ "" := by
  intro hempty
  rw [resolve, if_pos (by simp [hempty])] at h
  cases h

/-- The path of a file does not end in a dot or a slash. -/
theorem endsInStep_of_file {p : Path} {bytes : ByteArray} (h : fs.resolve p = .ok (.file bytes)) :
    p.EndsInStep := by
  obtain ⟨before, last, hsegments⟩ :=
    (List.eq_nil_or_concat' (Path.segments p.text.toList)).resolve_left (Path.segments_ne_nil _)
  refine ⟨before, last, hsegments, ?_⟩
  by_contra htrivial
  rw [Bool.not_eq_false] at htrivial
  rw [resolve_of_fits (text_ne_of_resolve h) (fits_of_resolve h), hsegments, List.map_append,
    ← List.append_assoc, nodeAt_eq_ok] at h
  obtain ⟨outer, hwalk⟩ := h
  obtain ⟨stack, -, hlast⟩ := walk_append_eq_ok.1 hwalk
  rw [List.map_singleton] at hlast
  match stack with
  | [] => cases hlast
  | .file bytes :: outer => cases hlast
  | .directory entries :: outer =>
      rw [walk, step_of_trivial htrivial] at hlast
      cases hlast

end FileSystem

/-! ## Joined names -/

namespace Path

namespace IsEntry

variable {entry : String} (h : IsEntry entry) (p : Path)
include h

theorem isAbsolute_join : (p.join ⟨entry⟩).isAbsolute = p.isAbsolute := by
  rw [Bool.eq_iff_iff, isAbsolute_iff, isAbsolute_iff, h.components_join]
  cases p.components with
  | nil => simp
  | cons c cs => rfl

theorem text_join_ne : (p.join ⟨entry⟩).text ≠ "" := by
  rw [ne_eq, ← components_eq_nil_iff, h.components_join]
  simp

theorem stepNames_join : (p.join ⟨entry⟩).stepNames = p.stepNames ++ [entry] := by
  rw [stepNames, h.components_join, List.filterMap_append]
  rfl

theorem way_join (fs : FileSystem) : fs.way (p.join ⟨entry⟩) = fs.way p ++ [entry] := by
  rw [FileSystem.way, FileSystem.origin, h.isAbsolute_join, h.stepNames_join, ← List.append_assoc]
  rfl

theorem text_join : ∃ slash, (slash = "" ∨ slash = "/") ∧
    (p.join ⟨entry⟩).text = p.text ++ slash ++ entry := by
  unfold join
  rw [h.not_isAbsolute, Bool.false_or]
  split
  · rename_i hempty
    exact ⟨"", .inl rfl, by rw [String.isEmpty_iff.1 hempty]; rfl⟩
  split
  · exact ⟨"", .inl rfl, by rw [String.append_empty]⟩
  · exact ⟨"/", .inr rfl, rfl⟩

/-- Where a name joined to a path fits, it fits joined to the ancestors of the path. -/
theorem fits_join {q : Path} (hq : q ∈ p.ancestors) (hfits : (p.join ⟨entry⟩).Fits) :
    (q.join ⟨entry⟩).Fits := by
  rcases text_of_mem_ancestors hq with rfl | ⟨rest, hrest, htext⟩
  · exact hfits
  · obtain ⟨slash, -, hjoin⟩ := h.text_join p
    obtain ⟨slash', hslash', hjoin'⟩ := h.text_join q
    obtain ⟨hzero, hsize⟩ := hfits
    rw [hjoin, htext] at hzero hsize
    refine ⟨?_, ?_⟩
    · rw [hjoin']
      rcases hslash' with rfl | rfl <;> simp_all
    · have hpos : rest.utf8ByteSize ≠ 0 := mt String.utf8ByteSize_eq_zero_iff.1 hrest
      have hslash_size : slash'.utf8ByteSize ≤ 1 := by rcases hslash' with rfl | rfl <;> decide
      rw [hjoin']
      simp only [String.utf8ByteSize_append] at hsize ⊢
      omega

theorem not_isTrivial : isTrivial entry.toList = false := by
  rw [isTrivial, Bool.or_eq_false_iff, beq_eq_false_iff_ne, beq_eq_false_iff_ne]
  exact ⟨fun he => h.ne_empty (String.toList_inj.1 he),
    fun he => h.ne_here (String.toList_inj.1 he)⟩

/-- The name is the last piece, and the ones before it are those of the path. -/
theorem segments_join : ∃ before, segments (p.join ⟨entry⟩).text.toList = before ++ [entry.toList] ∧
    (segments p.text.toList = before ∨ segments p.text.toList = before ++ [[]]) := by
  have hsegments : segments entry.toList = [entry.toList] := segments_of_not_mem h.no_slash
  unfold join
  rw [h.not_isAbsolute, Bool.false_or]
  split
  · rename_i hempty
    rw [String.isEmpty_iff.1 hempty]
    exact ⟨[], hsegments, .inr rfl⟩
  split
  · rename_i hlast
    obtain ⟨cs, hcs⟩ : ∃ cs, p.text.toList = cs ++ ['/'] :=
      List.getLast?_eq_some_iff.1 (eq_of_beq hlast)
    refine ⟨segments cs, ?_, .inr (by rw [hcs, segments_append_slash]; rfl)⟩
    rw [String.toList_append, hcs, List.append_assoc, List.singleton_append, segments_append_slash,
      hsegments]
  · refine ⟨segments p.text.toList, ?_, .inl rfl⟩
    have hjoin : (p.text ++ "/" ++ entry).toList = p.text.toList ++ '/' :: entry.toList := by simp
    rw [hjoin, segments_append_slash, hsegments]

theorem endsInStep_join : (p.join ⟨entry⟩).EndsInStep := by
  obtain ⟨before, hsegments, -⟩ := h.segments_join p
  exact ⟨before, entry.toList, hsegments, h.not_isTrivial⟩

omit h in
/-- Where the text of the parent ends, and the name that is the last component goes on. -/
theorem exists_of_parent? {q : Path} (hparent : p.parent? = some q)
    (hcomponents : p.components = q.components ++ [.name entry]) :
    ∃ rest after, after ≠ [] ∧ entry.toList.Sublist (ofSegments after) ∧
      (anchored p.text.toList).2 = ofSegments (rest ++ after) ∧
      q.text.toList = (anchored p.text.toList).1.chars ++ ofSegments rest := by
  obtain ⟨hhere, -⟩ | ⟨rest, after, last, hsegments, -, hafter, hq⟩ := parent?_eq_some hparent
  · simp [hhere, List.singleton_eq_append_iff] at hcomponents
  have hlast : last = entry.toList := by
    have hget := congrArg List.getLast? hcomponents
    rw [components_eq, steps, hsegments, List.filter_append, hafter, List.map_append] at hget
    exact eq_of_ofSegment (by simpa [List.getLast?_append] using hget)
  obtain ⟨hmem, -⟩ := List.mem_filter.1 (hafter ▸ List.mem_singleton_self last)
  refine ⟨rest, after, List.ne_nil_of_mem hmem, hlast ▸ sublist_ofSegments hmem, ?_, hq⟩
  rw [← hsegments, ofSegments_segments]

theorem sublist_join_append {cs : List Char} (hcs : entry.toList.Sublist cs) :
    (p.join ⟨entry⟩).text.toList.Sublist (p.text.toList ++ '/' :: cs) := by
  obtain ⟨slash, hslash, hjoin⟩ := h.text_join p
  rw [hjoin, String.append_assoc, String.toList_append]
  refine (List.Sublist.refl _).append ?_
  rcases hslash with rfl | rfl
  · simpa using hcs.cons '/'
  · simpa using hcs.cons_cons '/'

/-- Below what a path starts with, the name is in the rest of its text. -/
theorem sublist_join_anchor {cs : List Char} (hcs : entry.toList.Sublist (anchored cs).2) :
    ((⟨String.ofList (anchored cs).1.chars⟩ : Path).join ⟨entry⟩).text.toList.Sublist
      ((anchored cs).1.chars ++ (anchored cs).2) := by
  cases hanchor : (anchored cs).1 with
  | name =>
      have hjoin : (⟨String.ofList []⟩ : Path).join ⟨entry⟩ = ⟨entry⟩ := by simp [join]
      rw [Anchor.chars, hjoin]
      exact hcs
  | root =>
      have hjoin : (⟨String.ofList ['/']⟩ : Path).join ⟨entry⟩ = ⟨"/" ++ entry⟩ := by
        simp [join, h.not_isAbsolute]
      rw [Anchor.chars, hjoin, String.toList_append]
      exact hcs.cons_cons '/'
  | here =>
      -- the dot is followed by a slash, and the name has none
      rcases body_of_here hanchor with hnil | ⟨ds, hds⟩
      · rw [hnil, List.sublist_nil] at hcs
        exact absurd (String.toList_inj.1 hcs) h.ne_empty
      · rw [hds, List.sublist_cons_iff] at hcs
        obtain hcs | ⟨es, hes, -⟩ := hcs
        · rw [hds]
          exact h.sublist_join_append ⟨"."⟩ hcs
        · exact absurd (by simp [hes]) h.no_slash

/-- A name that is the last component of a path stands in its text behind that of the parent. -/
theorem sublist_join {q : Path} (hparent : p.parent? = some q)
    (hcomponents : p.components = q.components ++ [.name entry]) :
    (q.join ⟨entry⟩).text.toList.Sublist p.text.toList := by
  obtain ⟨rest, after, hafter, hname, hbody, hq⟩ := exists_of_parent? p hparent hcomponents
  by_cases hrest : rest = []
  · rw [hrest, List.nil_append] at hbody
    rw [hrest, ofSegments, List.append_nil] at hq
    have hq : q = ⟨String.ofList (anchored p.text.toList).1.chars⟩ := by
      rw [← hq, String.ofList_toList]
    have hsub := h.sublist_join_anchor (hbody ▸ hname)
    rwa [chars_anchored, ← hq] at hsub
  · rw [ofSegments_append hrest hafter] at hbody
    rw [← chars_anchored p.text.toList, hbody, ← List.append_assoc, ← hq]
    exact h.sublist_join_append q hname

/-- Where the path fits, the name fits joined to its parent. -/
theorem fits_join_parent {q : Path} (hparent : p.parent? = some q)
    (hcomponents : p.components = q.components ++ [.name entry]) (hfits : p.Fits) :
    (q.join ⟨entry⟩).Fits :=
  hfits.of_sublist (h.sublist_join p hparent hcomponents)

end IsEntry

end Path

namespace FileSystem

variable {fs : FileSystem}

theorem step_of_isEntry {entry : String} (h : Path.IsEntry entry) {stack : List FileNode}
    {stack' : List FileNode} (hstep : step entry stack = .ok stack') :
    ∃ entries outer m, stack = .directory entries :: outer ∧
      FileNode.find? entry entries = some m ∧ stack' = m :: stack := by
  match stack with
  | [] => cases hstep
  | .file bytes :: outer => cases hstep
  | .directory entries :: outer =>
      rw [step, if_neg (by simp [h.ne_empty, h.ne_here]), if_neg h.ne_parent] at hstep
      split at hstep
      · cases hstep
      split at hstep
      · cases hstep
        exact ⟨entries, outer, _, rfl, ‹_›, rfl⟩
      · cases hstep

/-- What stands at a name joined to a path is the entry of that name in a directory at the path. -/
theorem resolve_join {entry : String} (hentry : Path.IsEntry entry) {dir : Path}
    (hdir : dir.text ≠ "") {n : FileNode} (h : fs.resolve (dir.join ⟨entry⟩) = .ok n) :
    ∃ entries, fs.resolve dir = .ok (.directory entries) ∧
      FileNode.find? entry entries = some n := by
  have hfits := fits_of_resolve h
  have hdir_fits : dir.Fits := by
    obtain ⟨slash, -, hjoin⟩ := hentry.text_join dir
    refine hfits.of_sublist ?_
    rw [hjoin, String.append_assoc, String.toList_append]
    exact List.sublist_append_left _ _
  have horigin : fs.origin (dir.join ⟨entry⟩) = fs.origin dir := by
    rw [origin, origin, hentry.isAbsolute_join]
  obtain ⟨before, hsegments, hbefore⟩ := hentry.segments_join dir
  rw [resolve_of_fits (text_ne_of_resolve h) hfits, horigin, hsegments, List.map_append,
    ← List.append_assoc, nodeAt_eq_ok] at h
  obtain ⟨outer, hwalk⟩ := h
  obtain ⟨stack, hstack, hlast⟩ := walk_append_eq_ok.1 hwalk
  rw [List.map_singleton, String.ofList_toList, walk_cons] at hlast
  have hstep : step entry stack = .ok (n :: outer) := by
    cases hr : step entry stack with
    | error fault => simp [hr, Except.bind] at hlast
    | ok stack' => simpa [hr, Except.bind, walk] using hlast
  obtain ⟨entries, below, m, rfl, hfind, hm⟩ := step_of_isEntry hentry hstep
  cases hm
  refine ⟨entries, ?_, hfind⟩
  rw [resolve_of_fits hdir hdir_fits, nodeAt_eq_ok]
  rcases hbefore with hbefore | hbefore
  · exact ⟨below, by rw [hbefore, hstack]⟩
  · refine ⟨below, ?_⟩
    rw [hbefore, List.map_append, ← List.append_assoc, walk_append, hstack]
    rfl

end FileSystem

end BuildReplay
