import BuildReplay.Path
import Mathlib.Data.List.Lex

/-! # Components of paths

Joining a name to a path adds one component at its end. Paths are compared by their components, one
by one, which orders the lists of components totally. -/

namespace BuildReplay.Path

/-! ## Pieces between slashes -/

theorem segments_ne_nil (cs : List Char) : segments cs ≠ [] := by
  cases cs with
  | nil => simp [segments]
  | cons c rest =>
      simp only [segments]
      split
      · simp
      · split <;> simp

theorem segments_append_slash (cs ds : List Char) :
    segments (cs ++ '/' :: ds) = segments cs ++ segments ds := by
  induction cs with
  | nil => rfl
  | cons c rest ih =>
      simp only [List.cons_append, segments, ih]
      split
      · rfl
      · cases h : segments rest with
        | nil => exact absurd h (segments_ne_nil rest)
        | cons s ss => rfl

theorem segments_of_not_mem {cs : List Char} (h : '/' ∉ cs) : segments cs = [cs] := by
  induction cs with
  | nil => rfl
  | cons c rest ih =>
      rw [List.mem_cons, not_or] at h
      simp only [segments, if_neg (Ne.symm h.1), ih h.2]

/-! ## Components -/

/-- The component that a path starts with, if it is none of its steps. -/
def Anchor.component? : Anchor → Option Component
  | .root => some .root
  | .here => some .here
  | .name => none

/-- The steps that a text stands for: its pieces, without the trivial ones. -/
def steps (cs : List Char) : List Component :=
  ((segments cs).filter fun s => !isTrivial s).map Component.ofSegment

theorem components_eq (p : Path) :
    p.components =
      (anchored p.text.toList).1.component?.toList ++ steps (anchored p.text.toList).2 := by
  rw [components]
  rcases anchored p.text.toList with ⟨_ | _ | _, body⟩ <;> rfl

theorem steps_append_slash (cs ds : List Char) :
    steps (cs ++ '/' :: ds) = steps cs ++ steps ds := by
  rw [steps, segments_append_slash, List.filter_append, List.map_append]
  rfl

theorem anchored_of_name {cs : List Char} (hroot : cs.head? ≠ some '/') (hhere : cs ≠ ['.'])
    (hslash : ¬['.', '/'] <+: cs) : anchored cs = (.name, cs) := by
  unfold anchored
  split
  · exact absurd rfl hroot
  · exact absurd rfl hhere
  · exact absurd (by simp) hslash
  · rfl

/-- What comes after a slash is of no concern for the anchor. -/
theorem anchored_append_slash {cs : List Char} (h : cs ≠ []) (ds : List Char) :
    anchored (cs ++ '/' :: ds) = ((anchored cs).1, (anchored cs).2 ++ '/' :: ds) := by
  by_cases hroot : cs.head? = some '/'
  · obtain ⟨rest, rfl⟩ := List.head?_eq_some_iff.1 hroot
    rfl
  by_cases hhere : cs = ['.']
  · subst hhere
    rfl
  by_cases hslash : ['.', '/'] <+: cs
  · obtain ⟨rest, rfl⟩ := hslash
    rfl
  rw [anchored_of_name hroot hhere hslash, anchored_of_name]
  · rwa [List.head?_append_of_ne_nil _ h]
  · intro heq
    have : '/' ∈ ['.'] := heq ▸ List.mem_append_right _ List.mem_cons_self
    simp at this
  · rintro ⟨rest, hrest⟩
    match cs with
    | [c] => exact hhere (by rw [(List.cons.inj hrest).1])
    | c :: d :: cs =>
        obtain ⟨hc, hrest⟩ := List.cons.inj hrest
        exact hslash ⟨cs, by rw [← hc, ← (List.cons.inj hrest).1]; rfl⟩

/-- A text that a slash splits has the components before the slash and the steps after it. -/
theorem components_append_slash {p : Path} (h : p.text ≠ "") {q : Path} {ds : List Char}
    (hq : q.text.toList = p.text.toList ++ '/' :: ds) :
    q.components = p.components ++ steps ds := by
  have hcs : p.text.toList ≠ [] := by simpa using h
  rw [components_eq, components_eq, hq, anchored_append_slash hcs, steps_append_slash,
    List.append_assoc]

/-- A text of trivial pieces is empty, or its anchor is a component. -/
theorem anchor_of_steps_eq_nil {cs : List Char} (hne : cs ≠ []) (h : steps cs = []) :
    (anchored cs).1 ≠ .name := by
  have hcs := ofSegments_segments cs
  have htrivial : ∀ s ∈ segments cs, isTrivial s := by
    simpa [steps, List.filter_eq_nil_iff] using h
  obtain ⟨s, ss, hss⟩ := List.exists_cons_of_ne_nil (segments_ne_nil cs)
  have hs : s = [] ∨ s = ['.'] := by simpa [isTrivial] using htrivial s (by simp [hss])
  rw [hss] at hcs
  rcases hs with rfl | rfl <;> cases ss <;> subst hcs <;> simp_all [ofSegments, anchored]

theorem components_eq_nil_iff {p : Path} : p.components = [] ↔ p.text = "" := by
  constructor
  · intro h
    rw [components_eq, List.append_eq_nil_iff] at h
    have hname : (anchored p.text.toList).1 = .name := by
      cases hanchor : (anchored p.text.toList).1 with
      | name => rfl
      | _ => simp [hanchor, Anchor.component?] at h
    have hbody := chars_anchored p.text.toList
    rw [hname, Anchor.chars, List.nil_append] at hbody
    rw [hbody] at h
    by_contra hne
    exact anchor_of_steps_eq_nil (by simpa using hne) h.2 hname
  · intro h
    rw [components_eq, h]
    rfl

/-- A relative path joined to a path adds its steps. -/
theorem components_join_of_relative {p q : Path} (hp : p.text ≠ "") (hq : q.isAbsolute = false) :
    (p.join q).components = p.components ++ steps q.text.toList := by
  unfold join
  rw [hq, Bool.false_or, if_neg (by simpa using hp)]
  split
  · rename_i hlast
    -- the slash at the end is there already, and stands for no step of its own
    obtain ⟨cs, hcs⟩ : ∃ cs, p.text.toList = cs ++ ['/'] :=
      List.getLast?_eq_some_iff.1 (eq_of_beq hlast)
    have hjoin : (p.text ++ q.text).toList = cs ++ '/' :: q.text.toList := by
      rw [String.toList_append, hcs, List.append_assoc, List.singleton_append]
    rw [components_eq, components_eq, hjoin, hcs]
    by_cases hroot : cs = []
    · subst hroot
      rfl
    · rw [anchored_append_slash hroot, anchored_append_slash hroot, steps_append_slash,
        steps_append_slash, show steps [] = [] from rfl, List.append_nil, List.append_assoc]
  · refine components_append_slash hp ?_
    simp

theorem components_of_fileName? {p : Path} {name : String} (h : p.fileName? = some name) :
    ∃ before, p.components = before ++ [.name name] := by
  unfold fileName? at h
  split at h
  · cases h
    exact List.getLast?_eq_some_iff.1 ‹_›
  · cases h

/-! ## Names -/

/-- A text that names an entry of a directory. -/
structure IsEntry (entry : String) : Prop where
  no_slash : '/' ∉ entry.toList
  ne_empty : entry ≠ ""
  ne_here : entry ≠ "."
  ne_parent : entry ≠ ".."

namespace IsEntry

variable {entry : String} (h : IsEntry entry)
include h

theorem not_isAbsolute : isAbsolute ⟨entry⟩ = false := by
  rw [isAbsolute, beq_eq_false_iff_ne]
  exact fun hhead => h.no_slash (List.mem_of_head? hhead)

theorem steps_eq : steps entry.toList = [.name entry] := by
  have htrivial : isTrivial entry.toList = false := by
    rw [isTrivial, Bool.or_eq_false_iff, beq_eq_false_iff_ne, beq_eq_false_iff_ne]
    exact ⟨fun he => h.ne_empty (String.toList_inj.1 he),
      fun he => h.ne_here (String.toList_inj.1 he)⟩
  have hparent : entry.toList ≠ ['.', '.'] := fun he => h.ne_parent (String.toList_inj.1 he)
  rw [steps, segments_of_not_mem h.no_slash]
  simp [htrivial, Component.ofSegment, hparent]

theorem anchored_eq : anchored entry.toList = (.name, entry.toList) :=
  anchored_of_name (fun hhead => h.no_slash (List.mem_of_head? hhead))
    (fun he => h.ne_here (String.toList_inj.1 he))
    fun hslash => h.no_slash (hslash.mem (by simp))

/-- A name joined to a path is one more component. -/
theorem components_join (p : Path) :
    (p.join ⟨entry⟩).components = p.components ++ [.name entry] := by
  rw [← h.steps_eq]
  by_cases hp : p.text = ""
  · rw [join, if_pos (by simp [hp]), components_eq, components_eq, h.anchored_eq, hp]
    rfl
  · exact components_join_of_relative hp h.not_isAbsolute

end IsEntry

/-! ## Descending -/

/-- Where the names lead from a path. -/
def descend (p : Path) (names : List String) : Path := names.foldl (fun q name => q.join ⟨name⟩) p

theorem components_descend (p : Path) {names : List String} (h : ∀ name ∈ names, IsEntry name) :
    (p.descend names).components = p.components ++ names.map .name := by
  induction names generalizing p with
  | nil => exact (List.append_nil _).symm
  | cons name rest ih =>
      obtain ⟨hname, hrest⟩ := List.forall_mem_cons.1 h
      change ((p.join ⟨name⟩).descend rest).components = _
      rw [ih _ hrest, hname.components_join, List.append_assoc]
      rfl

/-! ## The order of paths -/

/-- One path stands before another when it does so at the first component in which they differ. -/
abbrev Before (p q : Path) : Prop :=
  List.Lex (fun a b => Component.lt a b) p.components q.components

theorem Component.name_lt {s t : String} : Component.lt (.name s) (.name t) ↔ s < t :=
  decide_eq_true_iff

instance : IsStrictTotalOrder Component fun a b => Component.lt a b where
  trichotomous a b hab hba := by
    cases a <;> cases b
    case name.name s t =>
      rw [Component.name_lt] at hab hba
      exact congrArg _ (String.le_antisymm hba hab)
    all_goals first | rfl | exact absurd rfl hab | exact absurd rfl hba
  irrefl a := by
    cases a with
    | name s => exact fun h => String.lt_irrefl s (Component.name_lt.1 h)
    | _ => exact Bool.false_ne_true
  trans a b c hab hbc := by
    cases a <;> cases b <;> cases c
    case name.name.name s t u =>
      rw [Component.name_lt] at *
      exact String.lt_trans hab hbc
    all_goals first | rfl | exact absurd hab Bool.false_ne_true | exact absurd hbc Bool.false_ne_true

theorem lexLt_iff {as bs : List Component} :
    lexLt as bs ↔ List.Lex (fun a b => Component.lt a b) as bs := by
  induction as generalizing bs with
  | nil => cases bs <;> simp [lexLt]
  | cons a as ih =>
      cases bs with
      | nil => simp [lexLt]
      | cons b bs => simp [lexLt, List.cons_lex_cons_iff, ih]

theorem le_iff {p q : Path} : p.le q ↔ ¬q.Before p := by
  rw [le, Bool.not_eq_true', ← Bool.not_eq_true, lexLt_iff]

theorem le_trans {p q r : Path} (hpq : p.le q) (hqr : q.le r) : p.le r := by
  rw [le_iff] at *
  exact IsOrderConnected.neg_trans (r := List.Lex fun a b => Component.lt a b) hqr hpq

theorem le_total (p q : Path) : p.le q || q.le p := by
  rw [Bool.or_eq_true, le_iff, le_iff]
  by_contra h
  rw [not_or, not_not, not_not] at h
  exact asymm h.1 h.2

theorem before_of_le {p q : Path} (h : p.le q) (hne : p.components ≠ q.components) :
    p.Before q := by
  by_contra hnot
  exact hne (Std.Trichotomous.trichotomous _ _ hnot (le_iff.1 h))

theorem pairwise_before_mergeSort {ps : List Path} (h : (ps.map components).Nodup) :
    (ps.mergeSort le).Pairwise Before := by
  have hsorted : (ps.mergeSort le).Pairwise fun p q => p.le q := by
    refine List.pairwise_mergeSort ?_ ?_ ps
    · exact fun _ _ _ => le_trans
    · exact le_total
  have hperm : ((ps.mergeSort le).map components).Perm (ps.map components) :=
    (List.mergeSort_perm ps le).map components
  have hnodup : (ps.mergeSort le).Pairwise fun p q => p.components ≠ q.components :=
    List.pairwise_map.1 (hperm.nodup_iff.2 h)
  exact hsorted.imp₂ (fun _ _ hle hne => before_of_le hle hne) hnodup

theorem nodup_of_pairwise_before {ps : List Path} (h : ps.Pairwise Before) : ps.Nodup := by
  refine h.imp ?_
  rintro p q hpq rfl
  exact irrefl p.components hpq

/-- Paths in increasing order are known from which ones they are. -/
theorem eq_of_pairwise_before {ps qs : List Path} (hps : ps.Pairwise Before)
    (hqs : qs.Pairwise Before) (h : ∀ p, p ∈ ps ↔ p ∈ qs) : ps = qs := by
  have hperm : ps.Perm qs := (List.perm_ext_iff_of_nodup (nodup_of_pairwise_before hps)
    (nodup_of_pairwise_before hqs)).2 h
  exact hperm.eq_of_pairwise (fun p q _ _ hpq hqp => absurd hqp (asymm hpq)) hps hqs

end BuildReplay.Path
