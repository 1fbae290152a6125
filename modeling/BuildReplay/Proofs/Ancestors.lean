import BuildReplay.Proofs.Path
import Mathlib.Data.List.TakeWhile

/-! # Parents of paths

The parent of a path lacks its last component, and keeps the text before it. So the ancestors of a
path are its beginnings, the longest first. -/

namespace BuildReplay.Path

theorem not_mem_of_mem_segments {cs s : List Char} (h : s ∈ segments cs) : '/' ∉ s := by
  induction cs generalizing s with
  | nil => simp_all [segments]
  | cons c rest ih =>
      simp only [segments] at h
      split at h
      · rcases List.mem_cons.1 h with rfl | h
        · exact List.not_mem_nil
        · exact ih h
      · rename_i hc
        split at h
        · rename_i hnil
          exact absurd hnil (segments_ne_nil rest)
        · rename_i t ts hsegments
          rcases List.mem_cons.1 h with rfl | h
          · have ht : '/' ∉ t := ih (hsegments ▸ List.mem_cons_self)
            rw [List.mem_cons, not_or]
            exact ⟨Ne.symm hc, ht⟩
          · exact ih (hsegments ▸ List.mem_cons_of_mem _ h)

theorem ofSegments_cons {s : List Char} {ss : List (List Char)} (h : ss ≠ []) :
    ofSegments (s :: ss) = s ++ '/' :: ofSegments ss := by
  cases ss with
  | nil => exact absurd rfl h
  | cons t ts => rfl

theorem ofSegments_append {ss ts : List (List Char)} (hs : ss ≠ []) (ht : ts ≠ []) :
    ofSegments (ss ++ ts) = ofSegments ss ++ '/' :: ofSegments ts := by
  induction ss with
  | nil => exact absurd rfl hs
  | cons s ss ih =>
      by_cases hss : ss = []
      · subst hss
        exact ofSegments_cons ht
      · rw [List.cons_append, ofSegments_cons (List.append_ne_nil_of_left_ne_nil hss ts), ih hss,
          ofSegments_cons hss, List.append_assoc, List.cons_append]

theorem segments_ofSegments {ss : List (List Char)} (hne : ss ≠ []) (h : ∀ s ∈ ss, '/' ∉ s) :
    segments (ofSegments ss) = ss := by
  induction ss with
  | nil => exact absurd rfl hne
  | cons s ss ih =>
      obtain ⟨hs, hss⟩ := List.forall_mem_cons.1 h
      by_cases hnil : ss = []
      · subst hnil
        exact segments_of_not_mem hs
      · rw [ofSegments_cons hnil, segments_append_slash, segments_of_not_mem hs, ih hnil hss]
        rfl

/-! ## Parents -/

theorem sublist_ofSegments {ss : List (List Char)} {s : List Char} (h : s ∈ ss) :
    s.Sublist (ofSegments ss) := by
  induction ss with
  | nil => cases h
  | cons t rest ih =>
      by_cases hrest : rest = []
      · subst hrest
        rw [List.mem_singleton.1 h]
        exact List.Sublist.refl t
      · rw [ofSegments_cons hrest]
        rcases List.mem_cons.1 h with rfl | hmem
        · exact List.sublist_append_left s _
        · exact ((ih hmem).cons '/').trans (List.sublist_append_right t _)

theorem body_of_here {cs : List Char} (h : (anchored cs).1 = .here) :
    (anchored cs).2 = [] ∨ ∃ ds, (anchored cs).2 = '/' :: ds := by
  unfold anchored at h ⊢
  split at h <;> simp_all

theorem Component.ofSegment_ne_root (s : List Char) : ofSegment s ≠ .root := by
  unfold ofSegment
  split <;> simp

theorem steps_eq_nil_iff {cs : List Char} : steps cs = [] ↔ ∀ s ∈ segments cs, isTrivial s := by
  simp [steps, List.filter_eq_nil_iff]

/-- A list whose end is dropped as far as it satisfies a predicate, and once more below the item
that ended that. -/
theorem exists_of_dropWhile_reverse {α : Type} {f : α → Bool} {l before : List α} {a : α}
    (h : l.reverse.dropWhile f = a :: before) :
    ∃ after, l = (before.dropWhile f).reverse ++ after ∧ after.filter (fun x => !f x) = [a] := by
  have ha : f a = false := by
    have := List.head_dropWhile_not f (l := l.reverse) (by simp [h])
    simpa [h] using this
  have htaken : ∀ m : List α, (m.takeWhile f).filter (fun x => !f x) = [] := by
    intro m
    rw [List.filter_eq_nil_iff]
    intro x hx
    simp [List.mem_takeWhile_imp hx]
  refine ⟨(l.reverse.takeWhile f ++ a :: before.takeWhile f).reverse, ?_, ?_⟩
  · rw [← List.reverse_append, ← List.reverse_inj, List.reverse_reverse, List.append_assoc,
      List.cons_append, List.takeWhile_append_dropWhile, ← h, List.takeWhile_append_dropWhile]
  · rw [List.filter_reverse, List.filter_append, List.filter_cons_of_pos (by simp [ha]), htaken,
      htaken]
    rfl

/-- Where a parent ends in the text of a path. -/
theorem parent?_eq_some {p q : Path} (h : p.parent? = some q) :
    (p.components = [.here] ∧ q.text = "") ∨
      ∃ rest after last, segments (anchored p.text.toList).2 = rest ++ after ∧
        (∀ s ∈ rest.getLast?, isTrivial s = false) ∧
        after.filter (fun s => !isTrivial s) = [last] ∧
        q.text.toList = (anchored p.text.toList).1.chars ++ ofSegments rest := by
  have hcomponents := components_eq p
  simp only [parent?] at h
  split at h
  · rename_i hd
    split at h
    · rename_i hhere
      cases h
      have hsteps : steps (anchored p.text.toList).2 = [] := by
        have hall := List.dropWhile_eq_nil_iff.1 hd
        exact steps_eq_nil_iff.2 fun s hs => hall s (List.mem_reverse.2 hs)
      refine .inl ⟨?_, rfl⟩
      rw [hcomponents, hsteps, hhere]
      rfl
    · cases h
  · rename_i last before hd
    cases h
    obtain ⟨after, hsegments, hafter⟩ := exists_of_dropWhile_reverse hd
    refine .inr ⟨_, after, last, hsegments, fun s hs => ?_, hafter, String.toList_ofList⟩
    rw [List.getLast?_reverse] at hs
    have := List.head?_dropWhile_not isTrivial before
    rw [hs] at this
    exact this

theorem components_of_parent?_eq_none {p : Path} (h : p.parent? = none) :
    p.components = [] ∨ p.components = [.root] := by
  rw [components_eq]
  simp only [parent?] at h
  split at h
  · rename_i hd
    have hall := List.dropWhile_eq_nil_iff.1 hd
    rw [steps_eq_nil_iff.2 fun s hs => hall s (List.mem_reverse.2 hs), List.append_nil]
    cases hanchor : (anchored p.text.toList).1 with
    | root => exact .inr rfl
    | here => simp [hanchor] at h
    | name => exact .inl rfl
  · cases h

/-- The parent lacks the last component and nothing else. -/
theorem components_of_parent? {p q : Path} (h : p.parent? = some q) :
    ∃ c, c ≠ .root ∧ p.components = q.components ++ [c] := by
  obtain ⟨hhere, hq⟩ | ⟨rest, after, last, hsegments, hrest, hafter, hq⟩ := parent?_eq_some h
  · obtain rfl : q = ⟨""⟩ := by
      cases q
      exact congrArg _ hq
    exact ⟨.here, by simp, hhere⟩
  · refine ⟨.ofSegment last, Component.ofSegment_ne_root last, ?_⟩
    have hafter_ne : after ≠ [] := by
      rintro rfl
      cases hafter
    have hslash : ∀ s ∈ after, '/' ∉ s := fun s hs =>
      not_mem_of_mem_segments (hsegments ▸ List.mem_append_right rest hs)
    have hsteps : steps (ofSegments after) = [.ofSegment last] := by
      rw [steps, segments_ofSegments hafter_ne hslash, hafter]
      rfl
    rw [← hsteps]
    by_cases hnil : rest = []
    · subst hnil
      have hbody : (anchored p.text.toList).2 = ofSegments after := by
        rw [← ofSegments_segments (anchored p.text.toList).2, hsegments]
        rfl
      rw [components_eq p, components_eq q, hq, hbody]
      cases (anchored p.text.toList).1 <;> rfl
    · have hbody : (anchored p.text.toList).2 = ofSegments rest ++ '/' :: ofSegments after := by
        rw [← ofSegments_append hnil hafter_ne, ← hsegments, ofSegments_segments]
      have hpos : 0 < (ofSegments rest).length := by
        refine length_ofSegments_pos (List.getLast_mem hnil) fun hlast => ?_
        have := hrest _ (List.getLast?_eq_some_getLast hnil)
        rw [hlast] at this
        cases this
      refine components_append_slash (fun hempty => ?_) ?_
      · rw [← String.toList_inj, hq] at hempty
        simp [List.append_eq_nil_iff.1 hempty] at hpos
      · rw [hq, List.append_assoc, ← hbody, chars_anchored]

theorem parent?_eq_none_iff {p : Path} :
    p.parent? = none ↔ p.components = [] ∨ p.components = [.root] := by
  refine ⟨components_of_parent?_eq_none, fun h => ?_⟩
  cases hparent : p.parent? with
  | none => rfl
  | some q =>
      obtain ⟨c, hc, hcomponents⟩ := components_of_parent? hparent
      rcases h with h | h
      · simp [h] at hcomponents
      · rw [h] at hcomponents
        have hroot : Component.root = c := by simpa using congrArg List.getLast? hcomponents
        exact absurd hroot.symm hc

/-- The text of the parent goes on in the path. -/
theorem text_of_parent? {p q : Path} (h : p.parent? = some q) :
    ∃ rest, rest ≠ "" ∧ p.text = q.text ++ rest := by
  have hprefix : q.text.toList <+: p.text.toList := by
    obtain ⟨-, hq⟩ | ⟨rest, after, last, hsegments, -, hafter, hq⟩ := parent?_eq_some h
    · rw [hq]
      exact List.nil_prefix
    · rw [hq]
      nth_rewrite 2 [← chars_anchored p.text.toList]
      rw [List.prefix_append_right_inj, ← ofSegments_segments (anchored p.text.toList).2, hsegments]
      by_cases hnil : rest = []
      · subst hnil
        exact List.nil_prefix
      · rw [ofSegments_append hnil (by rintro rfl; cases hafter)]
        exact List.prefix_append _ _
  obtain ⟨cs, hcs⟩ := hprefix
  have htext : p.text = q.text ++ String.ofList cs := by
    rw [← String.toList_inj, String.toList_append, String.toList_ofList, hcs]
  refine ⟨String.ofList cs, ?_, htext⟩
  intro hempty
  have hlt := length_parent?_lt h
  rw [htext, hempty, String.append_empty] at hlt
  exact Nat.lt_irrefl _ hlt

/-! ## Ancestors -/

theorem ancestors_eq (p : Path) :
    p.ancestors = p :: match p.parent? with
      | some q => q.ancestors
      | none => [] := by
  rw [ancestors]
  split <;> simp_all

theorem ancestors_of_parent? {p q : Path} (h : p.parent? = some q) :
    p.ancestors = p :: q.ancestors := by
  rw [ancestors_eq, h]

theorem ancestors_of_parent?_none {p : Path} (h : p.parent? = none) : p.ancestors = [p] := by
  rw [ancestors_eq, h]

theorem self_mem_ancestors (p : Path) : p ∈ p.ancestors := by
  rw [ancestors_eq]
  exact List.mem_cons_self

/-- What a path inherits from its parent holds of every path. -/
theorem inductOnParent {P : Path → Prop} (h : ∀ p, (∀ q, p.parent? = some q → P q) → P p)
    (p : Path) : P p :=
  h p fun q _hq => inductOnParent h q
termination_by p.text.length
decreasing_by exact length_parent?_lt _hq

theorem steps_ne_root {cs : List Char} : .root ∉ steps cs := by
  intro h
  obtain ⟨s, -, hs⟩ := List.mem_map.1 h
  exact Component.ofSegment_ne_root s hs

theorem isAbsolute_iff_anchored {p : Path} :
    p.isAbsolute ↔ (anchored p.text.toList).1 = .root := by
  rw [isAbsolute, beq_iff_eq]
  constructor
  · intro h
    obtain ⟨rest, hrest⟩ := List.head?_eq_some_iff.1 h
    rw [hrest]
    rfl
  · intro h
    have hp := chars_anchored p.text.toList
    rw [h] at hp
    rw [← hp]
    rfl

theorem isAbsolute_iff {p : Path} : p.isAbsolute ↔ p.components.head? = some .root := by
  rw [isAbsolute_iff_anchored, components_eq]
  cases (anchored p.text.toList).1 with
  | root => simp [Anchor.component?]
  | here => simp [Anchor.component?]
  | name =>
      simp only [Anchor.component?, Option.toList_none, List.nil_append, reduceCtorEq, false_iff]
      exact fun h => steps_ne_root (List.mem_of_head? h)

theorem isAbsolute_of_parent? {p q : Path} (h : p.parent? = some q) :
    q.isAbsolute = p.isAbsolute := by
  obtain ⟨c, hc, hcomponents⟩ := components_of_parent? h
  rw [Bool.eq_iff_iff, isAbsolute_iff, isAbsolute_iff, hcomponents]
  cases q.components with
  | nil => simp [hc]
  | cons d ds => rfl

/-- An ancestor of a path starts as the path does. -/
theorem components_prefix_of_mem_ancestors {p q : Path} (h : q ∈ p.ancestors) :
    q.components <+: p.components := by
  induction p using inductOnParent with
  | h p ih =>
      rw [ancestors_eq] at h
      rcases List.mem_cons.1 h with rfl | h
      · exact List.prefix_rfl
      · split at h
        · rename_i parent hparent
          obtain ⟨c, -, hc⟩ := components_of_parent? hparent
          rw [hc]
          exact (ih parent hparent h).trans (List.prefix_append _ _)
        · exact absurd h List.not_mem_nil

theorem text_of_mem_ancestors {p q : Path} (h : q ∈ p.ancestors) :
    q = p ∨ ∃ rest, rest ≠ "" ∧ p.text = q.text ++ rest := by
  induction p using inductOnParent with
  | h p ih =>
      rw [ancestors_eq] at h
      rcases List.mem_cons.1 h with rfl | h
      · exact .inl rfl
      · split at h
        · rename_i parent hparent
          obtain ⟨rest, hne, hrest⟩ := text_of_parent? hparent
          rcases ih parent hparent h with rfl | ⟨rest', -, hrest'⟩
          · exact .inr ⟨rest, hne, hrest⟩
          · refine .inr ⟨rest' ++ rest, ?_, by rw [hrest, hrest', String.append_assoc]⟩
            simp [hne]
        · exact absurd h List.not_mem_nil

theorem isAbsolute_of_mem_ancestors {p q : Path} (h : q ∈ p.ancestors) :
    q.isAbsolute = p.isAbsolute := by
  induction p using inductOnParent with
  | h p ih =>
      rw [ancestors_eq] at h
      rcases List.mem_cons.1 h with rfl | h
      · rfl
      · split at h
        · rename_i parent hparent
          rw [ih parent hparent h, isAbsolute_of_parent? hparent]
        · exact absurd h List.not_mem_nil

theorem pairwise_ancestors (p : Path) :
    p.ancestors.Pairwise fun q q' => q'.components <+: q.components := by
  induction p using inductOnParent with
  | h p ih =>
      rw [ancestors_eq]
      split
      · rename_i parent hparent
        obtain ⟨c, -, hc⟩ := components_of_parent? hparent
        refine .cons (fun q hq => ?_) (ih parent hparent)
        rw [hc]
        exact (components_prefix_of_mem_ancestors hq).trans (List.prefix_append _ _)
      · exact List.pairwise_singleton _ _

/-- Every beginning of a path is an ancestor of it, but for the empty one of an absolute path. -/
theorem exists_mem_ancestors {p : Path} {cs : List Component} (h : cs <+: p.components)
    (hroot : p.isAbsolute → cs ≠ []) : ∃ q ∈ p.ancestors, q.components = cs := by
  induction p using inductOnParent with
  | h p ih =>
      rw [ancestors_eq]
      cases hparent : p.parent? with
      | none =>
          refine ⟨p, List.mem_cons_self, ?_⟩
          rcases parent?_eq_none_iff.1 hparent with hp | hp
          · rw [hp] at h ⊢
            exact (List.prefix_nil.1 h).symm
          · rw [hp] at h ⊢
            have habsolute : p.isAbsolute := isAbsolute_iff.2 (by rw [hp]; rfl)
            have hlength : cs.length ≤ 1 := h.length_le
            have hpos : 0 < cs.length := List.length_pos_iff.2 (hroot habsolute)
            exact (h.eq_of_length (le_antisymm hlength hpos)).symm
      | some parent =>
          obtain ⟨c, -, hc⟩ := components_of_parent? hparent
          rw [hc, List.prefix_concat_iff] at h
          rcases h with rfl | h
          · exact ⟨p, List.mem_cons_self, hc⟩
          · obtain ⟨q, hq, hcs⟩ := ih parent hparent h fun habsolute =>
              hroot (isAbsolute_of_parent? hparent ▸ habsolute)
            exact ⟨q, List.mem_cons_of_mem _ hq, hcs⟩

/-- Two spellings of a path have spellings of the same ancestors. -/
theorem ancestors_alike {p q : Path} (h : p.components = q.components) :
    List.Forall₂ (fun a b => a.components = b.components) p.ancestors q.ancestors := by
  induction p using inductOnParent generalizing q with
  | h p ih =>
      have hnone : p.parent? = none ↔ q.parent? = none := by
        rw [parent?_eq_none_iff, parent?_eq_none_iff, h]
      cases hp : p.parent? with
      | none =>
          rw [ancestors_of_parent?_none hp, ancestors_of_parent?_none (hnone.1 hp)]
          exact .cons h .nil
      | some a =>
          have hsome : q.parent? ≠ none := fun hq => by simp [hnone.2 hq] at hp
          obtain ⟨b, hq⟩ := Option.ne_none_iff_exists'.1 hsome
          obtain ⟨c, -, hc⟩ := components_of_parent? hp
          obtain ⟨d, -, hd⟩ := components_of_parent? hq
          have hparents : a.components = b.components := by
            rw [hc, hd] at h
            exact List.append_inj_left' h rfl
          rw [ancestors_of_parent? hp, ancestors_of_parent? hq]
          exact .cons h (ih a hp hparents)

end BuildReplay.Path
