import BuildReplay.Callback
import BuildReplay.Proofs.Relocation.Step

/-! # Documents from two roots

Walks of one table from two roots go side by side, over any table and from any object. -/

namespace BuildReplay

open Act (Mirrors)

variable {σ : Type} {S : σ → σ → Prop} {R : Path → Path → Prop} {host : Host σ} {options : Options}
  {root : Path}

namespace Scope.Mirrored

variable {sc : Scope σ}

theorem key (h : sc.Mirrored S R) (k : String) : (sc.key k).Mirrored S R := h

theorem enter_object (h : sc.Mirrored S R) {shape : Shape σ} (hshape : shape.Mirrored S R)
    (self : ObjectRef) : (sc.enter (.object self shape)).Mirrored S R := by
  intro self' shape' hmem
  rcases Scope.mem_enter.1 hmem with heq | hmem
  · cases heq
    exact hshape
  · exact h _ _ hmem

theorem enter_collection (h : sc.Mirrored S R) (element : TypeRef) (slot : Slot) :
    (sc.enter (.collection element slot)).Mirrored S R :=
  fun self shape hmem => h self shape (by simpa using hmem)

end Scope.Mirrored

/-- The walks below a table go side by side. -/
structure WalkMirrors (S : σ → σ → Prop) (R : Path → Path → Prop) (host : Host σ)
    (options : Options) (root : Path) (t : Table) : Prop where
  entries : ∀ (sc : Scope σ) (shape : Shape σ), sc.options = options → sc.Mirrored S R →
    shape.Mirrored S R → ∀ self, Mirrors S Eq (walkEntries host sc shape self t)
      (walkEntries host (sc.seenFrom root) shape self t)
  elements : ∀ sc : Scope σ, sc.options = options → sc.Mirrored S R → ∀ element slot,
    Mirrors S Eq (walkElements host sc element slot t)
      (walkElements host (sc.seenFrom root) element slot t)

variable (hhost : host.Mirrored S R)
include hhost

theorem WalkMirrors.next {t : Table} (ht : WalkMirrors S R host options root t) {sc : Scope σ}
    (hoptions : sc.options = options) (hsc : sc.Mirrored S R) (next : Next) :
    Mirrors S Eq (walkNext host sc next (.table t))
      (walkNext host (sc.seenFrom root) next (.table t)) := by
  cases next with
  | done =>
      rw [walkNext_done, walkNext_done]
      exact .pure rfl
  | object r =>
      rw [walkNext_object, walkNext_object]
      refine (hhost.shapeOf _).bind fun hshape => ?_
      obtain ⟨rfl, hshape⟩ := hshape
      exact ht.entries (sc.enter (.object r _)) _ hoptions (hsc.enter_object hshape r) hshape r
  | elements element slot =>
      rw [walkNext_elements, walkNext_elements]
      exact ht.elements sc hoptions hsc element slot

theorem Host.Mirrored.walk (t : Table)
    (ht : Value.Relocates R options.projectRoot root (.table t)) :
    WalkMirrors S R host options root t := by
  induction t using Table.induct with
  | nil =>
      refine ⟨fun _ _ _ _ _ _ => ?_, fun _ _ _ _ _ => ?_⟩
      · rw [walkEntries_nil, walkEntries_nil]
        exact .pure rfl
      · rw [walkElements_nil, walkElements_nil]
        exact .pure rfl
  | cons key v rest hv hrest =>
      have hnext : ∀ sc : Scope σ, sc.options = options → sc.Mirrored S R → ∀ next,
          Mirrors S Eq (walkNext host sc next v) (walkNext host (sc.seenFrom root) next v) := by
        intro sc hoptions hsc next
        by_cases htable : v.isTable
        · obtain ⟨entries, rfl⟩ := Value.exists_of_isTable htable
          exact (hv entries rfl ht.head).next hhost hoptions hsc next
        · have hfalse : v.isTable = false := by simpa using htable
          rw [walkNext_of_not_table host sc next hfalse, walkNext_of_not_table host _ next hfalse]
          exact .pure rfl
      have htail := hrest ht.tail
      refine ⟨fun sc shape hoptions hsc hshape self => ?_,
        fun sc hoptions hsc element slot => ?_⟩
      · rw [walkEntries_cons, walkEntries_cons]
        have hhead : v.Relocates R (sc.key key).options.projectRoot root := hoptions ▸ ht.head
        refine (keyStep_mirrors hhost hhead hshape (hsc.key key)).andThen fun next => ?_
        refine (hnext (sc.key key) hoptions (hsc.key key) next).andThen fun _ => ?_
        exact htail.entries sc shape hoptions hsc hshape self
      · by_cases htable : v.isTable
        · obtain ⟨body, rfl⟩ := Value.exists_of_isTable htable
          rw [walkElements_cons_table, walkElements_cons_table]
          refine (hhost.maybeCreate slot key).andThen fun r => ?_
          refine (hnext ((sc.key key).enter (.collection element slot)) hoptions
            ((hsc.key key).enter_collection element slot) _).andThen fun _ => ?_
          exact htail.elements sc hoptions hsc element slot
        · have hfalse : v.isTable = false := by simpa using htable
          rw [walkElements_cons_of_not_table _ _ _ _ _ _ hfalse,
            walkElements_cons_of_not_table _ _ _ _ _ _ hfalse]
          exact .throw (.refl _)

/-- A document applied from two roots ends in the same way. -/
theorem Host.Mirrored.replay {t : Table}
    (ht : Value.Relocates R options.projectRoot root (.table t)) (start : String) (r : ObjectRef) :
    Mirrors S Eq (replay host options start t r)
      (replay host { options with projectRoot := root } start t r) :=
  (hhost.walk t ht).next hhost rfl (fun _ _ h => absurd h Scope.not_mem_top) (.object r)

/-! ## Callbacks -/

omit hhost

/-- The callbacks are the same, or replay one table from the two roots. -/
inductive Callback.Relocated (R : Path → Path → Prop) (root root' : Path) :
    Callback → Callback → Prop where
  | same (c : Callback) : Relocated R root root' c c
  | replay (path : String) (payload : TypeRef) (strictness : Strictness) {body : Table} :
      Value.Relocates R root root' (.table body) →
      Relocated R root root' (.replay path payload ⟨strictness, root⟩ body)
        (.replay path payload ⟨strictness, root'⟩ body)

/-- The registrations are meant for the same payloads. -/
structure Registration.Relocated (R : Path → Path → Prop) (root root' : Path)
    (r q : Registration) : Prop where
  point : r.point = q.point
  selector : r.selector = q.selector
  callback : r.callback.Relocated R root root' q.callback

section Fire

variable {root' : Path}

theorem Registration.Relocated.refl (r : Registration) : r.Relocated R root root' r :=
  ⟨rfl, rfl, .same _⟩

theorem registration_relocated {strictness : Strictness} {path key : String} {point : CallbackPoint}
    {body : Table} (h : Value.Relocates R root root' (.table body)) :
    (registration ⟨strictness, root⟩ path point key body).Relocated R root root'
      (registration ⟨strictness, root'⟩ path point key body) :=
  ⟨rfl, rfl, .replay _ _ _ h⟩

variable (hhost : host.Mirrored S R) (hR : ∀ p, R p p)
include hhost hR

theorem Callback.Relocated.run {c d : Callback} (h : c.Relocated R root root' d)
    (payload : ObjectRef) : Mirrors S Eq (c.run host payload) (d.run host payload) := by
  have hreplay : ∀ {path expected options body options'},
      Mirrors S Eq (BuildReplay.replay host options path body payload)
        (BuildReplay.replay host options' path body payload) →
      Mirrors S Eq ((Callback.replay path expected options body).run host payload)
        ((Callback.replay path expected options' body).run host payload) := by
    intro path expected options body options' h
    unfold Callback.run
    dsimp only
    split
    · exact h
    · exact .throw (.refl _)
  cases h with
  | same c =>
      cases c with
      | replay path expected options body =>
          have hsame : Value.Relocates R options.projectRoot options.projectRoot (.table body) :=
            fun s _ => hR _
          exact hreplay (hhost.replay hsame path payload)
      | refuse reason => exact .throw (.refl _)
  | replay path expected strictness hbody => exact hreplay (hhost.replay hbody path payload)

theorem fire_mirrors {rs qs : List Registration}
    (h : List.Forall₂ (Registration.Relocated R root root') rs qs) (point name : String)
    (payload : ObjectRef) :
    Mirrors S Eq (fire host point name payload rs) (fire host point name payload qs) := by
  induction h with
  | nil => exact .pure rfl
  | @cons r q rs qs hrq _ ih =>
      have hselects : r.selects point name = q.selects point name := by
        rw [Registration.selects, Registration.selects, hrq.point, hrq.selector]
      simp only [fire, hselects]
      split
      · exact (hrq.callback.run hhost hR payload).andThen fun _ => ih
      · exact ih

end Fire

end BuildReplay
