import BuildReplay.Callback
import BuildReplay.Proofs.Law
import BuildReplay.Proofs.Strictness.Step
import Mathlib.Data.List.Forall2

/-! # Walks and callbacks under both strictnesses

A strict walk does what the lenient one does, unless it ends with an error of strict mode. The same
is true of callbacks that were registered under the two strictnesses. -/

namespace BuildReplay

variable {σ α β : Type}

/-- From every state on, the acts do the same, unless the first ends with an error of strict
mode. -/
def Refines (x y : Act σ α) : Prop :=
  ∀ s, x s = y s ∨ ∃ e s', e.isSkip ∧ x.Raises s e s'

namespace Refines

variable {x y : Act σ α}

theorem refl (x : Act σ α) : Refines x x := fun _ => .inl rfl

theorem bind {f g : α → Act σ β} (h : Refines x y) (hfg : ∀ a, Refines (f a) (g a)) :
    Refines (x >>= f) (y >>= g) := by
  intro s
  rcases h s with hxy | ⟨e, s', he, hx⟩
  · rcases x.gives_or_raises s with ⟨a, s₁, hx⟩ | ⟨e, s₁, hx⟩
    · have hy : y.Gives s a s₁ := hxy.symm.trans hx
      rw [hx.bind_eq, hy.bind_eq]
      rcases hfg a s₁ with heq | ⟨e, s', he, hf⟩
      · exact .inl heq
      · exact .inr ⟨e, s', he, Act.bind_raises.2 (.inr ⟨a, s₁, hx, hf⟩)⟩
    · have hy : y.Raises s e s₁ := hxy.symm.trans hx
      exact .inl ((hx.bind f).trans (hy.bind g).symm)
  · exact .inr ⟨e, s', he, hx.bind f⟩

theorem within {τ : Type} (h : Refines x y) (l : Lens τ σ) : Refines (x.within l) (y.within l) := by
  intro t
  rcases h (l.get t) with heq | ⟨e, s', he, hx⟩
  · exact .inl (by rw [Act.Law.within_apply, Act.Law.within_apply, heq])
  · exact .inr ⟨e, l.set s' t, he, hx.within l⟩

end Refines

theorem SkipsTo.refines {d : α} {x y : Act σ α} (h : SkipsTo d x y) : Refines x y := by
  intro s
  rcases h s with heq | ⟨e, he, hx, -⟩
  · exact .inl heq
  · exact .inr ⟨e, s, he, hx⟩

/-! ## Walks -/

section Walk

variable {host : Host σ}

/-- The strict walks over a table refine the lenient ones. -/
structure WalkRefines (host : Host σ) (t : Table) : Prop where
  entries : ∀ (sc : Scope σ) shape self, Refines (walkEntries host (sc.under .strict) shape self t)
    (walkEntries host (sc.under .lenient) shape self t)
  elements : ∀ (sc : Scope σ) element slot,
    Refines (walkElements host (sc.under .strict) element slot t)
      (walkElements host (sc.under .lenient) element slot t)

theorem WalkRefines.next {t : Table} (h : WalkRefines host t) (sc : Scope σ) (next : Next) :
    Refines (walkNext host (sc.under .strict) next (.table t))
      (walkNext host (sc.under .lenient) next (.table t)) := by
  cases next with
  | done =>
      rw [walkNext_done, walkNext_done]
      exact .refl _
  | object r =>
      rw [walkNext_object, walkNext_object]
      exact .bind (.refl _) fun shape => h.entries (sc.enter (.object r shape)) shape r
  | elements element slot =>
      rw [walkNext_elements, walkNext_elements]
      exact h.elements sc element slot

theorem Host.Steady.walkRefines (hs : host.Steady) (t : Table) : WalkRefines host t := by
  induction t using Table.induct with
  | nil =>
      refine ⟨fun _ _ _ => ?_, fun _ _ _ => ?_⟩
      · rw [walkEntries_nil, walkEntries_nil]
        exact .refl _
      · rw [walkElements_nil, walkElements_nil]
        exact .refl _
  | cons key v rest hv hrest =>
      have hnext : ∀ (sc : Scope σ) next, Refines (walkNext host (sc.under .strict) next v)
          (walkNext host (sc.under .lenient) next v) := by
        intro sc next
        by_cases htable : v.isTable
        · obtain ⟨entries, rfl⟩ := Value.exists_of_isTable htable
          exact (hv entries rfl).next sc next
        · rw [walkNext_of_not_table _ _ _ (by simpa using htable),
            walkNext_of_not_table _ _ _ (by simpa using htable)]
          exact .refl _
      refine ⟨fun sc shape self => ?_, fun sc element slot => ?_⟩
      · rw [walkEntries_cons, walkEntries_cons]
        have hstep := (keyStep_skipsTo (sc.key key) shape self key v hs).refines
        exact hstep.bind fun next => (hnext (sc.key key) next).bind fun _ =>
          hrest.entries sc shape self
      · rw [walkElements, walkElements]
        split
        · exact .bind (.refl _) fun r =>
            (hnext ((sc.key key).enter (.collection element slot)) (.object r)).bind fun _ =>
              hrest.elements sc element slot
        · exact .refl _

theorem replay_refines (hs : host.Steady) (root : Path) (start : String) (t : Table)
    (r : ObjectRef) :
    Refines (replay host ⟨.strict, root⟩ start t r) (replay host ⟨.lenient, root⟩ start t r) :=
  (hs.walkRefines t).next (.top ⟨.strict, root⟩ start) (.object r)

end Walk

/-! ## Callbacks -/

/-- The callbacks are the same, or the same table kept under the two strictnesses. -/
inductive Callback.Relaxes : Callback → Callback → Prop where
  | same (c : Callback) : Relaxes c c
  | replay (path : String) (payload : TypeRef) (root : Path) (body : Table) :
      Relaxes (.replay path payload ⟨.strict, root⟩ body) (.replay path payload ⟨.lenient, root⟩ body)

/-- The registrations are meant for the same payloads, and differ in strictness at most. -/
structure Registration.Relaxes (r q : Registration) : Prop where
  point : r.point = q.point
  selector : r.selector = q.selector
  callback : r.callback.Relaxes q.callback

theorem Registration.Relaxes.refl (r : Registration) : r.Relaxes r := ⟨rfl, rfl, .same _⟩

section Fire

variable {host : Host σ}

theorem Callback.Relaxes.run (hs : host.Steady) {c d : Callback} (h : c.Relaxes d)
    (payload : ObjectRef) : Refines (c.run host payload) (d.run host payload) := by
  cases h with
  | same => exact .refl _
  | replay path expected root body =>
      simp only [Callback.run]
      split
      · exact replay_refines hs root path body payload
      · exact .refl _

theorem fire_refines (hs : host.Steady) {rs qs : List Registration}
    (h : List.Forall₂ Registration.Relaxes rs qs) (point name : String) (payload : ObjectRef) :
    Refines (fire host point name payload rs) (fire host point name payload qs) := by
  induction h with
  | nil => exact .refl _
  | @cons r q rs qs hrq _ ih =>
      have hselects : r.selects point name = q.selects point name := by
        rw [Registration.selects, Registration.selects, hrq.point, hrq.selector]
      simp only [fire, hselects]
      split
      · exact (hrq.callback.run hs payload).bind fun _ => ih
      · exact ih

end Fire

end BuildReplay
