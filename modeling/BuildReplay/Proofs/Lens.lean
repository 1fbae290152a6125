import BuildReplay.Lens
import Mathlib.Algebra.Group.End
import Mathlib.Algebra.Group.Submonoid.Defs
import Mathlib.Logic.Function.Basic

/-! # Changes of parts

The changes of a part of a state are closed under composition, and those of parts that lie apart
commute. -/

namespace BuildReplay.Lens

variable {ρ σ α β : Type}

theorem modify_modify (l : Lens σ α) (f g : α → α) (s : σ) :
    l.modify g (l.modify f s) = l.modify (g ∘ f) s := by
  simp [modify]

@[simp] theorem modify_id (l : Lens σ α) (s : σ) : l.modify (fun a => a) s = s := l.set_get s

/-- The changes of a state that change the part alone, by what the part is. -/
def changes (l : Lens σ α) : Submonoid (Function.End σ) where
  carrier := { f | ∃ g : α → α, f = l.modify g }
  one_mem' := ⟨fun a => a, funext fun s => (l.modify_id s).symm⟩
  mul_mem' := by
    rintro _ _ ⟨f, rfl⟩ ⟨g, rfl⟩
    exact ⟨f ∘ g, funext fun s => l.modify_modify g f s⟩

theorem modify_mem_changes (l : Lens σ α) (g : α → α) : l.modify g ∈ l.changes := ⟨g, rfl⟩

theorem set_mem_changes (l : Lens σ α) (a : α) : l.set a ∈ l.changes := ⟨fun _ => a, rfl⟩

/-- Two parts that are written without regard to each other. -/
def Apart (l : Lens σ α) (k : Lens σ β) : Prop :=
  ∀ a b s, l.set a (k.set b s) = k.set b (l.set a s)

theorem Apart.symm {l : Lens σ α} {k : Lens σ β} (h : l.Apart k) : k.Apart l :=
  fun b a s => (h a b s).symm

/-- What is written to one part is not seen in the other. -/
theorem Apart.get_set {l : Lens σ α} {k : Lens σ β} (h : l.Apart k) (b : β) (s : σ) :
    l.get (k.set b s) = l.get s := by
  have hset : l.set (l.get s) (k.set b s) = k.set b s := by rw [h, l.set_get]
  rw [← hset, l.get_set]

theorem Apart.commute {l : Lens σ α} {k : Lens σ β} (h : l.Apart k) {f g : Function.End σ}
    (hf : f ∈ l.changes) (hg : g ∈ k.changes) : Commute f g := by
  obtain ⟨f, rfl⟩ := hf
  obtain ⟨g, rfl⟩ := hg
  refine funext fun s => ?_
  change l.modify f (k.modify g s) = k.modify g (l.modify f s)
  simp only [modify, h.get_set, h.symm.get_set, h _ _ s]

theorem Apart.comp {l : Lens σ α} {k : Lens σ β} (h : l.Apart k) (outer : Lens ρ σ) :
    (outer.comp l).Apart (outer.comp k) := by
  intro a b r
  simp [Lens.comp, h a b]

/-- What lies apart from a part lies apart from its parts. -/
theorem Apart.comp_right {l : Lens σ α} {k : Lens σ β} (h : l.Apart k) {γ : Type} (inner : Lens β γ) :
    l.Apart (k.comp inner) := by
  intro a c s
  change l.set a (k.set _ s) = k.set (inner.set c (k.get (l.set a s))) (l.set a s)
  rw [h, h.symm.get_set]

theorem Apart.comp_left {l : Lens σ α} {k : Lens σ β} (h : l.Apart k) {γ : Type} (inner : Lens α γ) :
    (l.comp inner).Apart k :=
  (h.symm.comp_right inner).symm

/-- The changes of a part of a part are changes of the part. -/
theorem changes_comp_le (outer : Lens ρ σ) (inner : Lens σ α) :
    (outer.comp inner).changes ≤ outer.changes := by
  rintro _ ⟨g, rfl⟩
  exact ⟨inner.modify g, rfl⟩

/-- What is written is read, and nothing else changes. -/
structure Lawful (get : σ → α) (set : α → σ → σ) : Prop where
  get_set : ∀ a s, get (set a s) = a := by intros; rfl
  set_get : ∀ s, set (get s) s = s := by intros; rfl
  set_set : ∀ a b s, set a (set b s) = set a s := by intros; rfl

/-- The part of a record that a field of it is. -/
def ofField (get : σ → α) (set : α → σ → σ) (h : Lawful get set := by exact {}) : Lens σ α :=
  { get, set, get_set := h.get_set, set_get := h.set_get, set_set := h.set_set }

/-- The value of a function at a point. -/
def point [DecidableEq α] (a : α) : Lens (α → β) β where
  get f := f a
  set b f := Function.update f a b
  get_set _ _ := Function.update_self ..
  set_get _ := Function.update_eq_self ..
  set_set _ _ _ := Function.update_idem ..

theorem point_apart [DecidableEq α] {a a' : α} (h : a ≠ a') :
    (point a : Lens (α → β) β).Apart (point a' : Lens (α → β) β) := by
  intro b b' f
  simp only [point]
  exact Function.update_comm h.symm b' b f

end BuildReplay.Lens
