/-!
# Lenses and heaps

A lens is a part of a state that can be read and written on its own. A heap holds objects of one
type under numbers; a number that was never given out reads as the heap's blank object.
-/

namespace BuildReplay

/-- A part of type `α` of a state of type `σ`. -/
structure Lens (σ α : Type) where
  get : σ → α
  set : α → σ → σ
  get_set : ∀ a s, get (set a s) = a := by intros; rfl
  set_get : ∀ s, set (get s) s = s := by intros; rfl
  set_set : ∀ a b s, set a (set b s) = set a s := by intros; rfl

attribute [simp] Lens.get_set Lens.set_get Lens.set_set

namespace Lens

variable {ρ σ α : Type}

/-- The whole state. -/
def id : Lens σ σ where
  get s := s
  set a _ := a

/-- A part of a part. -/
def comp (outer : Lens ρ σ) (inner : Lens σ α) : Lens ρ α where
  get r := inner.get (outer.get r)
  set a r := outer.set (inner.set a (outer.get r)) r
  get_set := by simp
  set_get := by simp
  set_set := by simp

def modify (l : Lens σ α) (f : α → α) (s : σ) : σ := l.set (f (l.get s)) s

@[simp] theorem get_modify (l : Lens σ α) (f : α → α) (s : σ) :
    l.get (l.modify f s) = f (l.get s) :=
  l.get_set _ _

end Lens

/-- Objects of one type under numbers from zero on. -/
structure Heap (α : Type) where
  size : Nat
  cell : Nat → α

namespace Heap

variable {α : Type}

def empty (blank : α) : Heap α := ⟨0, fun _ => blank⟩

/-- Puts an object under a number. -/
def put (h : Heap α) (id : Nat) (a : α) : Heap α :=
  { h with cell := fun i => if i = id then a else h.cell i }

/-- The object under a number. -/
def object (id : Nat) : Lens (Heap α) α where
  get h := h.cell id
  set a h := h.put id a
  get_set _ _ := if_pos rfl
  set_get h := by
    have : (fun i => if i = id then h.cell id else h.cell i) = h.cell := by
      funext i; split <;> simp_all
    simp [put, this]
  set_set a b h := by
    have : (fun i => if i = id then a else if i = id then b else h.cell i)
        = fun i => if i = id then a else h.cell i := by
      funext i; split <;> simp_all
    simp [put, this]

/-- Gives out the next number for a new object. -/
def alloc (h : Heap α) (a : α) : Nat × Heap α :=
  (h.size, { h.put h.size a with size := h.size + 1 })

theorem cell_put_self (h : Heap α) (id : Nat) (a : α) : (h.put id a).cell id = a := if_pos rfl

theorem cell_put_of_ne (h : Heap α) {id i : Nat} (a : α) (hi : i ≠ id) :
    (h.put id a).cell i = h.cell i := if_neg hi

/-- What an object has in common with the one in its place is the same at every number. -/
theorem cell_put_congr {β : Type} (g : α → β) {h : Heap α} {id : Nat} {a : α}
    (ha : g a = g (h.cell id)) (i : Nat) : g ((h.put id a).cell i) = g (h.cell i) := by
  by_cases hi : i = id
  · rw [hi, cell_put_self, ha]
  · rw [cell_put_of_ne h a hi]

end Heap

end BuildReplay
