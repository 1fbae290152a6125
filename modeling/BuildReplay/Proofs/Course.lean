import BuildReplay.Proofs.Walk
import Mathlib.Logic.Relation

/-! # The course of a walk

A walk is taken apart into the tasks that it comes to, each with the state that it finds. What keeps
from each task to the ones that it leads to holds of all of them, and where a walk ends with an
error, it has come to a task whose first act ends with it. -/

namespace BuildReplay

open Relation (ReflTransGen)

variable {σ : Type}

/-- A walk over a table, or over what is left of one. -/
inductive Task (σ : Type) where
  /-- What is left of a key, with the value of the key. -/
  | next (sc : Scope σ) (goal : Next) (v : Value)
  /-- Keys for an object. -/
  | entries (sc : Scope σ) (shape : Shape σ) (self : ObjectRef) (t : Table)
  /-- Elements of a named collection. -/
  | elements (sc : Scope σ) (element : TypeRef) (slot : Slot) (t : Table)

namespace Task

/-- The walk itself. -/
def run (host : Host σ) : Task σ → Act σ Unit
  | .next sc goal v => walkNext host sc goal v
  | .entries sc shape self t => walkEntries host sc shape self t
  | .elements sc element slot t => walkElements host sc element slot t

/-- The task of a whole document. -/
def document (options : Options) (start : String) (t : Table) (r : ObjectRef) : Task σ :=
  .next (.top options start) (.object r) (.table t)

/-- From its state on, a task comes to another one. -/
inductive Leads (host : Host σ) : Task σ × σ → Task σ × σ → Prop where
  /-- What is left of the first key. -/
  | key {sc shape self key v rest s next s'} :
      (keyStep host (sc.key key) shape self key v).Gives s next s' →
      Leads host (.entries sc shape self ((key, v) :: rest), s) (.next (sc.key key) next v, s')
  /-- The keys after the first one. -/
  | keys {sc shape self key v rest s next s₁ s'} :
      (keyStep host (sc.key key) shape self key v).Gives s next s₁ →
      (walkNext host (sc.key key) next v).Gives s₁ () s' →
      Leads host (.entries sc shape self ((key, v) :: rest), s) (.entries sc shape self rest, s')
  | object {sc r t s shape s'} : (host.shapeOf r.type).Gives s shape s' →
      Leads host (.next sc (.object r) (.table t), s)
        (.entries (sc.enter (.object r shape)) shape r t, s')
  | elements {sc element slot t s} :
      Leads host (.next sc (.elements element slot) (.table t), s)
        (.elements sc element slot t, s)
  /-- The table of the first element. -/
  | element {sc element slot name body rest s r s'} : (host.maybeCreate slot name).Gives s r s' →
      Leads host (.elements sc element slot ((name, .table body) :: rest), s)
        (.next ((sc.key name).enter (.collection element slot)) (.object r) (.table body), s')
  /-- The elements after the first one. -/
  | others {sc element slot name body rest s r s₁ s'} :
      (host.maybeCreate slot name).Gives s r s₁ →
      (walkNext host ((sc.key name).enter (.collection element slot)) (.object r)
        (.table body)).Gives s₁ () s' →
      Leads host (.elements sc element slot ((name, .table body) :: rest), s)
        (.elements sc element slot rest, s')

/-- In the course of a task, a walk comes to another one. -/
def Reaches (host : Host σ) : Task σ × σ → Task σ × σ → Prop := ReflTransGen (Leads host)

/-- The first act of a task ends with an error. -/
inductive Fails (host : Host σ) : Task σ → σ → Error → Prop where
  | key {sc shape self key v rest s e s'} :
      (keyStep host (sc.key key) shape self key v).Raises s e s' →
      Fails host (.entries sc shape self ((key, v) :: rest)) s e
  | object {sc r t s e s'} : (host.shapeOf r.type).Raises s e s' →
      Fails host (.next sc (.object r) (.table t)) s e
  | element {sc element slot name body rest s e s'} : (host.maybeCreate slot name).Raises s e s' →
      Fails host (.elements sc element slot ((name, .table body) :: rest)) s e
  | entry {sc element slot name v rest s} : v.isTable = false →
      Fails host (.elements sc element slot ((name, v) :: rest)) s
        (.invalidDeclaration (sc.key name).keyPath
          ("expected a table for element `" ++ name ++ "`, found " ++ v.describe))

variable {host : Host σ}

/-- What each task hands on to those that it leads to holds throughout its course. -/
theorem Reaches.keeps {P : Task σ × σ → Prop} (hP : ∀ c c', Leads host c c' → P c → P c')
    {c c' : Task σ × σ} (h : Reaches host c c') (hc : P c) : P c' := by
  induction h with
  | refl => exact hc
  | tail _ hlast ih => exact hP _ _ hlast ih

/-- Somewhere in the course of the task, an act ends with the error. -/
def Breaks (host : Host σ) (c : Task σ × σ) (e : Error) : Prop :=
  ∃ c', Reaches host c c' ∧ c'.1.Fails host c'.2 e

theorem Breaks.after {c c' : Task σ × σ} {e : Error} (hfirst : Leads host c c')
    (h : Breaks host c' e) : Breaks host c e := by
  obtain ⟨c'', hreach, hfails⟩ := h
  exact ⟨c'', .head hfirst hreach, hfails⟩

theorem Fails.breaks {task : Task σ} {s : σ} {e : Error} (h : task.Fails host s e) :
    Breaks host (task, s) e := ⟨_, .refl, h⟩

variable {e : Error}

theorem next_breaks {t : Table}
    (hentries : ∀ sc shape self s s', (walkEntries host sc shape self t).Raises s e s' →
      Breaks host (.entries sc shape self t, s) e)
    (helements : ∀ sc element slot s s', (walkElements host sc element slot t).Raises s e s' →
      Breaks host (.elements sc element slot t, s) e)
    {sc : Scope σ} {next : Next} {s s' : σ} (h : (walkNext host sc next (.table t)).Raises s e s') :
    Breaks host (.next sc next (.table t), s) e := by
  cases next with
  | done => exact absurd h Act.not_pure_raises
  | object r =>
      rw [walkNext_object] at h
      rcases Act.bind_raises.1 h with h | ⟨shape, s₁, hshape, h⟩
      · exact (Fails.object h).breaks
      · exact (hentries _ _ _ _ _ h).after (.object hshape)
  | elements element slot =>
      rw [walkNext_elements] at h
      exact (helements _ _ _ _ _ h).after .elements

theorem walk_breaks (t : Table) :
    (∀ sc shape self s s', (walkEntries host sc shape self t).Raises s e s' →
      Breaks host (.entries sc shape self t, s) e) ∧
    ∀ sc element slot s s', (walkElements host sc element slot t).Raises s e s' →
      Breaks host (.elements sc element slot t, s) e := by
  induction t using Table.induct with
  | nil =>
      refine ⟨fun sc shape self s s' h => ?_, fun sc element slot s s' h => ?_⟩
      · rw [walkEntries_nil] at h
        exact absurd h Act.not_pure_raises
      · rw [walkElements_nil] at h
        exact absurd h Act.not_pure_raises
  | cons key v rest hv hrest =>
      have hnext : ∀ {sc next s s'}, (walkNext host sc next v).Raises s e s' →
          Breaks host (.next sc next v, s) e := by
        intro sc next s s' h
        cases v with
        | table t => exact next_breaks (hv t rfl).1 (hv t rfl).2 h
        | _ => exact absurd h Act.not_pure_raises
      refine ⟨fun sc shape self s s' h => ?_, fun sc element slot s s' h => ?_⟩
      · rw [walkEntries_cons] at h
        rcases Act.bind_raises.1 h with h | ⟨next, s₁, hkey, h⟩
        · exact (Fails.key h).breaks
        · rcases Act.bind_raises.1 h with h | ⟨_, s₂, hwalk, h⟩
          · exact (hnext h).after (.key hkey)
          · exact (hrest.1 _ _ _ _ _ h).after (.keys hkey hwalk)
      · by_cases htable : v.isTable
        · obtain ⟨body, rfl⟩ := Value.exists_of_isTable htable
          rw [walkElements_cons_table] at h
          rcases Act.bind_raises.1 h with h | ⟨r, s₁, hcreate, h⟩
          · exact (Fails.element h).breaks
          · rcases Act.bind_raises.1 h with h | ⟨_, s₂, hwalk, h⟩
            · exact (hnext h).after (.element hcreate)
            · exact (hrest.2 _ _ _ _ _ h).after (.others hcreate hwalk)
        · have hfalse : v.isTable = false := by simpa using htable
          rw [walkElements_cons_of_not_table _ _ _ _ _ _ hfalse] at h
          obtain ⟨rfl, rfl⟩ := Act.throw_raises.1 h
          exact (Fails.entry hfalse).breaks

/-- Where a document ends with an error, the walk has come to a task whose first act ends with
it. -/
theorem replay_breaks {options : Options} {start : String} {t : Table} {r : ObjectRef} {s s' : σ}
    (h : (replay host options start t r).Raises s e s') :
    Breaks host (document options start t r, s) e :=
  next_breaks (walk_breaks t).1 (walk_breaks t).2 h

end Task

end BuildReplay
