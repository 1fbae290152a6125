import BuildReplay.Proofs.Placement.Step

/-! # Walks at two paths

A table does the same at two paths, over any table and from any object. Where the walk ends with an
error of its own, the error stands at the same place below the two paths. -/

namespace BuildReplay

open Act (Parallel)

variable {σ : Type} {p q : String} {host : Host σ}

/-- The walks below a table run in parallel at all pairs of paths. -/
structure WalkParallel (p q : String) (host : Host σ) (t : Table) : Prop where
  entries : ∀ (sc : Scope σ) (path : List String), sc.Facing p q path → ∀ shape self,
    Parallel p q (walkEntries host sc shape self t) (walkEntries host (sc.placed path) shape self t)
  elements : ∀ (sc : Scope σ) (path : List String), sc.Facing p q path → ∀ element slot,
    Parallel p q (walkElements host sc element slot t)
      (walkElements host (sc.placed path) element slot t)

theorem WalkParallel.next {t : Table} (ht : WalkParallel p q host t) {sc : Scope σ}
    {path : List String} (hsc : sc.Facing p q path) (next : Next) :
    Parallel p q (walkNext host sc next (.table t))
      (walkNext host (sc.placed path) next (.table t)) := by
  cases next with
  | done =>
      rw [walkNext_done, walkNext_done]
      exact .refl p q _
  | object r =>
      rw [walkNext_object, walkNext_object]
      exact (Parallel.refl p q _).bind fun shape => ht.entries _ path (hsc.enter _) shape r
  | elements element slot =>
      rw [walkNext_elements, walkNext_elements]
      exact ht.elements sc path hsc element slot

/-- A value is walked like its entries, if it is a table. -/
theorem walkNext_parallel_of_entries {v : Value}
    (hv : ∀ entries, v = .table entries → WalkParallel p q host entries) {sc : Scope σ}
    {path : List String} (hsc : sc.Facing p q path) (next : Next) :
    Parallel p q (walkNext host sc next v) (walkNext host (sc.placed path) next v) := by
  by_cases htable : v.isTable
  · obtain ⟨entries, rfl⟩ := Value.exists_of_isTable htable
    exact (hv entries rfl).next hsc next
  · have hfalse : v.isTable = false := by simpa using htable
    rw [walkNext_of_not_table host sc next hfalse, walkNext_of_not_table host _ next hfalse]
    exact .refl p q _

/-- All walks run in parallel at two paths. -/
theorem walk_parallel (p q : String) (host : Host σ) (t : Table) : WalkParallel p q host t := by
  induction t using Table.induct with
  | nil =>
      refine ⟨fun sc path _ shape self => ?_, fun sc path _ element slot => ?_⟩
      · rw [walkEntries_nil, walkEntries_nil]
        exact .refl p q _
      · rw [walkElements_nil, walkElements_nil]
        exact .refl p q _
  | cons key v rest hv hrest =>
      refine ⟨fun sc path hsc shape self => ?_, fun sc path hsc element slot => ?_⟩
      · rw [walkEntries_cons, walkEntries_cons]
        have hkey := hsc.key key
        refine (keyStep_parallel hkey.place).bind fun next => ?_
        refine (walkNext_parallel_of_entries hv hkey next).bind fun _ => ?_
        exact hrest.entries sc path hsc shape self
      · by_cases htable : v.isTable
        · obtain ⟨body, rfl⟩ := Value.exists_of_isTable htable
          rw [walkElements_cons_table, walkElements_cons_table]
          refine (Parallel.refl p q _).bind fun r => ?_
          have hinside := (hsc.key key).enter (.collection element slot)
          refine ((hv body rfl).next hinside (.object r)).bind fun _ => ?_
          exact hrest.elements sc path hsc element slot
        · have hfalse : v.isTable = false := by simpa using htable
          rw [walkElements_cons_of_not_table _ _ _ _ _ _ hfalse,
            walkElements_cons_of_not_table _ _ _ _ _ _ hfalse]
          exact .throw (.moved (.invalidDeclaration "" _) (hsc.key key).place)

/-- What is left of a key is walked in parallel at two paths. -/
theorem walkNext_parallel {sc : Scope σ} {path : List String} (hsc : sc.Facing p q path)
    (next : Next) (v : Value) :
    Parallel p q (walkNext host sc next v) (walkNext host (sc.placed path) next v) :=
  walkNext_parallel_of_entries (fun entries _ => walk_parallel p q host entries) hsc next

end BuildReplay
