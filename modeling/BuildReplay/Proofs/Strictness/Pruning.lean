import BuildReplay.Proofs.Strictness.Step

/-! # Lenient mode leaves entries out

What a lenient walk makes of a table, a strict walk makes of the table with some entries left out.
An entry that lenient mode skips has changed nothing, and one that goes on does so whatever the
entries of its table are, so the inner table can be replaced by what is left of it. -/

namespace BuildReplay

/-- The second table is the first with entries left out, in it and in the tables below it. -/
inductive Pruned : Table → Table → Prop where
  | nil : Pruned [] []
  | drop {t t' : Table} (e : String × Value) : Pruned t t' → Pruned (e :: t) t'
  | keep {t t' : Table} (e : String × Value) : Pruned t t' → Pruned (e :: t) (e :: t')
  | within {t t' u u' : Table} (key : String) :
      Pruned u u' → Pruned t t' → Pruned ((key, .table u) :: t) ((key, .table u') :: t')

theorem Pruned.refl (t : Table) : Pruned t t := by
  induction t with
  | nil => exact .nil
  | cons e t ih => exact .keep e ih

section Walk

variable {σ : Type} {host : Host σ} {s s' : σ}

/-- The strict walks below a table do what the lenient ones do, once it is pruned. -/
structure Prunes (host : Host σ) (t : Table) : Prop where
  entries : ∀ sc shape self s s',
    (walkEntries host (Scope.under sc .lenient) shape self t).Gives s () s' →
    ∃ t', Pruned t t' ∧ (walkEntries host (sc.under .strict) shape self t').Gives s () s'
  elements : ∀ sc element slot s s',
    (walkElements host (Scope.under sc .lenient) element slot t).Gives s () s' →
    ∃ t', Pruned t t' ∧ (walkElements host (sc.under .strict) element slot t').Gives s () s'

theorem Prunes.next {t : Table} (h : Prunes host t) (sc : Scope σ) (next : Next)
    (hw : (walkNext host (sc.under .lenient) next (.table t)).Gives s () s') :
    ∃ t', Pruned t t' ∧ (walkNext host (sc.under .strict) next (.table t')).Gives s () s' := by
  cases next with
  | done =>
      rw [walkNext_done] at hw
      exact ⟨t, .refl t, by rwa [walkNext_done]⟩
  | object r =>
      rw [walkNext_object] at hw
      obtain ⟨shape, s₁, hshape, hw⟩ := Act.bind_gives.1 hw
      obtain ⟨t', ht, hw'⟩ := h.entries (sc.enter (.object r shape)) shape r s₁ s' hw
      refine ⟨t', ht, ?_⟩
      rw [walkNext_object]
      exact Act.bind_gives.2 ⟨shape, s₁, hshape, hw'⟩
  | elements element slot =>
      rw [walkNext_elements] at hw
      obtain ⟨t', ht, hw'⟩ := h.elements sc element slot s s' hw
      exact ⟨t', ht, by rwa [walkNext_elements]⟩

theorem Prunes.nil : Prunes host [] where
  entries sc shape self s s' h := by
    rw [walkEntries_nil] at h
    exact ⟨[], .nil, by rwa [walkEntries_nil]⟩
  elements sc element slot s s' h := by
    rw [walkElements_nil] at h
    exact ⟨[], .nil, by rwa [walkElements_nil]⟩

/-- A key that the lenient walk gets past is dropped where strict mode would refuse it, and kept
otherwise, with the table below it pruned. -/
theorem Prunes.cons_entries (hs : host.Steady) {key : String} {v : Value} {rest : Table}
    (hv : ∀ entries, v = .table entries → Prunes host entries) (hrest : Prunes host rest)
    (sc : Scope σ) (shape : Shape σ) (self : ObjectRef)
    (h : (walkEntries host (sc.under .lenient) shape self ((key, v) :: rest)).Gives s () s') :
    ∃ t', Pruned ((key, v) :: rest) t' ∧
      (walkEntries host (sc.under .strict) shape self t').Gives s () s' := by
  rw [walkEntries_cons] at h
  obtain ⟨next, s₁, hstep, h⟩ := Act.bind_gives.1 h
  obtain ⟨⟨⟩, s₂, hnext, hwalk⟩ := Act.bind_gives.1 h
  obtain ⟨rest', hpruned, hrest'⟩ := hrest.entries sc shape self s₂ s' hwalk
  rcases keyStep_skipsTo (sc.key key) shape self key v hs s with hsame | ⟨e, he, -, hskip⟩
  · have hstrict : (keyStep host ((sc.key key).under .strict) shape self key v).Gives s next s₁ :=
      hsame.trans hstep
    by_cases hon : next ≠ .done ∧ v.isTable
    · obtain ⟨entries, rfl⟩ := Value.exists_of_isTable hon.2
      obtain ⟨entries', hp, hnext'⟩ := (hv entries rfl).next (sc.key key) next hnext
      refine ⟨_, .within key hp hpruned, ?_⟩
      rw [walkEntries_cons]
      have hstep' : (keyStep host ((sc.key key).under .strict) shape self key
          (.table entries')).Gives s next s₁ :=
        (keyStep_goesOn hon.1).2 ⟨rfl, ((keyStep_goesOn hon.1).1 hstrict).2⟩
      exact Act.bind_gives.2 ⟨_, _, hstep', Act.bind_gives.2 ⟨_, _, hnext', hrest'⟩⟩
    · refine ⟨_, .keep (key, v) hpruned, ?_⟩
      have hpure : ∀ sc : Scope σ, walkNext host sc next v = pure () := by
        intro sc
        by_cases hdone : next = .done
        · rw [hdone, walkNext_done]
        · exact walkNext_of_not_table host sc next (by simpa [hdone] using hon)
      have hnext' : (walkNext host ((sc.key key).under .strict) next v).Gives s₁ () s₂ := by
        rw [hpure] at hnext ⊢
        exact hnext
      rw [walkEntries_cons]
      exact Act.bind_gives.2 ⟨_, _, hstrict, Act.bind_gives.2 ⟨_, _, hnext', hrest'⟩⟩
  · obtain ⟨rfl, rfl⟩ := Act.Gives.unique hskip hstep
    rw [walkNext_done] at hnext
    obtain ⟨-, rfl⟩ := Act.pure_gives.1 hnext
    exact ⟨rest', .drop (key, v) hpruned, hrest'⟩

theorem Prunes.cons_elements {name : String} {v : Value} {rest : Table}
    (hv : ∀ entries, v = .table entries → Prunes host entries) (hrest : Prunes host rest)
    (sc : Scope σ) (element : TypeRef) (slot : Slot)
    (h : (walkElements host (sc.under .lenient) element slot ((name, v) :: rest)).Gives s () s') :
    ∃ t', Pruned ((name, v) :: rest) t' ∧
      (walkElements host (sc.under .strict) element slot t').Gives s () s' := by
  by_cases htable : v.isTable
  · obtain ⟨body, rfl⟩ := Value.exists_of_isTable htable
    rw [walkElements_cons_table] at h
    obtain ⟨r, s₁, hcreate, h⟩ := Act.bind_gives.1 h
    obtain ⟨⟨⟩, s₂, hnext, hwalk⟩ := Act.bind_gives.1 h
    obtain ⟨body', hp, hnext'⟩ :=
      (hv body rfl).next ((sc.key name).enter (.collection element slot)) (.object r) hnext
    obtain ⟨rest', hpruned, hrest'⟩ := hrest.elements sc element slot s₂ s' hwalk
    refine ⟨_, .within name hp hpruned, ?_⟩
    rw [walkElements_cons_table]
    exact Act.bind_gives.2 ⟨_, _, hcreate, Act.bind_gives.2 ⟨_, _, hnext', hrest'⟩⟩
  · rw [walkElements_cons_of_not_table _ _ _ _ _ _ (by simpa using htable)] at h
    exact absurd h Act.not_throw_gives

theorem Host.Steady.prunes (hs : host.Steady) (t : Table) : Prunes host t := by
  induction t using Table.induct with
  | nil => exact .nil
  | cons key v rest hv hrest =>
      exact ⟨fun sc shape self _ _ => Prunes.cons_entries hs hv hrest sc shape self,
        fun sc element slot _ _ => Prunes.cons_elements hv hrest sc element slot⟩

/-- Where lenient mode applies a table, strict mode applies what is left of it after leaving some
entries out, and makes the same of the objects. -/
theorem exists_pruned_strict (hs : host.Steady) {root : Path} {start : String} {t : Table}
    {r : ObjectRef} (h : (replay host ⟨.lenient, root⟩ start t r).Gives s () s') :
    ∃ t', Pruned t t' ∧ (replay host ⟨.strict, root⟩ start t' r).Gives s () s' :=
  (hs.prunes t).next (.top ⟨.strict, root⟩ start) (.object r) h

/-- A build type cannot be initialized with a truth value; lenient mode leaves that out. -/
theorem exists_pruned_strict_initWith :
    ∃ t', Pruned [("initWith", .boolean true)] t' ∧
      (replay Android.host ⟨.strict, ⟨"/"⟩⟩ "" t' ⟨typeRef Android.BuildType, 0⟩).Gives
        Android.Model.empty () Android.Model.empty :=
  exists_pruned_strict Android.host_steady (by rfl)

end Walk

end BuildReplay
