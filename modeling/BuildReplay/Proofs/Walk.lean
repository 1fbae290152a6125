import BuildReplay.Mapper.Walk
import BuildReplay.Proofs.Act
import BuildReplay.Proofs.Live

/-! # Laws of the walk

What a walk does at each form of a table, and the induction over tables that facts about walks are
proved by. A step that goes on into a table has not looked at the entries of the table. -/

namespace BuildReplay

variable {σ : Type}

/-- A table is empty, or an entry, whose value may be a table itself, in front of the rest. -/
theorem Table.induct {P : Table → Prop} (nil : P [])
    (cons : ∀ key v rest, (∀ entries, v = .table entries → P entries) → P rest →
      P ((key, v) :: rest)) :
    ∀ t, P t
  | [] => nil
  | (key, v) :: rest =>
    cons key v rest (fun entries _h => Table.induct nil cons entries) (Table.induct nil cons rest)
termination_by t => sizeOf t
decreasing_by
  · subst _h
    simp only [List.cons.sizeOf_spec, Prod.mk.sizeOf_spec, Value.table.sizeOf_spec]
    omega
  · simp only [List.cons.sizeOf_spec, Prod.mk.sizeOf_spec]
    omega

theorem Value.exists_of_isTable {v : Value} (h : v.isTable) : ∃ t, v = .table t := by
  cases v with
  | table t => exact ⟨t, rfl⟩
  | _ => cases h

/-! ## Forms of a walk -/

section Forms

variable (host : Host σ) (sc : Scope σ)

theorem walkNext_done (v : Value) : walkNext host sc .done v = pure () := by
  cases v <;> rfl

theorem walkNext_object (r : ObjectRef) (t : Table) :
    walkNext host sc (.object r) (.table t) = (do
      let shape ← host.shapeOf r.type
      walkEntries host (sc.enter (.object r shape)) shape r t) := by
  rw [walkNext]

theorem walkNext_elements (element : TypeRef) (slot : Slot) (t : Table) :
    walkNext host sc (.elements element slot) (.table t) = walkElements host sc element slot t := by
  rw [walkNext]

/-- Only tables are walked. -/
theorem walkNext_of_not_table (next : Next) {v : Value} (h : v.isTable = false) :
    walkNext host sc next v = pure () := by
  cases v <;> first | rfl | simp [Value.isTable] at h

theorem walkEntries_nil (shape : Shape σ) (self : ObjectRef) :
    walkEntries host sc shape self [] = pure () := by
  rw [walkEntries]

theorem walkEntries_cons (shape : Shape σ) (self : ObjectRef) (key : String) (v : Value)
    (rest : Table) :
    walkEntries host sc shape self ((key, v) :: rest) = (do
      let next ← keyStep host (sc.key key) shape self key v
      walkNext host (sc.key key) next v
      walkEntries host sc shape self rest) := by
  rw [walkEntries]

theorem walkElements_nil (element : TypeRef) (slot : Slot) :
    walkElements host sc element slot [] = pure () := by
  rw [walkElements]

theorem walkElements_cons_table (element : TypeRef) (slot : Slot) (name : String)
    (body rest : Table) :
    walkElements host sc element slot ((name, .table body) :: rest) = (do
      let r ← host.maybeCreate slot name
      walkNext host ((sc.key name).enter (.collection element slot)) (.object r) (.table body)
      walkElements host sc element slot rest) := by
  rw [walkElements]
  exact if_pos rfl

theorem walkElements_cons_of_not_table (element : TypeRef) (slot : Slot) (name : String)
    {v : Value} (rest : Table) (h : v.isTable = false) :
    walkElements host sc element slot ((name, v) :: rest) =
      throw (.invalidDeclaration (sc.key name).keyPath
        ("expected a table for element `" ++ name ++ "`, found " ++ v.describe)) := by
  rw [walkElements]
  exact if_neg (by simp [h])

/-- The entries of a table are applied one after the other. -/
theorem walkEntries_append (shape : Shape σ) (self : ObjectRef) (t u : Table) :
    walkEntries host sc shape self (t ++ u) = (do
      walkEntries host sc shape self t
      walkEntries host sc shape self u) := by
  induction t with
  | nil => rw [List.nil_append, walkEntries_nil, pure_bind]
  | cons e t ih =>
      obtain ⟨key, v⟩ := e
      simp only [List.cons_append, walkEntries_cons, ih, bind_assoc]

/-- The elements of a table are made and populated one after the other. -/
theorem walkElements_append (element : TypeRef) (slot : Slot) (t u : Table) :
    walkElements host sc element slot (t ++ u) = (do
      walkElements host sc element slot t
      walkElements host sc element slot u) := by
  induction t with
  | nil => rw [List.nil_append, walkElements_nil, pure_bind]
  | cons e t ih =>
      obtain ⟨name, v⟩ := e
      by_cases hv : v.isTable
      · obtain ⟨body, rfl⟩ := Value.exists_of_isTable hv
        simp only [List.cons_append, walkElements_cons_table, ih, bind_assoc]
      · rw [List.cons_append, walkElements_cons_of_not_table _ _ _ _ _ _ (by simpa using hv),
          walkElements_cons_of_not_table _ _ _ _ _ _ (by simpa using hv)]
        rfl

end Forms

/-! ## Lookups -/

theorem Host.getByName_state {host : Host σ} {slot : Slot} {name : String} {r : Option ObjectRef}
    {s s' : σ} (h : (host.getByName slot name).Gives s r s') : s' = s := by
  unfold Host.getByName at h
  split at h
  · exact (Act.read_gives.1 h).2.symm
  · exact (Act.pure_gives.1 h).2.symm

/-! ## Routes -/

section Routes

variable {shape : Shape σ} {key : String} {f : Field σ}

/-- A settable field goes by the key itself or by its `is` form. -/
theorem settable?_of_route (h : route shape key = .settable f) :
    ∃ name, (name = key ∨ name = isName key) ∧ shape.settable? name = some f := by
  unfold route at h
  split at h
  · cases h
  · split at h
    · rename_i heq
      cases h
      rcases hkey : shape.settable? key with _ | g
      · rw [hkey] at heq
        exact ⟨_, .inr rfl, heq⟩
      · rw [hkey] at heq
        cases heq
        exact ⟨_, .inl rfl, hkey⟩
    · split at h <;> cases h

theorem readOnly?_of_route (h : route shape key = .readOnly f) : shape.readOnly? key = some f := by
  unfold route at h
  split at h
  · cases h
  · split at h
    · cases h
    · split at h
      · rename_i heq
        cases h
        exact heq
      · cases h

/-- A key that is looked up among the members is no field. -/
theorem route_eq_member :
    route shape key = .member ↔ key ≠ dispatchKey ∧ shape.settable? key = none ∧
      shape.settable? (isName key) = none ∧ shape.readOnly? key = none := by
  unfold route
  split
  · simp [*]
  · cases hkey : shape.settable? key with
    | some f => simp
    | none =>
        cases his : shape.settable? (isName key) with
        | some f => simp
        | none => cases hread : shape.readOnly? key <;> simp [*]

section Member

variable {host : Host σ} {sc : Scope σ} {self : ObjectRef} {v : Value}

theorem memberStep_put {ms : List (Member σ)} (hmap : shape.mapLike)
    (hms : shape.members? "put" = some ms) :
    memberStep host sc shape self key v =
      invokeFirst host sc self key v (some (.string key)) none ms := by
  rw [memberStep, if_pos hmap, hms]

theorem memberStep_of_no_put (hput : shape.mapLike → shape.members? "put" = none) :
    memberStep host sc shape self key v =
      match shape.members? key <|> shape.members? (setterName key) with
      | some overloads => invokeFirst host sc self key v none none overloads
      | none => throw (unknownKey shape sc.keyPath key) := by
  have hnone : (if shape.mapLike then shape.members? "put" else none) = none := by
    split
    · exact hput ‹_›
    · rfl
  rewrite [memberStep, hnone]
  rfl

end Member

theorem mem_of_findMember? {name : String} {arity : Nat} {frames : List (Frame σ)}
    {frame : Frame σ} {m : Member σ} (h : findMember? name arity frames = some (frame, m)) :
    frame ∈ frames ∧ frame.findMember? name arity = some m := by
  obtain ⟨f, hf, hfm⟩ := List.exists_of_findSome?_eq_some h
  obtain ⟨_, hm, heq⟩ := Option.map_eq_some_iff.1 hfm
  cases heq
  exact ⟨hf, hm⟩

end Routes

/-! ## Steps that go on

A key goes on into its table exactly where a field hands out an object or a collection. The step
itself has changed nothing then, and has not looked at the entries. -/

/-- Where a table goes on at a field that reads as a value. -/
def Live.next : Live → Next
  | .object r => .object r
  | .named element slot => .elements element slot
  | _ => .done

theorem Live.next_eq_done {live : Live} (h : live.isHandle = false) : live.next = .done := by
  cases live <;> first | rfl | cases h

/-- Whether a settable field of a type hands a table on to the value that it holds. -/
def ValueType.handsOn : ValueType → Live → Bool
  | .named _, .named _ _ => true
  | .named _, _ => false
  | .property _, _ => false
  | .map _, _ => false
  | _, .object _ => true
  | _, _ => false

/-- What a key hands the entries of its table on to. -/
def Route.handsOn (self : ObjectRef) (s : σ) (next : Next) : Route σ → Prop
  | .settable f => ∃ live, f.read self s = .ok live ∧ f.type.handsOn live ∧ live.next = next
  | .readOnly f => ∃ live, f.read self s = .ok live ∧ live.next = next
  | _ => False

section GoesOn

variable {host : Host σ} {sc : Scope σ} {shape : Shape σ} {self : ObjectRef} {f : Field σ}
  {key : String} {t : Table} {v : Value} {s s' : σ} {next : Next}

theorem Act.eq_of_andThen_gives {α β : Type} {x : Act σ α} {b b' : β}
    (h : (x >>= fun _ => pure b).Gives s b' s') : b' = b := by
  obtain ⟨_, _, _, h⟩ := Act.bind_gives.1 h
  exact (Act.pure_gives.1 h).1.symm

theorem elementsStep_eq_ok {live : Live} :
    elementsStep sc shape f live v = .ok next ↔
      v.isTable ∧ ∃ element slot, live = .named element slot ∧ next = .elements element slot := by
  cases live with
  | named element slot =>
      by_cases hv : v.isTable
      · simp only [elementsStep, hv, if_true, Except.ok.injEq, true_and]
        constructor
        · rintro rfl
          exact ⟨element, slot, rfl, rfl⟩
        · rintro ⟨_, _, hlive, rfl⟩
          cases hlive
          rfl
      · simp [elementsStep, hv]
  | _ => simp [elementsStep]

/-- What a field of any other type than a collection, a cell or a map makes of a table. -/
theorem settableStep_table (hnamed : ∀ t, f.type ≠ .named t) (hproperty : ∀ t, f.type ≠ .property t)
    (hmap : ∀ t, f.type ≠ .map t) :
    settableStep host sc shape self f key (.table t) = (do
      match ← f.get self, f.type with
      | .object r, _ => return .object r
      | .nothing, .object _ => sc.unsetObject shape f
      | _, _ =>
        assign host sc shape self f key (.table t)
        return .done) := by
  unfold settableStep
  split
  · exact absurd ‹_› (hnamed _)
  · exact absurd ‹_› (hproperty _)
  · rename_i heq
    cases heq
  · exact absurd ‹_› (hmap _)
  · rename_i heq _ _ _
    cases heq
    rfl
  · rename_i hne _ _
    exact absurd rfl (hne t)

theorem settableStep_goesOn (hn : next ≠ .done) :
    (settableStep host sc shape self f key v).Gives s next s' ↔
      v.isTable ∧ s = s' ∧ (Route.settable f).handsOn self s next := by
  constructor
  · intro h
    unfold settableStep at h
    split at h
    · rename_i hf
      obtain ⟨live, s₁, hget, h⟩ := Act.bind_gives.1 h
      obtain ⟨hread, rfl⟩ := Act.readExcept_gives.1 hget
      obtain ⟨hstep, rfl⟩ := Act.ofExcept_gives.1 h
      obtain ⟨hv, element, slot, rfl, rfl⟩ := elementsStep_eq_ok.1 hstep
      exact ⟨hv, rfl, _, hread, by rw [hf]; rfl, rfl⟩
    · obtain ⟨live, s₁, -, h⟩ := Act.bind_gives.1 h
      split at h
      · obtain ⟨resolved, s₂, -, h⟩ := Act.bind_gives.1 h
        exact absurd (Act.eq_of_andThen_gives h) hn
      · exact absurd h Act.not_throw_gives
    · obtain ⟨live, s₁, -, h⟩ := Act.bind_gives.1 h
      split at h
      · exact absurd (Act.eq_of_andThen_gives h) hn
      · exact absurd h Act.not_throw_gives
    · obtain ⟨live, s₁, -, h⟩ := Act.bind_gives.1 h
      split at h
      · exact absurd (Act.eq_of_andThen_gives h) hn
      · exact absurd h Act.not_throw_gives
    · obtain ⟨live, s₁, hget, h⟩ := Act.bind_gives.1 h
      obtain ⟨hread, rfl⟩ := Act.readExcept_gives.1 hget
      split at h
      · obtain ⟨rfl, rfl⟩ := Act.pure_gives.1 h
        refine ⟨rfl, rfl, _, hread, ?_, rfl⟩
        unfold ValueType.handsOn
        split <;> simp_all
      · unfold Scope.unsetObject at h
        split at h
        · exact absurd h Act.not_throw_gives
        · exact absurd (Act.pure_gives.1 h).1.symm hn
      · exact absurd (Act.eq_of_andThen_gives h) hn
    · exact absurd (Act.eq_of_andThen_gives h) hn
  · rintro ⟨hv, rfl, live, hread, hon, rfl⟩
    obtain ⟨t, rfl⟩ := Value.exists_of_isTable hv
    have hget : (f.get self).Gives s live s := Act.readExcept_gives.2 ⟨hread, rfl⟩
    unfold ValueType.handsOn at hon
    split at hon
    · rename_i hf
      unfold settableStep
      rw [hf]
      exact Act.bind_gives.2 ⟨_, _, hget, Act.ofExcept_gives.2 ⟨rfl, rfl⟩⟩
    · cases hon
    · cases hon
    · cases hon
    · rename_i r hnamed hproperty hmap
      rw [settableStep_table hnamed hproperty hmap]
      exact Act.bind_gives.2 ⟨_, _, hget, Act.pure_gives.2 ⟨rfl, rfl⟩⟩
    · cases hon

theorem readOnlyStep_goesOn (hn : next ≠ .done) :
    (readOnlyStep host sc shape self f v).Gives s next s' ↔
      v.isTable ∧ s = s' ∧ (Route.readOnly f).handsOn self s next := by
  constructor
  · intro h
    unfold readOnlyStep at h
    obtain ⟨live, s₁, hget, h⟩ := Act.bind_gives.1 h
    obtain ⟨hread, rfl⟩ := Act.readExcept_gives.1 hget
    split at h
    · obtain ⟨hstep, rfl⟩ := Act.ofExcept_gives.1 h
      obtain ⟨hv, element, slot, heq, rfl⟩ := elementsStep_eq_ok.1 hstep
      cases heq
      exact ⟨hv, rfl, _, hread, rfl⟩
    · obtain ⟨value, s₂, -, h⟩ := Act.bind_gives.1 h
      exact absurd (Act.eq_of_andThen_gives h) hn
    · obtain ⟨rfl, rfl⟩ := Act.pure_gives.1 h
      exact ⟨rfl, rfl, _, hread, rfl⟩
    · obtain ⟨element, s₂, -, h⟩ := Act.bind_gives.1 h
      exact absurd (Act.eq_of_andThen_gives h) hn
    · split at h
      · exact absurd h Act.not_throw_gives
      · obtain ⟨element, s₂, -, h⟩ := Act.bind_gives.1 h
        obtain ⟨item, s₃, -, h⟩ := Act.bind_gives.1 h
        exact absurd (Act.eq_of_andThen_gives h) hn
    · obtain ⟨inner, s₂, -, h⟩ := Act.bind_gives.1 h
      obtain ⟨resolved, s₃, -, h⟩ := Act.bind_gives.1 h
      exact absurd (Act.eq_of_andThen_gives h) hn
    · exact absurd h Act.not_throw_gives
  · rintro ⟨hv, rfl, live, hread, rfl⟩
    obtain ⟨t, rfl⟩ := Value.exists_of_isTable hv
    have hget : (f.get self).Gives s live s := Act.readExcept_gives.2 ⟨hread, rfl⟩
    unfold readOnlyStep
    refine Act.bind_gives.2 ⟨_, _, hget, ?_⟩
    cases live with
    | object r => exact Act.pure_gives.2 ⟨rfl, rfl⟩
    | named element slot => exact Act.ofExcept_gives.2 ⟨rfl, rfl⟩
    | _ => exact absurd rfl hn

/-- A key goes on exactly where its value is a table and its field hands the table on. -/
theorem keyStep_goesOn (hn : next ≠ .done) :
    (keyStep host sc shape self key v).Gives s next s' ↔
      v.isTable ∧ s = s' ∧ (route shape key).handsOn self s next := by
  unfold keyStep
  split
  · rename_i hroute
    rw [hroute]
    exact ⟨fun h => absurd (Act.eq_of_andThen_gives h) hn, fun h => h.2.2.elim⟩
  · rename_i hroute
    rw [hroute]
    exact settableStep_goesOn hn
  · rename_i hroute
    rw [hroute]
    exact readOnlyStep_goesOn hn
  · rename_i hroute
    rw [hroute]
    exact ⟨fun h => absurd (Act.eq_of_andThen_gives h) hn, fun h => h.2.2.elim⟩

end GoesOn

end BuildReplay
