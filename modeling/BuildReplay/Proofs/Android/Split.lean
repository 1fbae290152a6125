import BuildReplay.Proofs.Android.Collections

/-! # Declarations in several pieces

A table for one element of an application, or for one of its nested objects, does the same in one
piece as in two pieces that are applied one after the other: the second finds the object that the
first has reached, in the same scopes. -/

namespace BuildReplay.Android

open Act.Law

/-- A place in an application's table for the table of another object. -/
inductive Place where
  /-- An element of a named collection. -/
  | element (f : CollectionField) (name : String)
  | defaultConfig
  | compileOptions
deriving DecidableEq, Repr

namespace Place

/-- The application's table that holds a table at the place and nothing else. -/
def table : Place → Table → Table
  | element f name, t => [(f.key, .table [(name, .table t)])]
  | defaultConfig, t => [("defaultConfig", .table t)]
  | compileOptions, t => [("compileOptions", .table t)]

/-- The object at the place, if there is one. -/
def object? (a : Ref ApplicationExtension) : Place → Model → Option ObjectRef
  | element f name, m => (f.collection a).getByName name m
  | defaultConfig, m => some (a.get m).defaultConfig.object
  | compileOptions, m => some (a.get m).compileOptions.object

/-- Reaches the object at the place, which is made if there is none. -/
def reach (a : Ref ApplicationExtension) : Place → Act Model ObjectRef
  | element f name => (f.collection a).maybeCreate name
  | defaultConfig => .read fun m => (a.get m).defaultConfig.object
  | compileOptions => .read fun m => (a.get m).compileOptions.object

/-- The scope of the table at the place. -/
def scope (a : Ref ApplicationExtension) (options : Options) (start : String) :
    Place → Scope Model
  | element f name =>
    ((((Scope.top options start).enter (.object a.object applicationShape)).key f.key).key name).enter
      (.collection f.element (f.slot a))
  | defaultConfig =>
    ((Scope.top options start).enter (.object a.object applicationShape)).key "defaultConfig"
  | compileOptions =>
    ((Scope.top options start).enter (.object a.object applicationShape)).key "compileOptions"

variable {a : Ref ApplicationExtension} {m m' : Model} {r : ObjectRef}

theorem exists_reach (p : Place) (m : Model) :
    ∃ r m', (p.reach a).Gives m r m' ∧ p.object? a m' = some r ∧
      r.type ≠ typeRef ApplicationExtension := by
  cases p with
  | element f name =>
      refine ⟨_, _, NamedCollection.maybeCreate_gives _ name m, ?_, f.element_ne a _⟩
      rw [object?, NamedCollection.getByName, NamedCollection.find?_obtain (f.collection_detached a)]
      rfl
  | defaultConfig => exact ⟨_, m, rfl, rfl, of_decide_eq_false rfl⟩
  | compileOptions => exact ⟨_, m, rfl, rfl, of_decide_eq_false rfl⟩

/-- An object that is there is found again. -/
theorem reach_gives_of_object? {p : Place} (h : p.object? a m = some r) :
    (p.reach a).Gives m r m := by
  cases p with
  | element f name =>
      obtain ⟨r', hfind, rfl⟩ := Option.map_eq_some_iff.1 h
      have hgives := NamedCollection.maybeCreate_gives (f.collection a) name m
      rwa [NamedCollection.obtain_of_find? hfind] at hgives
  | defaultConfig =>
      cases h
      rfl
  | compileOptions =>
      cases h
      rfl

theorem object?_congr (p : Place) (h : m'.outline = m.outline) :
    p.object? a m' = p.object? a m := by
  have hlinks : (m'.applications.cell a.id).links = (m.applications.cell a.id).links :=
    congrFun (congrArg Outline.links h) a.id
  cases p with
  | element f name => exact f.getByName_congr a h name
  | defaultConfig => exact congrArg (fun l => some l.defaultConfig.object) hlinks
  | compileOptions => exact congrArg (fun l => some l.compileOptions.object) hlinks

theorem scope_obeys (p : Place) (options : Options) (start : String) (o : Outline) :
    (p.scope a options start).Obeys (keeps (·.outline = o) fun _ => True) := by
  have happlication : applicationShape.Obeys (keeps (·.outline = o) fun _ => True) :=
    shape?_obeys (fun h h' => h.outline.trans h') (fun _ => trivial)
      (t := typeRef ApplicationExtension) rfl
  have htop := (Scope.top_obeys options start).enter_object happlication a.object
  cases p with
  | element f name => exact ((htop.key f.key).key name).enter_collection f.element (f.slot a)
  | defaultConfig => exact htop.key "defaultConfig"
  | compileOptions => exact htop.key "compileOptions"

/-- A table with one place reaches the object there and goes on with its table. -/
theorem replay_table (p : Place) (options : Options) (start : String) (t : Table) :
    replay host options start (p.table t) a.object = (do
      let r ← p.reach a
      populate host (p.scope a options start) r t) := by
  have hone : ∀ (sc : Scope Model) key v, walkEntries host sc applicationShape a.object [(key, v)] =
      (do
        let next ← keyStep host (sc.key key) applicationShape a.object key v
        walkNext host (sc.key key) next v) := by
    intro sc key v
    simp only [walkEntries_cons, walkEntries_nil, bind_pure_unit]
  unfold replay populate
  rw [walkNext_object, show a.object.type = typeRef ApplicationExtension from rfl,
    host_shapeOf_application, pure_bind]
  cases p with
  | element f name =>
      have hstep : ∀ sc : Scope Model, keyStep host sc applicationShape a.object f.key
          (.table [(name, .table t)]) = pure (.elements f.element (f.slot a)) := by
        intro sc
        cases f <;> rfl
      rw [table, hone, hstep, pure_bind, walkNext_elements, walkElements_cons_table,
        f.maybeCreate_slot a]
      simp only [walkElements_nil, bind_pure_unit]
      rfl
  | defaultConfig =>
      rw [table, hone]
      rfl
  | compileOptions =>
      rw [table, hone]
      rfl

end Place

/-- The entries of a table are applied to an object one after the other. -/
theorem populate_append (sc : Scope Model) (r : ObjectRef) (t u : Table) :
    populate host sc r (t ++ u) = (do populate host sc r t; populate host sc r u) := by
  unfold populate
  simp only [walkNext_object]
  cases h : shape? r.type with
  | none =>
      rw [host_shapeOf_none h]
      rfl
  | some shape => simp only [host_shapeOf_some h, pure_bind, walkEntries_append]

/-- A table for a place has reached the object there, and left the outline as it was then. -/
theorem Place.exists_reach_of_replay {a : Ref ApplicationExtension} {p : Place} {options : Options}
    {start : String} {t : Table} {m m₁ : Model}
    (h : (replay host options start (p.table t) a.object).Gives m () m₁) :
    ∃ r m', (p.reach a).Gives m r m' ∧ p.object? a m₁ = some r ∧ m₁.outline = m'.outline := by
  rw [replay_table] at h
  obtain ⟨r, m', hreach, hobject, htype⟩ := p.exists_reach (a := a) m
  rw [Act.Gives, hreach.bind_eq] at h
  have hsame := populate_outline (p.scope_obeys (a := a) options start) htype t m'
  rw [h] at hsame
  exact ⟨r, m', hreach, (p.object?_congr hsame).trans hobject, hsame⟩

section Pieces

variable {a : Ref ApplicationExtension} {p : Place} {options : Options} {start : String}
  {t u : Table} {m m₁ m₂ : Model}

/-- The second piece finds the object that the first has reached, in the same scopes. -/
theorem Place.replay_append (a : Ref ApplicationExtension) (p : Place) (options : Options)
    (start : String) (t u : Table) :
    replay host options start (p.table (t ++ u)) a.object = (do
      replay host options start (p.table t) a.object
      replay host options start (p.table u) a.object) := by
  funext m
  obtain ⟨r, m', hreach, hobject, htype⟩ := p.exists_reach (a := a) m
  simp only [Place.replay_table, populate_append, bind_assoc]
  rw [hreach.bind_eq, hreach.bind_eq]
  rcases (populate host (p.scope a options start) r t).gives_or_raises m' with
    ⟨⟨⟩, m₁, ht⟩ | ⟨e, m₁, ht⟩
  · have hsame := populate_outline (p.scope_obeys (a := a) options start) htype t m'
    rw [ht] at hsame
    have hagain := Place.reach_gives_of_object? ((p.object?_congr hsame).trans hobject)
    rw [ht.bind_eq, ht.bind_eq, hagain.bind_eq]
  · rw [ht.bind, ht.bind]

theorem Place.object?_of_replay
    (ht : (replay host options start (p.table t) a.object).Gives m () m₁)
    (hu : (replay host options start (p.table u) a.object).Gives m₁ () m₂) :
    ∃ r, p.object? a m₁ = some r ∧ p.object? a m₂ = some r := by
  obtain ⟨r, -, -, hobject, -⟩ := Place.exists_reach_of_replay ht
  obtain ⟨r', m', hreach', hobject', -⟩ := Place.exists_reach_of_replay hu
  obtain ⟨rfl, -⟩ := hreach'.unique (Place.reach_gives_of_object? hobject)
  exact ⟨r', hobject, hobject'⟩

/-- A table for an element adds the name of the element where it is missing. -/
theorem names_of_replay {f : CollectionField} {name : String}
    (h : (replay host options start ((Place.element f name).table t) a.object).Gives m () m₁) :
    (f.collection a).names m₁ =
      if name ∈ (f.collection a).names m then (f.collection a).names m
        else (f.collection a).names m ++ [name] := by
  obtain ⟨r, m', hreach, -, hsame⟩ := Place.exists_reach_of_replay h
  obtain ⟨-, rfl⟩ := hreach.unique (NamedCollection.maybeCreate_gives (f.collection a) name m)
  rw [f.names_congr a hsame, NamedCollection.names_obtain (f.collection_detached a)]

end Pieces

/-- The table of one place can be split: one piece after the other does what both do at once. Then
both pieces have reached the same object, and a collection has gained the name of the place where it
was missing. -/
theorem replay_split (a : Ref ApplicationExtension) (p : Place) (options : Options)
    (start : String) (t u : Table) :
    (replay host options start (p.table (t ++ u)) a.object = do
      replay host options start (p.table t) a.object
      replay host options start (p.table u) a.object) ∧
    ∀ m m₁ m₂, (replay host options start (p.table t) a.object).Gives m () m₁ →
      (replay host options start (p.table u) a.object).Gives m₁ () m₂ →
      (∃ r, p.object? a m₁ = some r ∧ p.object? a m₂ = some r) ∧
      ∀ f name, p = .element f name →
        (f.collection a).names m₂ =
          (if name ∈ (f.collection a).names m then (f.collection a).names m
            else (f.collection a).names m ++ [name]) ∧
        (((f.collection a).names m).count name ≤ 1 →
          ((f.collection a).names m₂).count name = 1) := by
  refine ⟨p.replay_append a options start t u, fun m m₁ m₂ ht hu => ?_⟩
  refine ⟨Place.object?_of_replay ht hu, ?_⟩
  rintro f name rfl
  have hnames₁ := names_of_replay ht
  have hmem : name ∈ (f.collection a).names m₁ := by
    rw [hnames₁]
    split
    · assumption
    · simp
  have hnames : (f.collection a).names m₂ =
      if name ∈ (f.collection a).names m then (f.collection a).names m
        else (f.collection a).names m ++ [name] := by
    rw [names_of_replay hu, if_pos hmem, hnames₁]
  refine ⟨hnames, fun hone => ?_⟩
  rw [hnames]
  split
  · exact Nat.le_antisymm hone (List.count_pos_iff.2 ‹_›)
  · simp [List.count_eq_zero.2 ‹_›]

/-- Two pieces for the build type `debug` of a new application. -/
theorem replay_split_debug :
    ∃ m₁ m₂ r, (Place.element .buildTypes "debug").object? ⟨0⟩ m₁ = some r ∧
      (Place.element .buildTypes "debug").object? ⟨0⟩ m₂ = some r :=
  ⟨_, _, ((replay_split ⟨0⟩ (.element .buildTypes "debug") ⟨.strict, ⟨"/"⟩⟩ "android"
    [("minifyEnabled", .boolean true)] [("debuggable", .boolean true)]).2
    (ApplicationExtension.create ⟨"/"⟩ .empty).2 _ _ rfl rfl).1⟩

end BuildReplay.Android
