import BuildReplay.Proofs.Android.Agreement
import BuildReplay.Proofs.Android.History
import BuildReplay.Proofs.Course

/-! # The course of an application's table

Where a walk over the table of an application comes to: the application's own keys, the keys of its
nested objects, and the keys of its elements under the names that the table gives them. -/

namespace BuildReplay.Android

open Act Law

/-- What surrounds a key is of the model. -/
structure Modelled (sc : Scope Model) : Prop where
  object : ∀ {self shape}, Frame.object self shape ∈ sc.frames → shape? self.type = some shape
  collection : ∀ {element slot}, Frame.collection element slot ∈ sc.frames →
    ∃ c, named? slot = some c ∧ c.element = element

namespace Modelled

variable {sc : Scope Model}

theorem top (options : Options) (start : String) : Modelled (.top options start) :=
  ⟨fun h => absurd h Scope.not_mem_top, fun h => absurd h Scope.not_mem_top⟩

theorem key (h : Modelled sc) (k : String) : Modelled (sc.key k) := ⟨h.object, h.collection⟩

theorem enter_object (h : Modelled sc) {self : ObjectRef} {shape : Shape Model}
    (hshape : shape? self.type = some shape) : Modelled (sc.enter (.object self shape)) where
  object hmem := by
    rcases Scope.mem_enter.1 hmem with heq | hmem
    · cases heq
      exact hshape
    · exact h.object hmem
  collection hmem := h.collection (by simpa using hmem)

theorem enter_collection (h : Modelled sc) {element : TypeRef} {slot : Slot}
    (hslot : ∃ c, named? slot = some c ∧ c.element = element) :
    Modelled (sc.enter (.collection element slot)) where
  object hmem := h.object (by simpa using hmem)
  collection hmem := by
    rcases Scope.mem_enter.1 hmem with heq | hmem
    · cases heq
      exact hslot
    · exact h.collection hmem

theorem agrees (h : Modelled sc) : sc.Agrees host InitSelf :=
  ⟨fun hmem => shape?_agrees (h.object hmem), h.collection⟩

variable {I : Model → Prop} (hI : ∀ {m m' : Model}, m.Edits m' → I m → I m')
include hI

theorem obeys (h : Modelled sc) : sc.Obeys (keeps I fun _ => True) :=
  fun _ _ hmem => shape?_obeys hI (fun _ => trivial) (h.object hmem)

/-- A key keeps what edits keep. -/
theorem effects (h : Modelled sc) {self : ObjectRef} {shape : Shape Model}
    (hshape : shape? self.type = some shape) (key : String) (v : Value) :
    Effects (keeps I fun _ => True) host sc shape self key v :=
  (host_obeys hI fun _ => trivial).effects (h.obeys hI)
    (shape?_obeys hI (fun _ => trivial) hshape) (fun _ _ => trivial) self key v

end Modelled

/-! ## Keys of an application that go on -/

/-- Where the fields of an application go on: nowhere, to a nested object, or to the elements of the
collection of the field's name. -/
def Declaration.Opens : Declaration Model → Prop
  | .settable f => ∀ self m live, f.read self m = .ok live → live.next = .done
  | .readOnly f => ∀ self m live, f.read self m = .ok live → live.next = .done ∨
    (∃ r, live.next = .object r ∧ (r.type = typeRef DefaultConfig ∨ r.type = typeRef CompileOptions)) ∨
    ∃ c : CollectionField, f.name = c.key ∧ live.next = .elements c.element ⟨self, c.key⟩
  | _ => True

theorem ApplicationExtension.declarations_open :
    ∀ d ∈ ApplicationExtension.declarations, Declaration.Opens d := by
  simp only [ApplicationExtension.declarations, List.forall_mem_cons]
  refine ⟨fun _ _ _ => stored_leaf _ _ _ _, fun _ _ _ => stored_leaf _ _ _ _, fun _ m _ h => ?_,
    fun _ _ _ h => ?_, fun _ _ _ h => ?_, fun _ _ _ h => ?_, fun _ m _ h => ?_, fun _ _ _ h => ?_,
    trivial, trivial, fun _ h => absurd h List.not_mem_nil⟩
  · obtain ⟨a, rfl, rfl⟩ := getter_eq_ok.1 h
    exact .inr (.inl ⟨_, rfl, .inl rfl⟩)
  · obtain ⟨a, rfl, rfl⟩ := getter_eq_ok.1 h
    exact .inr (.inr ⟨.buildTypes, rfl, rfl⟩)
  · obtain ⟨a, rfl, rfl⟩ := getter_eq_ok.1 h
    exact .inr (.inr ⟨.productFlavors, rfl, rfl⟩)
  · obtain ⟨a, rfl, rfl⟩ := getter_eq_ok.1 h
    exact .inr (.inr ⟨.signingConfigs, rfl, rfl⟩)
  · obtain ⟨a, rfl, rfl⟩ := getter_eq_ok.1 h
    exact .inr (.inl ⟨_, rfl, .inr rfl⟩)
  · obtain ⟨a, rfl, rfl⟩ := getter_eq_ok.1 h
    exact .inl rfl

theorem application_handsOn {key : String} {self : ObjectRef} {m : Model} {next : Next}
    (hn : next ≠ .done) (h : (route applicationShape key).handsOn self m next) :
    (∃ r, next = .object r ∧ (r.type = typeRef DefaultConfig ∨ r.type = typeRef CompileOptions)) ∨
      ∃ c : CollectionField, key = c.key ∧ next = .elements c.element ⟨self, c.key⟩ := by
  have hds := Shape.ofDeclarations_describedBy (typeRef ApplicationExtension)
    ApplicationExtension.declarations
  cases hroute : route applicationShape key with
  | settable f =>
      rw [hroute] at h
      obtain ⟨live, hread, -, rfl⟩ := h
      obtain ⟨name, -, hf⟩ := settable?_of_route hroute
      exact absurd (ApplicationExtension.declarations_open _ (hds.settable hf).1 _ _ _ hread) hn
  | readOnly f =>
      rw [hroute] at h
      obtain ⟨live, hread, rfl⟩ := h
      obtain ⟨hmem, hname⟩ := hds.readOnly (readOnly?_of_route hroute)
      rcases ApplicationExtension.declarations_open _ hmem _ _ _ hread with hdone | hobject | hnamed
      · exact absurd hdone hn
      · exact .inl hobject
      · obtain ⟨c, hkey, hnext⟩ := hnamed
        exact .inr ⟨c, hname.symm.trans hkey, hnext⟩
  | _ =>
      rw [hroute] at h
      exact h.elim

/-! ## Places -/

section Places

variable (a : Ref ApplicationExtension) (t : Table)

/-- The table of an application holds a table for a build type. -/
def DeclaresBuildType (name : String) (body : Table) : Prop :=
  ∃ types, ("buildTypes", .table types) ∈ t ∧ (name, .table body) ∈ types

/-- What is known of keys that are to be applied to an object: those of the application are from its
table, and those of a build type from the table under the name that it has in the application. -/
structure Stands (sc : Scope Model) (r : ObjectRef) (rest : Table) (m : Model) : Prop where
  modelled : Modelled sc
  application : r.type = typeRef ApplicationExtension →
    r = a.object ∧ rest ⊆ t ∧ ∀ element slot, .collection element slot ∉ sc.frames
  buildType : r.type = typeRef BuildType → ∃ name body, DeclaresBuildType t name body ∧
    rest ⊆ body ∧ (CollectionField.buildTypes.collection a).getByName name m = some r ∧
    ∀ element slot, .collection element slot ∈ sc.frames → slot = CollectionField.buildTypes.slot a

/-- What is known of elements that are to be made in a collection. -/
structure Gathers (sc : Scope Model) (element : TypeRef) (slot : Slot) (rest : Table) : Prop where
  modelled : Modelled sc
  named : ∃ c, named? slot = some c ∧ c.element = element
  buildType : element = typeRef BuildType → slot = CollectionField.buildTypes.slot a ∧
    (∃ types, ("buildTypes", .table types) ∈ t ∧ rest ⊆ types) ∧
    ∀ element slot, .collection element slot ∉ sc.frames

/-- What is known of a task that the walk over the table of the application comes to. -/
def Placed : Task Model × Model → Prop
  | (.next sc goal v, m) => Intact a m ∧ ∀ rest, v = .table rest → match goal with
    | .done => True
    | .object r => (shape? r.type).isSome ∧ Stands a t sc r rest m
    | .elements element slot => Gathers a t sc element slot rest
  | (.entries sc shape self rest, m) =>
    Intact a m ∧ shape? self.type = some shape ∧ Stands a t sc self rest m
  | (.elements sc element slot rest, m) => Intact a m ∧ Gathers a t sc element slot rest

variable {a : Ref ApplicationExtension} {t : Table}

/-- What a walk from a place leaves. -/
theorem walkNext_intact {sc : Scope Model} (hsc : Modelled sc) {goal : Next} {v : Value}
    {m m' : Model} (hm : Intact a m) (h : (walkNext host sc goal v).Gives m () m') :
    Intact a m' := by
  have hcreate : ∀ slot name, (keeps (Intact a) fun _ => True).Obeys
      (host.maybeCreate slot name) :=
    fun slot name m hm => ⟨maybeCreate_intact slot name hm, fun _ _ _ => trivial⟩
  have hwalk := (host_obeys Intact.edits fun _ => trivial).walkNext hcreate (fun _ _ => trivial)
    (hsc.obeys Intact.edits) goal v
  exact keeps_gives hwalk hm h

/-- Keys of an object other than an application end at the object, and leave the outline. -/
theorem keyStep_leaf {sc : Scope Model} (hsc : Modelled sc) {self : ObjectRef} {shape : Shape Model}
    (hshape : shape? self.type = some shape) (hself : self.type ≠ typeRef ApplicationExtension)
    {key : String} {v : Value} {m m' : Model} {goal : Next}
    (h : (keyStep host sc shape self key v).Gives m goal m') :
    goal = .done ∧ m'.outline = m.outline := by
  have hleaf : shape.Leaf := shape?_leaf hself hshape
  refine ⟨hleaf.done h, ?_⟩
  have hkeeps : (keeps (·.outline = m.outline) fun _ => True).Obeys
      (keyStep host sc shape self key v) :=
    (hsc.effects (fun h => h.outline.trans) hshape key v).keyStep_obeys
  exact keeps_gives hkeeps rfl h

section Leads

variable {sc : Scope Model} {shape : Shape Model} {self : ObjectRef} {key name : String} {v : Value}
  {body rest : Table} {element : TypeRef} {slot : Slot} {m m' : Model}

/-- A key of an application goes on to a place, and no other key goes on. -/
theorem Stands.placed_key {goal : Next} (h : Stands a t sc self ((key, v) :: rest) m)
    (hm : Intact a m) (hshape : shape? self.type = some shape)
    (hkey : (keyStep host (sc.key key) shape self key v).Gives m goal m') :
    Placed a t (.next (sc.key key) goal v, m') := by
  have hsc := h.modelled.key key
  refine ⟨keeps_gives (hsc.effects Intact.edits hshape key v).keyStep_obeys hm hkey, ?_⟩
  rintro entries rfl
  by_cases hgoal : goal = .done
  · rw [hgoal]
    trivial
  have hself : self.type = typeRef ApplicationExtension :=
    Decidable.byContradiction fun hne => hgoal (keyStep_leaf hsc hshape hne hkey).1
  obtain ⟨rfl, hrest, hframes⟩ := h.application hself
  cases hshape
  obtain ⟨-, -, hon⟩ := (keyStep_goesOn hgoal).1 hkey
  rcases application_handsOn hgoal hon with ⟨r, rfl, hr⟩ | ⟨f, rfl, rfl⟩
  · -- neither nested object is an application or a build type
    have hne : r.type ≠ typeRef ApplicationExtension ∧ r.type ≠ typeRef BuildType := by
      rcases hr with hr | hr <;> rw [hr] <;> decide
    refine ⟨?_, hsc, fun heq => absurd heq hne.1, fun heq => absurd heq hne.2⟩
    rcases hr with hr | hr <;> rw [hr] <;> rfl
  · refine ⟨hsc, ⟨_, f.named?_slot a, f.collection_element a⟩, fun heq => ?_⟩
    obtain rfl := CollectionField.eq_buildTypes heq
    exact ⟨rfl, ⟨entries, hrest List.mem_cons_self, List.Subset.refl _⟩, hframes⟩

/-- The keys after the first one stand where it stood: a key of a build type ends there, and leaves
the names of the application. -/
theorem Stands.tail {goal : Next} {m₁ : Model} (h : Stands a t sc self ((key, v) :: rest) m)
    (hshape : shape? self.type = some shape)
    (hkey : (keyStep host (sc.key key) shape self key v).Gives m goal m₁)
    (hwalk : (walkNext host (sc.key key) goal v).Gives m₁ () m') : Stands a t sc self rest m' where
  modelled := h.modelled
  application hself := by
    obtain ⟨hobject, hrest, hframes⟩ := h.application hself
    exact ⟨hobject, List.Subset.trans (List.subset_cons_self _ _) hrest, hframes⟩
  buildType hself := by
    obtain ⟨name, body, hdeclares, hrest, hname, hframes⟩ := h.buildType hself
    have hne : self.type ≠ typeRef ApplicationExtension := by
      rw [hself]
      decide
    obtain ⟨rfl, hsame⟩ := keyStep_leaf (h.modelled.key key) hshape hne hkey
    rw [walkNext_done] at hwalk
    obtain ⟨-, rfl⟩ := pure_gives.1 hwalk
    refine ⟨name, body, hdeclares, List.Subset.trans (List.subset_cons_self _ _) hrest, ?_, hframes⟩
    rw [CollectionField.getByName_congr a .buildTypes hsame]
    exact hname

theorem Stands.enter (h : Stands a t sc self rest m) (hshape : shape? self.type = some shape) :
    Stands a t (sc.enter (.object self shape)) self rest m where
  modelled := h.modelled.enter_object hshape
  application hself := by
    obtain ⟨hobject, hrest, hframes⟩ := h.application hself
    exact ⟨hobject, hrest, by simpa using hframes⟩
  buildType hself := by
    obtain ⟨name, body, hdeclares, hrest, hname, hframes⟩ := h.buildType hself
    exact ⟨name, body, hdeclares, hrest, hname, by simpa using hframes⟩

/-- An element that was made in a collection of the application stands under its name. -/
theorem Gathers.stands {r : ObjectRef} (h : Gathers a t sc element slot ((name, .table body) :: rest))
    (hcreate : (host.maybeCreate slot name).Gives m r m') :
    (shape? r.type).isSome ∧
      Stands a t ((sc.key name).enter (.collection element slot)) r body m' := by
  obtain ⟨c, hc, rfl⟩ := h.named
  obtain ⟨b, f, rfl, rfl⟩ := exists_of_named? hc
  rw [f.maybeCreate_slot b] at hcreate
  obtain ⟨rfl, rfl⟩ := hcreate.unique (NamedCollection.maybeCreate_gives _ name m)
  have htype : ((f.collection b).handle ((f.collection b).obtain name m).1).type = f.element :=
    f.collection_element b
  refine ⟨?_, (h.modelled.key name).enter_collection h.named, fun hr => ?_, fun hr => ?_⟩
  · rw [htype]
    cases f <;> rfl
  · exact absurd hr (f.element_ne b _)
  · obtain rfl := CollectionField.eq_buildTypes (htype.symm.trans hr)
    obtain ⟨hslot, ⟨types, htypes, hrest⟩, hframes⟩ := h.buildType rfl
    obtain rfl : b = a := congrArg (fun s => Ref.mk s.owner.id) hslot
    refine ⟨name, body, ⟨types, htypes, hrest List.mem_cons_self⟩, List.Subset.refl _, ?_,
      fun element slot hmem => ?_⟩
    · rw [NamedCollection.getByName,
        NamedCollection.find?_obtain (CollectionField.collection_detached b .buildTypes)]
      rfl
    · rcases Scope.mem_enter.1 hmem with heq | hmem
      · cases heq
        rfl
      · exact absurd hmem (hframes element slot)

theorem Gathers.tail (h : Gathers a t sc element slot ((name, v) :: rest)) :
    Gathers a t sc element slot rest where
  modelled := h.modelled
  named := h.named
  buildType helement := by
    obtain ⟨hslot, ⟨types, htypes, hrest⟩, hframes⟩ := h.buildType helement
    exact ⟨hslot, ⟨types, htypes, List.Subset.trans (List.subset_cons_self _ _) hrest⟩, hframes⟩

theorem maybeCreate_gives_intact {r : ObjectRef} (hm : Intact a m)
    (h : (host.maybeCreate slot name).Gives m r m') : Intact a m' := by
  have hm' := maybeCreate_intact slot name hm
  rwa [h] at hm'

end Leads

/-- From a place, a walk comes to places only. -/
theorem Placed.leads {c c' : Task Model × Model} (h : Task.Leads host c c')
    (hc : Placed a t c) : Placed a t c' := by
  cases h with
  | key hkey =>
      obtain ⟨hm, hshape, hstands⟩ := hc
      exact hstands.placed_key hm hshape hkey
  | @keys _ _ _ key _ _ _ _ _ _ hkey hwalk =>
      obtain ⟨hm, hshape, hstands⟩ := hc
      have hsc := hstands.modelled.key key
      have hm₁ := keeps_gives (hsc.effects Intact.edits hshape _ _).keyStep_obeys
        hm hkey
      exact ⟨walkNext_intact hsc hm₁ hwalk, hshape, hstands.tail hshape hkey hwalk⟩
  | object hshapeOf =>
      obtain ⟨hm, hplace⟩ := hc
      obtain ⟨-, hstands⟩ := hplace _ rfl
      obtain ⟨hshape, rfl⟩ := host_shapeOf_gives.1 hshapeOf
      exact ⟨hm, hshape, hstands.enter hshape⟩
  | elements =>
      obtain ⟨hm, hplace⟩ := hc
      exact ⟨hm, hplace _ rfl⟩
  | element hcreate =>
      obtain ⟨hm, hgathers⟩ := hc
      refine ⟨maybeCreate_gives_intact hm hcreate, ?_⟩
      rintro entries ⟨⟩
      exact hgathers.stands hcreate
  | @others _ _ _ name _ _ _ _ _ _ hcreate hwalk =>
      obtain ⟨hm, hgathers⟩ := hc
      have hsc := (hgathers.modelled.key name).enter_collection hgathers.named
      exact ⟨walkNext_intact hsc (maybeCreate_gives_intact hm hcreate) hwalk,
        hgathers.tail⟩

end Places

end BuildReplay.Android
