import BuildReplay.Proofs.Android.Plugins
import BuildReplay.Proofs.Spelling

/-! # Names that a document admits

The names of elements and the keys of maps come from the document alone: from the tables that stand
where elements and entries are declared, but for the build types that every application has. -/

namespace BuildReplay

namespace Heap

variable {α : Type} {P : α → Prop} {h : Heap α}

theorem forall_put (hh : ∀ id, P (h.cell id)) {a : α} (ha : P a) (id : Nat) :
    ∀ i, P ((h.put id a).cell i) := by
  intro i
  by_cases hi : i = id
  · rwa [hi, cell_put_self]
  · rw [cell_put_of_ne h a hi]
    exact hh i

end Heap

namespace Android

open Act Law
open BuildReplay.Declaration (stored_describes viewed_describes collection_describes)

/-! ## Typed fields -/

theorem named?_element {f : CollectionField} {r : ObjectRef} {c : NamedCollection Model}
    (h : named? ⟨r, f.key⟩ = some c) : c.element = f.element := by
  obtain ⟨a, g, hslot, rfl⟩ := exists_of_named? h
  have hkey : f.key = g.key := congrArg Slot.field hslot
  obtain rfl : f = g := by
    revert hkey
    cases f <;> cases g <;> decide
  exact f.collection_element a

theorem declarationTable_describes : ∀ e ∈ declarationTable, ∀ d ∈ e.2, d.Describes host := by
  simp only [declarationTable, List.forall_mem_cons]
  refine ⟨?_, ?_, ?_, ?_, ?_, ?_, ?_, ?_, List.forall_mem_nil _⟩
  · simp only [ApplicationExtension.declarations, List.forall_mem_cons]
    refine ⟨stored_describes rfl, stored_describes rfl, by simp, ?_, ?_, ?_, by simp, by simp,
      by simp, by simp, List.forall_mem_nil _⟩
    · exact collection_describes fun _ _ => named?_element (f := .buildTypes)
    · exact collection_describes fun _ _ => named?_element (f := .productFlavors)
    · exact collection_describes fun _ _ => named?_element (f := .signingConfigs)
  · simp only [DefaultConfig.declarations, List.forall_mem_cons]
    refine ⟨?_, ?_, ?_, ?_, ?_, ?_, ?_, by simp, List.forall_mem_nil _⟩
    iterate 7 exact stored_describes rfl
  · simp only [BuildType.declarations, List.forall_mem_cons]
    refine ⟨viewed_describes rfl, ?_, ?_, ?_, ?_, ?_, ?_, by simp, by simp, by simp, by simp,
      List.forall_mem_nil _⟩
    iterate 6 exact stored_describes rfl
  · simp only [ProductFlavor.declarations, List.forall_mem_cons]
    refine ⟨viewed_describes rfl, ?_, ?_, ?_, ?_, by simp, List.forall_mem_nil _⟩
    iterate 4 exact stored_describes rfl
  · simp only [SigningConfig.declarations, List.forall_mem_cons]
    refine ⟨viewed_describes rfl, ?_, ?_, ?_, ?_, ?_, List.forall_mem_nil _⟩
    iterate 5 exact stored_describes rfl
  · simp only [CompileOptions.declarations, List.forall_mem_cons]
    exact ⟨stored_describes rfl, by simp, by simp, List.forall_mem_nil _⟩
  · simp only [VariantBuilder.declarations, List.forall_mem_cons]
    refine ⟨viewed_describes rfl, ?_, ?_, ?_, ?_, List.forall_mem_nil _⟩
    iterate 4 exact stored_describes rfl
  · simp only [Variant.declarations, List.forall_mem_cons]
    exact ⟨viewed_describes rfl, by simp, by simp, by simp, by simp, List.forall_mem_nil _⟩

theorem host_declares : host.Declares shape? := by
  intro t s shape s' h
  obtain ⟨hshape, -⟩ := host_shapeOf_gives.1 h
  obtain ⟨ds, hds, rfl⟩ := exists_of_shape? hshape
  exact ⟨hshape, (Shape.ofDeclarations_describedBy _ ds).describes
    (declarationTable_describes _ hds)⟩

/-! ## Admitted names -/

variable {A : Subject → String → Prop}

/-- All keys of a map are admitted. -/
def AdmitsKeys (A : Subject → String → Prop) (d : Dictionary String) : Prop :=
  ∀ key ∈ d.keys, A .entries key

/-- All names of the elements of an application are admitted. -/
def ApplicationExtension.Admits (A : Subject → String → Prop) (x : ApplicationExtension) : Prop :=
  (∀ e ∈ x.buildTypes, A (.elements (typeRef BuildType)) e.1) ∧
    (∀ e ∈ x.productFlavors, A (.elements (typeRef ProductFlavor)) e.1) ∧
    ∀ e ∈ x.signingConfigs, A (.elements (typeRef SigningConfig)) e.1

/-- All names that the objects of a model hold are admitted. -/
structure Model.Admits (A : Subject → String → Prop) (m : Model) : Prop where
  applications : ∀ id, (m.applications.cell id).Admits A
  defaultConfigs : ∀ id, AdmitsKeys A (m.defaultConfigs.cell id).manifestPlaceholders
  buildTypes : ∀ id, AdmitsKeys A (m.buildTypes.cell id).manifestPlaceholders
  productFlavors : ∀ id, AdmitsKeys A (m.productFlavors.cell id).manifestPlaceholders
  variants : ∀ id, AdmitsKeys A (m.variants.cell id).manifestPlaceholders

/-- Objects that hold names, or none. -/
class Naming (α : Type) [Stored Model α] where
  Admits : (Subject → String → Prop) → α → Prop
  get : ∀ {A m}, m.Admits A → ∀ id, Admits A (((Stored.heap : Lens Model (Heap α)).get m).cell id)
  set : ∀ {A} {m : Model} {h : Heap α}, m.Admits A → (∀ id, Admits A (h.cell id)) →
    ((Stored.heap : Lens Model (Heap α)).set h m).Admits A

instance : Naming ApplicationExtension where
  Admits := ApplicationExtension.Admits
  get hm := hm.applications
  set hm h := { hm with applications := h }

instance : Naming DefaultConfig where
  Admits A c := AdmitsKeys A c.manifestPlaceholders
  get hm := hm.defaultConfigs
  set hm h := { hm with defaultConfigs := h }

instance : Naming BuildType where
  Admits A b := AdmitsKeys A b.manifestPlaceholders
  get hm := hm.buildTypes
  set hm h := { hm with buildTypes := h }

instance : Naming ProductFlavor where
  Admits A f := AdmitsKeys A f.manifestPlaceholders
  get hm := hm.productFlavors
  set hm h := { hm with productFlavors := h }

instance : Naming Variant where
  Admits A v := AdmitsKeys A v.manifestPlaceholders
  get hm := hm.variants
  set hm h := { hm with variants := h }

instance : Naming SigningConfig where
  Admits _ _ := True
  get _ _ := trivial
  set hm _ := { hm with }

instance : Naming CompileOptions where
  Admits _ _ := True
  get _ _ := trivial
  set hm _ := { hm with }

instance : Naming VariantBuilder where
  Admits _ _ := True
  get _ _ := trivial
  set hm _ := { hm with }

section Naming

variable {α : Type} [Stored Model α] [Naming α] {m : Model}

theorem modify_admits (hm : m.Admits A) {r : Ref α} {f : α → α}
    (h : ∀ x, Naming.Admits A x → Naming.Admits A (f x)) : (r.modify f m).Admits A :=
  Naming.set hm (Heap.forall_put (Naming.get hm) (h _ (Naming.get hm r.id)) r.id)

theorem alloc_admits (hm : m.Admits A) {x : α} (hx : Naming.Admits A x) : (alloc x m).2.Admits A :=
  Naming.set hm (Heap.forall_put (Naming.get hm) hx _)

end Naming

/-! ## Declarations -/

theorem BuildType.initWith_admits {b other : BuildType} (hb : AdmitsKeys A b.manifestPlaceholders)
    (hother : AdmitsKeys A other.manifestPlaceholders) :
    AdmitsKeys A (b.initWith other).manifestPlaceholders := by
  intro key hkey
  rcases Dictionary.mem_keys_foldl_insert.1 hkey with hkey | hkey
  · exact hother key hkey
  · exact hb key hkey

section Declarations

variable {α β : Type} [Stored Model α] [Naming α] [OfLive β] [Refusing β] {name : String}
  {type : ValueType} {set : β → α → α}

/-- A field that holds no names. -/
theorem stored_admits [ToLive β] {get : α → β}
    (hset : ∀ b x, Naming.Admits A x → Naming.Admits A (set b x) := by exact fun _ _ h => h) :
    (Declaration.stored name type get set).Obeys (keeps (Model.Admits A) fun _ => True) :=
  Declaration.stored_keeps (fun _ => trivial) fun _ b _ hm => modify_admits hm (hset b)

theorem setter_admits
    (hset : ∀ b x, Naming.Admits A x → Naming.Admits A (set b x) := by exact fun _ _ h => h) :
    (Declaration.setter name type set).Obeys (keeps (Model.Admits A) fun _ => True) :=
  Declaration.setter_keeps (fun _ => trivial) fun _ b _ hm => modify_admits hm (hset b)

end Declarations

theorem declarationTable_admits :
    ∀ e ∈ declarationTable, ∀ d ∈ e.2, d.Obeys (keeps (Model.Admits A) fun _ => True) := by
  have hP : ∀ message, (fun _ : Error => True) (.host message) := fun _ => trivial
  have hviewed : ∀ {α β : Type} [Stored Model α] [ToLive β] {name type} {get : α → β},
      (Declaration.viewed name type get).Obeys (keeps (Model.Admits A) fun _ => True) :=
    Declaration.viewed_keeps hP _ _ _
  have hlist : ∀ {α : Type} [Described α] {name type},
      (Declaration.list α name type).Obeys (keeps (Model.Admits A) fun _ => True) :=
    Declaration.list_keeps hP _ _ _
  have hmap : ∀ {α : Type} [Described α] {name type},
      (Declaration.map α name type).Obeys (keeps (Model.Admits A) fun _ => True) :=
    Declaration.map_keeps hP _ _ _
  have hproperty : ∀ {α : Type} [Described α] {name type},
      (Declaration.property α name type).Obeys (keeps (Model.Admits A) fun _ => True) :=
    Declaration.property_keeps hP _ _ _
  have hcollection : ∀ {α : Type} [Described α] {name element},
      (Declaration.collection α name element).Obeys (keeps (Model.Admits A) fun _ => True) :=
    Declaration.collection_keeps hP _ _ _
  simp only [declarationTable, List.forall_mem_cons]
  refine ⟨?_, ?_, ?_, ?_, ?_, ?_, ?_, ?_, List.forall_mem_nil _⟩
  · simp only [ApplicationExtension.declarations, List.forall_mem_cons]
    refine ⟨stored_admits, stored_admits, hviewed, hcollection, hcollection, hcollection, hviewed,
      hlist, setter_admits, Declaration.call_keeps hP fun a args bs => ?_, List.forall_mem_nil _⟩
    rw [Access.during_bind]
    exact andThen (Declaration.ofLive_keeps hP _) fun name => keeps_read _
  · simp only [DefaultConfig.declarations, List.forall_mem_cons]
    refine ⟨?_, ?_, ?_, ?_, ?_, ?_, ?_, hmap, List.forall_mem_nil _⟩
    iterate 7 exact stored_admits
  · simp only [BuildType.declarations, List.forall_mem_cons]
    refine ⟨hviewed, ?_, ?_, ?_, ?_, ?_, ?_, hlist, hlist, hmap,
      Declaration.call_keeps hP fun b args bs => ?_, List.forall_mem_nil _⟩
    iterate 6 exact stored_admits
    exact BuildType.initWith_keeps hP b args bs fun other m hm => modify_admits hm fun x hx =>
      BuildType.initWith_admits hx (hm.buildTypes other.id)
  · simp only [ProductFlavor.declarations, List.forall_mem_cons]
    refine ⟨hviewed, ?_, ?_, ?_, ?_, hmap, List.forall_mem_nil _⟩
    iterate 4 exact stored_admits
  · simp only [SigningConfig.declarations, List.forall_mem_cons]
    refine ⟨hviewed, ?_, ?_, ?_, ?_, ?_, List.forall_mem_nil _⟩
    iterate 5 exact stored_admits
  · simp only [CompileOptions.declarations, List.forall_mem_cons]
    exact ⟨stored_admits, setter_admits, setter_admits, List.forall_mem_nil _⟩
  · simp only [VariantBuilder.declarations, List.forall_mem_cons]
    refine ⟨hviewed, ?_, ?_, ?_, ?_, List.forall_mem_nil _⟩
    iterate 4 exact stored_admits
  · simp only [Variant.declarations, List.forall_mem_cons]
    exact ⟨hviewed, hproperty, hmap, hlist, hproperty, List.forall_mem_nil _⟩

/-! ## The host -/

theorem list?_admits {slot : Slot} {c : Collection Model} (h : list? slot = some c) (v : Live) :
    (keeps (Model.Admits A) fun _ => True).Obeys (c.append v) := by
  unfold list? at h
  split at h
  · cases h
    exact Ref.append_keeps (fun _ => trivial) fun b m hm => modify_admits hm fun x hx => hx
  · cases h
    exact Ref.append_keeps (fun _ => trivial) fun b m hm => modify_admits hm fun x hx => hx
  · cases h
    exact Ref.append_keeps (fun _ => trivial) fun b m hm => modify_admits hm fun x hx => hx
  · cases h
    exact Ref.append_keeps (fun _ => trivial) fun b m hm => modify_admits hm fun x hx => hx
  · cases h

theorem property?_admits {slot : Slot} {c : PropertyCell Model} (h : property? slot = some c)
    (v : Live) : (keeps (Model.Admits A) fun _ => True).Obeys (c.set v) := by
  unfold property? at h
  split at h
  · cases h
    exact Ref.set_keeps (fun _ => trivial) fun b m hm => modify_admits hm fun x hx => hx
  · cases h
    exact Ref.set_keeps (fun _ => trivial) fun b m hm => modify_admits hm fun x hx => hx
  · cases h

theorem map?_admits {slot : Slot} {c : MapSink Model} (h : map? slot = some c) {key : String}
    (hkey : A .entries key) (v : Live) :
    (keeps (Model.Admits A) fun _ => True).Obeys (c.insert key v) := by
  have hinsert : ∀ {d : Dictionary String} {value}, AdmitsKeys A d →
      AdmitsKeys A (d.insert key value) := by
    intro d value hd k hk
    rcases Dictionary.mem_keys_insert.1 hk with rfl | hk
    · exact hkey
    · exact hd k hk
  unfold map? at h
  split at h
  · cases h
    exact Ref.insert_keeps (fun _ => trivial) fun b m hm => modify_admits hm fun x => hinsert
  · cases h
    exact Ref.insert_keeps (fun _ => trivial) fun b m hm => modify_admits hm fun x => hinsert
  · cases h
    exact Ref.insert_keeps (fun _ => trivial) fun b m hm => modify_admits hm fun x => hinsert
  · cases h
    exact Ref.insert_keeps (fun _ => trivial) fun b m hm => modify_admits hm fun x => hinsert
  · cases h

/-- A new element adds its name, and no other. -/
theorem obtain_admits {β : Type} [Stored Model β] [Naming β] {a : Ref ApplicationExtension}
    {field : Lens ApplicationExtension (List (String × Ref β))} {make : String → β} {name : String}
    (hmake : Naming.Admits A (make name))
    (hfield : ∀ r x, ApplicationExtension.Admits A x →
      ApplicationExtension.Admits A (field.modify (· ++ [(name, r)]) x)) {m : Model}
    (hm : m.Admits A) : ((a.collection field make).obtain name m).2.Admits A := by
  cases h : (a.collection field make).find? name m with
  | some r =>
      rw [NamedCollection.obtain_of_find? h]
      exact hm
  | none =>
      rw [NamedCollection.obtain_of_find?_none h]
      exact modify_admits (alloc_admits hm hmake) (hfield _)

theorem maybeCreate_admits {slot : Slot} {name : String}
    (h : ∀ c, named? slot = some c → A (.elements c.element) name) :
    (keeps (Model.Admits A) fun _ => True).Obeys (host.maybeCreate slot name) := by
  unfold Host.maybeCreate
  split
  · rename_i c hc
    have hname := h c hc
    obtain ⟨a, f, -, rfl⟩ := exists_of_named? hc
    refine fun m hm => ⟨?_, fun _ _ _ => trivial⟩
    change ((f.collection a).obtain name m).2.Admits A
    cases f with
    | buildTypes =>
        refine obtain_admits ?_ (fun r x hx => ?_) hm
        · exact nofun
        · exact ⟨List.forall_mem_append.2 ⟨hx.1, List.forall_mem_singleton.2 hname⟩, hx.2⟩
    | productFlavors =>
        refine obtain_admits ?_ (fun r x hx => ?_) hm
        · exact nofun
        · exact ⟨hx.1, List.forall_mem_append.2 ⟨hx.2.1, List.forall_mem_singleton.2 hname⟩, hx.2.2⟩
    | signingConfigs =>
        refine obtain_admits ?_ (fun r x hx => ?_) hm
        · trivial
        · exact ⟨hx.1, hx.2.1, List.forall_mem_append.2 ⟨hx.2.2, List.forall_mem_singleton.2 hname⟩⟩
  · exact Law.throw _ trivial

theorem host_admits : host.Admits (keeps (Model.Admits A) fun _ => True) shape? A where
  shapeOf t := by
    cases h : shape? t with
    | some shape => exact host_shapeOf_some h ▸ Law.pure _ _
    | none => exact host_shapeOf_none h ▸ Law.throw _ trivial
  shape h := by
    obtain ⟨ds, hds, rfl⟩ := exists_of_shape? (host_shapeOf_gives.1 h).1
    exact (Shape.ofDeclarations_describedBy _ ds).obeys (declarationTable_admits _ hds)
  append slot v := by
    unfold Host.append
    split
    · exact list?_admits ‹_› v
    · exact Law.throw _ trivial
  setProperty slot v := by
    unfold Host.setProperty
    split
    · exact property?_admits ‹_› v
    · exact Law.throw _ trivial
  getByName := getByName_keeps host
  declares := host_declares
  insert hname slot item := by
    unfold Host.insert
    split
    · exact map?_admits ‹_› hname item
    · exact Law.throw _ trivial
  maybeCreate := maybeCreate_admits

/-! ## Projects -/

theorem create_admits (hdebug : A (.elements (typeRef BuildType)) "debug")
    (hrelease : A (.elements (typeRef BuildType)) "release") (dir : Path) {m : Model}
    (hm : m.Admits A) : (ApplicationExtension.create dir m).2.Admits A := by
  have hnone : AdmitsKeys A .empty := nofun
  have h₁ : (alloc { BuildType.new "debug" with debuggable := true } m).2.Admits A :=
    alloc_admits hm hnone
  have h₂ := alloc_admits h₁ (x := BuildType.new "release") hnone
  have h₃ := alloc_admits h₂ (x := DefaultConfig.new) hnone
  have h₄ := alloc_admits h₃ (x := CompileOptions.new) trivial
  have hbuildTypes : ∀ d r : Ref BuildType, ∀ e ∈ [("debug", d), ("release", r)],
      A (.elements (typeRef BuildType)) e.1 := fun d r =>
    List.forall_mem_cons.2 ⟨hdebug, List.forall_mem_singleton.2 hrelease⟩
  refine alloc_admits h₄ (And.intro (hbuildTypes _ _) (And.intro ?_ ?_))
  · exact nofun
  · exact nofun

namespace ApplicationProject

theorem Orderly.extension {p : ApplicationProject} (hp : p.Orderly) {name : String} {e : Extension}
    (h : p.registry.get? name = some e) :
    (name = applicationKey ∧ ∃ a, p.application = some a ∧ e = .object a.object) ∨
      (name = componentsKey ∧ e = .components applicationComponents.typeName) := by
  obtain ⟨entry, hfind, rfl⟩ := Option.map_eq_some_iff.1 h
  have hname : entry.1 = name := by simpa using List.find?_some hfind
  have hmem := hp.registry ▸ List.mem_of_find?_eq_some hfind
  unfold extensions at hmem
  split at hmem
  · exact absurd hmem List.not_mem_nil
  · rename_i a ha
    rcases List.mem_pair.1 hmem with rfl | rfl
    · exact .inl ⟨hname.symm, a, ha, rfl⟩
    · exact .inr ⟨hname.symm, rfl⟩

/-- A plugin makes no objects, or those of a new application. -/
theorem applyPlugin_model (id : String) (p : ApplicationProject) :
    (applyPlugin id p).2.model = p.model ∨
      (applyPlugin id p).2.model = p.addApplication.model := by
  unfold applyPlugin
  split
  · exact .inl rfl
  · split
    · exact .inr rfl
    · split <;> exact .inl rfl

/-- The document spells a name in the table of the application. -/
def Spelled (document : Table) (place : Subject) (name : String) : Prop :=
  ∃ t : Table, (applicationKey, .table t) ∈ document ∧
    t.Spells shape? name place (.object (typeRef ApplicationExtension))

/-- A name of a build type that every application starts with. -/
def Standard (place : Subject) (name : String) : Prop :=
  place = .elements (typeRef BuildType) ∧ name ∈ ["debug", "release"]

/-- A name that an application can hold. -/
def Admitted (document : Table) (place : Subject) (name : String) : Prop :=
  Standard place name ∨ Spelled document place name

theorem project_admits (options : Options) (document : Table) :
    project.ObeysOn (keeps (fun p => p.Orderly ∧ p.model.Admits (Admitted document)) fun _ => True)
      options document where
  applyPlugin id p hp := by
    refine ⟨⟨(applyPlugin_orderly id p hp.1).1, ?_⟩, fun _ _ _ => trivial⟩
    rcases applyPlugin_model id p with hmodel | hmodel
    · exact (congrArg (Model.Admits _) hmodel).mpr hp.2
    · refine (congrArg (Model.Admits _) hmodel).mpr (create_admits ?_ ?_ p.projectDir hp.2)
      · exact .inl ⟨rfl, by simp⟩
      · exact .inl ⟨rfl, by simp⟩
  registry := keeps_read _
  configure {name t s e} hmem hs hget := by
    refine fun p hp => ⟨⟨((project_orderly options).configure name t e p hp.1).1, ?_⟩,
      fun _ _ _ => trivial⟩
    have hadmits : (keeps (fun p : ApplicationProject => p.model.Admits (Admitted document))
        fun _ => True).Obeys (project.configure options name t e) := by
      rcases hs.1.extension hget with ⟨rfl, a, -, rfl⟩ | ⟨-, rfl⟩
      · rw [configure_object]
        refine keeps_within modelLens (host_admits.replay (fun _ _ => trivial) _ ?_)
        exact fun place name h => .inr ⟨t, hmem, h⟩
      · rw [configure_components, if_pos rfl]
        exact Components.configure_obeys (fun _ _ _ => trivial)
          (fun _ _ _ _ p hp => ⟨hp, fun _ _ _ => trivial⟩) name t
    exact (hadmits p hp.2).1
  dependencies _ := keeps_modify fun p hp =>
    ⟨((project_orderly options).dependencies _ p hp.1).1, hp.2⟩
  afterEvaluate _ hp := ⟨hp, fun _ _ _ => trivial⟩

end ApplicationProject

end Android

end BuildReplay
