import BuildReplay.Proofs.Android.Spelling
import BuildReplay.Proofs.Supply

/-! # Names that a document gives

An accepted document makes every element and every entry that it spells. So the names that an
application holds are those that it starts with and those that stand in the document, whatever they
are. -/

namespace BuildReplay.Android

open Act Law

/-! ## Objects that are there -/

/-- The object was made, and so were the elements of an application. -/
structure Model.Has (m : Model) (r : ObjectRef) : Prop where
  application : r.type = typeRef ApplicationExtension →
    ((⟨r.id⟩ : Ref ApplicationExtension).get m).Sound m
  buildType : r.type = typeRef BuildType → r.id < m.buildTypes.size
  productFlavor : r.type = typeRef ProductFlavor → r.id < m.productFlavors.size
  variant : r.type = typeRef Variant → r.id < m.variants.size

theorem of_type_eq {t u : TypeRef} {P : Prop} (h : decide (t = u) = false) (heq : t = u) : P :=
  absurd heq (of_decide_eq_false h)

theorem Model.has_application {m : Model} {a : Ref ApplicationExtension} (h : (a.get m).Sound m) :
    m.Has a.object :=
  ⟨fun _ => h, of_type_eq rfl, of_type_eq rfl, of_type_eq rfl⟩

/-- There is an element of the name in a collection, or an entry under it in a map of an object. -/
def Model.Holds (m : Model) : Subject → String → Prop
  | .elements type, name => ∃ slot c, named? slot = some c ∧ c.element = type ∧ name ∈ c.names m
  | .entries, key =>
    ∃ slot c, m.Has slot.owner ∧ map? slot = some c ∧ key ∈ (c.entries.get m).keys
  | _, _ => False

theorem Model.Admits.of_holds {A : Subject → String → Prop} {m : Model} (hm : m.Admits A)
    {place : Subject} {name : String} (h : m.Holds place name) : A place name := by
  cases place with
  | elements type =>
      obtain ⟨slot, c, hc, rfl, hname⟩ := h
      obtain ⟨a, f, -, rfl⟩ := exists_of_named? hc
      obtain ⟨e, he, rfl⟩ := List.mem_map.1 hname
      have ha := hm.applications a.id
      cases f with
      | buildTypes => exact ha.1 e he
      | productFlavors => exact ha.2.1 e he
      | signingConfigs => exact ha.2.2 e he
  | entries =>
      obtain ⟨slot, c, -, hc, hkey⟩ := h
      unfold map? at hc
      split at hc
      · cases hc
        exact hm.buildTypes _ name hkey
      · cases hc
        exact hm.productFlavors _ name hkey
      · cases hc
        exact hm.defaultConfigs _ name hkey
      · cases hc
        exact hm.variants _ name hkey
      · cases hc
  | _ => exact h.elim

/-- Nothing is lost, and elements of applications are there. -/
structure Model.Lasts (m m' : Model) : Prop where
  grows : m.Grows m'
  sound : ∀ a : Ref ApplicationExtension, (a.get m).Sound m → (a.get m').Sound m'

namespace Model.Lasts

variable {m m' m'' : Model}

theorem refl (m : Model) : m.Lasts m := ⟨.refl m, fun _ h => h⟩

theorem trans (h : m.Lasts m') (h' : m'.Lasts m'') : m.Lasts m'' :=
  ⟨h.grows.trans h'.grows, fun a ha => h'.sound a (h.sound a ha)⟩

theorem has (h : m.Lasts m') {r : ObjectRef} (hr : m.Has r) : m'.Has r where
  application htype := h.sound _ (hr.application htype)
  buildType htype := (hr.buildType htype).trans_le h.grows.buildTypes.size
  productFlavor htype := (hr.productFlavor htype).trans_le h.grows.productFlavors.size
  variant htype := (hr.variant htype).trans_le h.grows.variants.size

theorem holds (h : m.Lasts m') {place : Subject} {name : String} (hm : m.Holds place name) :
    m'.Holds place name := by
  cases place with
  | elements type =>
      obtain ⟨slot, c, hc, htype, hname⟩ := hm
      refine ⟨slot, c, hc, htype, ?_⟩
      obtain ⟨a, f, -, rfl⟩ := exists_of_named? hc
      exact ((entries_of_grows a f h.grows).map _).subset hname
  | entries =>
      obtain ⟨⟨⟨⟨type⟩, id⟩, field⟩, c, hhas, hc, hkey⟩ := hm
      refine ⟨_, c, h.has hhas, hc, ?_⟩
      unfold map? at hc
      split at hc
      · rename_i htype _
        cases htype
        cases hc
        exact (h.grows.buildTypes.cell id (hhas.buildType rfl)).manifestPlaceholders hkey
      · rename_i htype _
        cases htype
        cases hc
        exact (h.grows.productFlavors.cell id (hhas.productFlavor rfl)).manifestPlaceholders hkey
      · cases hc
        exact (h.grows.defaultConfigs id).manifestPlaceholders hkey
      · rename_i htype _
        cases htype
        cases hc
        exact (h.grows.variants.cell id (hhas.variant rfl)).manifestPlaceholders hkey
      · cases hc
  | _ => exact hm

end Model.Lasts

theorem edits_lasts {m m' m'' : Model} (hedits : m'.Edits m'') (h : m.Lasts m') : m.Lasts m'' :=
  h.trans ⟨hedits.grows, fun _ => sound_edits hedits⟩

theorem maybeCreate_lasts (slot : Slot) (name : String) (m : Model) :
    m.Lasts (host.maybeCreate slot name m).2 :=
  ⟨maybeCreate_grows slot name m, fun _ => maybeCreate_sound slot name⟩

/-! ## Fields -/

/-- The declared type of a field. -/
def fieldType? : Declaration Model → Option ValueType
  | .settable f | .readOnly f => some f.type
  | _ => none

theorem fieldType?_ne : ∀ e ∈ declarationTable, ∀ d ∈ e.2,
    ∀ t ∈ [typeRef ApplicationExtension, typeRef BuildType, typeRef ProductFlavor, typeRef Variant],
      fieldType? d ≠ some (.object t) := by
  decide

theorem read_object {shape : Shape Model} {f : Field Model} {r r' : ObjectRef} {m : Model}
    (hshape : shape? r.type = some shape) (hf : shape.HasField f)
    (hread : f.read r m = .ok (.object r')) : m.Has r' := by
  have hgives : (host.shapeOf r.type).Gives m shape m := host_shapeOf_gives.2 ⟨hshape, rfl⟩
  have hdescribes := (host_declares hgives).2 hf hread
  have htype : f.type = .object r'.type := ValueType.eq_object hdescribes.subject.symm
  have hne : ∀ t ∈ [typeRef ApplicationExtension, typeRef BuildType, typeRef ProductFlavor,
      typeRef Variant], r'.type ≠ t := by
    obtain ⟨ds, hds, rfl⟩ := exists_of_shape? hshape
    have hdeclared := Shape.ofDeclarations_describedBy r.type ds
    rintro t ht rfl
    obtain ⟨name, hf | hf⟩ := hf
    · exact fieldType?_ne _ hds _ (hdeclared.settable hf).1 _ ht (congrArg some htype)
    · exact fieldType?_ne _ hds _ (hdeclared.readOnly hf).1 _ ht (congrArg some htype)
  simp only [List.forall_mem_cons] at hne
  exact ⟨fun h => absurd h hne.1, fun h => absurd h hne.2.1, fun h => absurd h hne.2.2.1,
    fun h => absurd h hne.2.2.2.1⟩

/-! ## The host -/

theorem insert_holds {slot : Slot} {name : String} {item : Live} {m m' : Model}
    (hslot : m.Has slot.owner) (h : (host.insert slot name item).Gives m () m') :
    m'.Holds .entries name := by
  have hobeys : (keeps m.Lasts fun _ => True).Obeys (host.insert slot name item) :=
    (host_obeys edits_lasts fun _ => trivial).insert slot name item
  have hhas : m'.Has slot.owner := (keeps_gives hobeys (.refl m) h).has hslot
  unfold Host.insert at h
  split at h
  · rename_i c hc
    obtain ⟨value, _, hvalue, h⟩ := bind_gives.1 h
    obtain ⟨-, rfl⟩ := ofExcept_gives.1 hvalue
    obtain rfl := modify_gives.1 h
    refine ⟨slot, c, hhas, hc, ?_⟩
    rw [Lens.get_modify]
    exact Dictionary.mem_keys_insert.2 (.inl rfl)
  · exact absurd h not_throw_gives

theorem maybeCreate_holds {slot : Slot} {name : String} {r : ObjectRef} {c : NamedCollection Model}
    {m m' : Model} (hslot : m.Has slot.owner) (hc : named? slot = some c)
    (h : (host.maybeCreate slot name).Gives m r m') :
    m'.Holds (.elements c.element) name ∧ m'.Has r := by
  obtain ⟨a, f, rfl, rfl⟩ := exists_of_named? hc
  have hsound := maybeCreate_sound (f.slot a) name (hslot.application rfl)
  rw [f.maybeCreate_slot a] at h hsound
  obtain ⟨rfl, rfl⟩ := h.unique (NamedCollection.maybeCreate_gives _ name m)
  have hfind := NamedCollection.find?_obtain (f.collection_detached a) name m
  have hname : name ∈ (f.collection a).names ((f.collection a).obtain name m).2 :=
    NamedCollection.find?_isSome_iff.1 (by rw [hfind]; rfl)
  refine ⟨⟨_, _, hc, rfl, hname⟩, ?_⟩
  obtain ⟨e, hmem, heq⟩ := Option.map_eq_some_iff.1 hfind
  have hmem := List.mem_of_find?_eq_some hmem
  rw [← heq]
  cases f with
  | buildTypes =>
      exact ⟨of_type_eq rfl, fun _ => hsound.buildTypes.made e hmem, of_type_eq rfl, of_type_eq rfl⟩
  | productFlavors =>
      exact ⟨of_type_eq rfl, of_type_eq rfl, fun _ => hsound.productFlavors.made e hmem,
        of_type_eq rfl⟩
  | signingConfigs => exact ⟨of_type_eq rfl, of_type_eq rfl, of_type_eq rfl, of_type_eq rfl⟩

theorem host_supplies : host.Supplies Model.Lasts (fun r m => m.Has r)
    (fun place name m => m.Holds place name) shape? where
  refl := .refl
  obeys _ := host_obeys edits_lasts fun _ => trivial
  create _ slot name := fun m' hm =>
    ⟨hm.trans (maybeCreate_lasts slot name m'), fun _ _ _ => trivial⟩
  has h := h.has
  holds h := h.holds
  declares := host_declares
  object hshape hf _ hread := read_object hshape hf hread
  insert := insert_holds
  maybeCreate := maybeCreate_holds

/-! ## Projects -/

namespace ApplicationProject

/-- Where there is an application, nothing is lost, whatever is done to the project. -/
theorem project_lasts (options : Options) (m : Model) :
    project.Obeys
      (keeps (fun p => p.Orderly ∧ p.application.isSome ∧ m.Lasts p.model) fun _ => True)
      options where
  applyPlugin id p hp := by
    obtain ⟨horderly, happlication, hlasts⟩ := hp
    have hlisted := horderly.applyPlugin_listed happlication id
    refine ⟨⟨(applyPlugin_orderly id p horderly).1, ?_, ?_⟩, fun _ _ _ => trivial⟩
    · exact (congrArg (fun q => q.application.isSome = true) hlisted).mpr happlication
    · exact (congrArg (fun q => m.Lasts q.model) hlisted).mpr hlasts
  registry := keeps_read _
  configure name t e p hp := by
    obtain ⟨horderly, happlication, hlasts⟩ := hp
    have hobeys : (keeps (fun q : ApplicationProject => m.Lasts q.model) fun _ => True).Obeys
        (project.configure options name t e) := by
      refine configure_obeys (fun name t r => keeps_within modelLens ?_) (fun _ _ _ => trivial)
        (fun _ _ _ _ => keeps_modify fun _ hq => hq) (fun _ => trivial) name t e
      exact (host_supplies.obeys m).replay (host_supplies.create m) (fun _ _ => trivial) name t r
    refine ⟨⟨((project_orderly options).configure name t e p horderly).1, ?_,
      (hobeys p hlasts).1⟩, fun _ _ _ => trivial⟩
    rwa [(configure_continues options name t e p).1.application]
  dependencies v := keeps_modify fun p hp =>
    ⟨((project_orderly options).dependencies v p hp.1).1, hp.2⟩
  afterEvaluate _ hp := ⟨hp, fun _ _ _ => trivial⟩

/-- What a table spells for the application is held once it is configured. -/
theorem configure_holds {p q : ApplicationProject} (hp : p.Orderly) {a : Ref ApplicationExtension}
    (ha : p.application = some a) {options : Options} {start : String} {t : Table}
    (h : (project.configure options start t (.object a.object)).Gives p () q)
    {place : Subject} {name : String}
    (hspells : t.Spells shape? name place (.object (typeRef ApplicationExtension))) :
    q.model.Holds place name := by
  rw [configure_object] at h
  have hreplay : (replay host options start t a.object).Gives p.model () q.model := h.of_within
  exact host_supplies.replay (Model.has_application (hp.reachable ha).intact.sound) hreplay hspells

theorem holds_of_spelled {projectDir : Path} {options : Options} {document : Table}
    {p : ApplicationProject} (h : (project.apply options document).Gives (new projectDir) () p)
    {place : Subject} {name : String} (hspelled : Spelled document place name) :
    p.model.Holds place name := by
  obtain ⟨t, hmem, hspells⟩ := hspelled
  obtain ⟨before, after, rfl⟩ := List.append_of_mem hmem
  rw [Project.apply_eq, Project.applyKeys_append, Project.applyKeys_cons _ _ rfl] at h
  simp only [bind_assoc] at h
  obtain ⟨_, p₁, hlisted, h⟩ := bind_gives.1 h
  obtain ⟨_, p₂, hbefore, h⟩ := bind_gives.1 h
  obtain ⟨_, p₃, hkey, h⟩ := bind_gives.1 h
  have horderly := project_orderly options
  have hp₂ : p₂.Orderly := keeps_gives (horderly.applyKeys (fun _ _ => trivial) before)
    (keeps_gives (horderly.applyListed (fun _ _ => trivial) _) (new_orderly projectDir) hlisted)
    hbefore
  obtain ⟨registry, _, hread, hkey⟩ := bind_gives.1 hkey
  obtain ⟨rfl, rfl⟩ := read_gives.1 hread
  split at hkey
  · rename_i e hget
    obtain ⟨-, a, ha, rfl⟩ | ⟨hne, -⟩ := hp₂.extension hget
    · have happlication : p₃.application.isSome := by
        rw [configure_application hkey, ha]
        rfl
      have hp₃ : p₃.Orderly := keeps_gives (horderly.configure _ _ _) hp₂ hkey
      -- nothing that comes after the table takes its names away
      have hlasts := project_lasts options p₃.model
      have hrest := andThen (hlasts.applyKeys (fun _ _ => trivial) after) fun _ =>
        andThen (hlasts.takeDependencies (before ++ (applicationKey, .table t) :: after)) fun _ =>
          hlasts.afterEvaluate
      have hafter : p₃.model.Lasts p.model :=
        (keeps_gives hrest ⟨hp₃, happlication, .refl _⟩ h).2.2
      exact hafter.holds (configure_holds hp₂ ha hkey hspells)
    · exact absurd hne (by decide)
  · exact absurd hkey not_throw_gives

/-- Whatever becomes of a document, its application holds no other names than those that it starts
with and those that the document spells, as keys of the tables of its collections and maps. Where
the document is accepted, the application holds all that it spells. -/
theorem names_of_apply (projectDir : Path) (options : Options) (document : Table) :
    let p := (project.apply options document (new projectDir)).2
    (∀ place name, p.model.Holds place name → Standard place name ∨ Spelled document place name) ∧
    ((project.apply options document).Gives (new projectDir) () p →
      ∀ place name, Spelled document place name → p.model.Holds place name) := by
  intro p
  have hp : p.model.Admits (Admitted document) := by
    refine (((project_admits options document).apply (fun _ _ => trivial)) (new projectDir)
      ⟨new_orderly projectDir, ?_⟩).1.2
    have hnone : ∀ A, AdmitsKeys A .empty := fun _ => nofun
    exact ⟨fun _ => ⟨nofun, nofun, nofun⟩, fun _ => hnone _, fun _ => hnone _, fun _ => hnone _,
      fun _ => hnone _⟩
  exact ⟨fun place name => hp.of_holds, fun h place name => holds_of_spelled h⟩

/-- A document with the reserved key where elements and entries are named. -/
def reserved : Table := [
  (pluginsKey, .array [.string applicationPlugin]),
  (applicationKey, .table [
    ("buildTypes", .table [(dispatchKey, .table [])]),
    ("defaultConfig", .table [("manifestPlaceholders", .table [(dispatchKey, .string "x")])])])]

/-- A new project that has accepted the document. -/
def reservedProject : ApplicationProject :=
  (project.apply ⟨.strict, ⟨"/"⟩⟩ reserved (new ⟨"/"⟩)).2

/-- The reserved key is a name like any other: there are a build type and an entry of that name. -/
theorem names_of_apply_reserved :
    (project.apply ⟨.strict, ⟨"/"⟩⟩ reserved).Gives (new ⟨"/"⟩) () reservedProject ∧
      reservedProject.model.Holds (.elements (typeRef BuildType)) dispatchKey ∧
      reservedProject.model.Holds .entries dispatchKey := by
  refine ⟨?_, ?_, ?_⟩
  · unfold reservedProject
    exact gives_of_isOk (by decide +kernel)
  · exact ⟨CollectionField.buildTypes.slot ⟨0⟩, _, rfl, rfl, by decide +kernel⟩
  · exact ⟨⟨(⟨0⟩ : Ref DefaultConfig).object, "manifestPlaceholders"⟩, _,
      ⟨of_type_eq rfl, of_type_eq rfl, of_type_eq rfl, of_type_eq rfl⟩, rfl, by decide +kernel⟩

end ApplicationProject

end BuildReplay.Android
