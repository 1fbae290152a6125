import BuildReplay.Proofs.Android.Collections
import BuildReplay.Proofs.Relocation.Declared

/-! # The application model from two roots

Three types of objects hold paths. Two models are the same up to related paths where they hold the
same objects, and only the paths of these three types differ. -/

namespace BuildReplay

open Act (Mirrors)

namespace Heap

variable {α : Type} {V : α → α → Prop} {h h' : Heap α}

/-- The heaps hold related objects under the same numbers. -/
structure Related (V : α → α → Prop) (h h' : Heap α) : Prop where
  size : h'.size = h.size
  cell : ∀ id, V (h.cell id) (h'.cell id)

theorem Related.refl (hV : ∀ a, V a a) (h : Heap α) : h.Related V h := ⟨rfl, fun _ => hV _⟩

theorem Related.put (hr : h.Related V h') {a a' : α} (ha : V a a') (id : Nat) :
    (h.put id a).Related V (h'.put id a') where
  size := hr.size
  cell i := by
    by_cases hi : i = id
    · rw [hi, cell_put_self, cell_put_self]
      exact ha
    · rw [cell_put_of_ne h a hi, cell_put_of_ne h' a' hi]
      exact hr.cell i

theorem Related.alloc (hr : h.Related V h') {a a' : α} (ha : V a a') :
    (h'.alloc a').1 = (h.alloc a).1 ∧ (h.alloc a).2.Related V (h'.alloc a').2 := by
  refine ⟨hr.size, congrArg (· + 1) hr.size, ?_⟩
  change ∀ i, V ((h.put h.size a).cell i) ((h'.put h'.size a').cell i)
  rw [hr.size]
  exact (hr.put ha h.size).cell

end Heap

namespace Android

variable {R : Path → Path → Prop}

/-! ## Objects -/

theorem BuildType.proguardFiles_lawful :
    Lens.Lawful BuildType.proguardFiles fun v b => { b with proguardFiles := v } := {}

theorem SigningConfig.storeFile_lawful :
    Lens.Lawful SigningConfig.storeFile fun v c => { c with storeFile := v } := {}

theorem Variant.proguardFiles_lawful :
    Lens.Lawful Variant.proguardFiles fun v x => { x with proguardFiles := v } := {}

instance : HasPaths BuildType where
  paths := .ofField _ _ BuildType.proguardFiles_lawful
  Rel := List.Forall₂
  refl hR _ := List.forall₂_same.2 fun p _ => hR p

instance : HasPaths SigningConfig where
  paths := .ofField _ _ SigningConfig.storeFile_lawful
  Rel := Option.Rel
  refl {R} hR := by
    rintro (_ | p)
    · exact .none
    · exact .some (hR p)

instance : HasPaths Variant where
  paths := .ofField _ _ Variant.proguardFiles_lawful
  Rel := List.Forall₂
  refl hR _ := List.forall₂_same.2 fun p _ => hR p

-- the directory of an application is that of its project, wherever documents are seen from
instance : HasPaths ApplicationExtension := .nowhere
instance : HasPaths DefaultConfig := .nowhere
instance : HasPaths ProductFlavor := .nowhere
instance : HasPaths CompileOptions := .nowhere
instance : HasPaths VariantBuilder := .nowhere

/-- The models hold the same objects, but for their paths, and these are related. -/
structure Model.Moved (R : Path → Path → Prop) (m m' : Model) : Prop where
  applications : m.applications.Related (Relocated R) m'.applications
  defaultConfigs : m.defaultConfigs.Related (Relocated R) m'.defaultConfigs
  buildTypes : m.buildTypes.Related (Relocated R) m'.buildTypes
  productFlavors : m.productFlavors.Related (Relocated R) m'.productFlavors
  signingConfigs : m.signingConfigs.Related (Relocated R) m'.signingConfigs
  compileOptions : m.compileOptions.Related (Relocated R) m'.compileOptions
  builders : m.builders.Related (Relocated R) m'.builders
  variants : m.variants.Related (Relocated R) m'.variants

theorem Model.Moved.refl (hR : ∀ p, R p p) (m : Model) : m.Moved R m := by
  constructor <;> exact .refl (.refl hR) _

/-- A type of objects of the model, whose heap is a part of its own. -/
class Movable (α : Type) [Stored Model α] [HasPaths α] : Prop where
  get : ∀ {R : Path → Path → Prop} {m m' : Model}, m.Moved R m' →
    ((Stored.heap : Lens Model (Heap α)).get m).Related (Relocated R)
      ((Stored.heap : Lens Model (Heap α)).get m')
  set : ∀ {R : Path → Path → Prop} {m m' : Model} {h h' : Heap α}, m.Moved R m' →
    h.Related (Relocated R) h' → ((Stored.heap : Lens Model (Heap α)).set h m).Moved R
      ((Stored.heap : Lens Model (Heap α)).set h' m')

instance : Movable ApplicationExtension where
  get hm := hm.applications
  set hm h := { hm with applications := h }

instance : Movable DefaultConfig where
  get hm := hm.defaultConfigs
  set hm h := { hm with defaultConfigs := h }

instance : Movable BuildType where
  get hm := hm.buildTypes
  set hm h := { hm with buildTypes := h }

instance : Movable ProductFlavor where
  get hm := hm.productFlavors
  set hm h := { hm with productFlavors := h }

instance : Movable SigningConfig where
  get hm := hm.signingConfigs
  set hm h := { hm with signingConfigs := h }

instance : Movable CompileOptions where
  get hm := hm.compileOptions
  set hm h := { hm with compileOptions := h }

instance : Movable VariantBuilder where
  get hm := hm.builders
  set hm h := { hm with builders := h }

instance : Movable Variant where
  get hm := hm.variants
  set hm h := { hm with variants := h }

section Movable

variable {α : Type} [Stored Model α] [HasPaths α] [Movable α]

theorem keeps_moved : Keeps (Model.Moved R) R α where
  get hm r := (Movable.get hm).cell r.id
  modify hm r _ _ hfg :=
    Movable.set hm ((Movable.get hm).put (hfg ((Movable.get hm).cell r.id)) r.id)

/-- New objects that are related get the same number. -/
theorem alloc_moved {a a' : α} (ha : Relocated R a a') {m m' : Model} (hm : m.Moved R m') :
    (alloc a' m').1 = (alloc a m).1 ∧ (alloc a m).2.Moved R (alloc a' m').2 := by
  obtain ⟨hid, hheap⟩ := (Movable.get hm : Heap.Related _ (Stored.heap.get m) _).alloc ha
  exact ⟨congrArg Ref.mk hid, Movable.set hm hheap⟩

end Movable

theorem Model.Moved.application {m m' : Model} (hm : m.Moved R m') (a : Ref ApplicationExtension) :
    a.get m' = a.get m :=
  (keeps_moved.get hm a).rest

theorem Model.Moved.outline {m m' : Model} (hm : m.Moved R m') : m'.outline = m.outline := by
  rw [Model.outline, Model.outline, hm.buildTypes.size, hm.productFlavors.size,
    hm.signingConfigs.size]
  exact congrArg (Outline.mk · _ _ _) (funext fun id => congrArg _ (hm.applications.cell id).rest)

/-! ## Declarations -/

instance : Pathless JavaVersion := ⟨fun _ => ⟨_, rfl⟩⟩

/-- What a build type takes over from another one are its files, among others. -/
theorem BuildType.initWith_relocated {b b' other other' : BuildType} (hb : Relocated R b b')
    (hother : Relocated R other other') : Relocated R (b.initWith other) (b'.initWith other') := by
  refine ⟨?_, List.rel_append hb.paths hother.paths⟩
  rw [hb.rest, hother.rest]
  rfl

section Declarations

open BuildReplay.Declaration

theorem BuildType.initWith_mirrors (b other : Ref BuildType) :
    Mirrors (Model.Moved R) Eq (.modify fun m => b.modify (·.initWith (other.get m)) m)
      (.modify fun m => b.modify (·.initWith (other.get m)) m) :=
  .modify fun hm =>
    keeps_moved.modify hm b fun hb => initWith_relocated hb (keeps_moved.get hm other)

variable (hR : ∀ p, R p p)
include hR

theorem BuildType.declarations_mirrored : ∀ d ∈ declarations, d.Mirrored (Model.Moved R) R := by
  simp only [declarations, List.forall_mem_cons, list_mirrored, map_mirrored, true_and]
  refine ⟨viewed_mirrored keeps_moved, ?_, ?_, ?_, ?_, ?_, ?_, ?_, List.forall_mem_nil _⟩
  iterate 6 exact stored_mirrored keeps_moved hR
  refine call_mirrored fun b args args' bs hargs => ?_
  rw [Access.during_bind, Access.during_bind]
  refine (argument_mirrors hargs 0).andThen fun other => ?_
  rcases BuildType.takeOver_cases b other bs with h | h <;> rw [h]
  · refine (Mirrors.read fun hm => ?_).andThen fun name => .throw (.refl _)
    exact ((keeps_moved.get hm b).congr fun _ _ => rfl).symm
  · exact (initWith_mirrors b other).andThen fun _ => .pure (.refl _)

theorem ApplicationExtension.declarations_mirrored :
    ∀ d ∈ declarations, d.Mirrored (Model.Moved R) R := by
  simp only [declarations, List.forall_mem_cons, list_mirrored, collection_mirrored, true_and]
  refine ⟨stored_mirrored keeps_moved hR, stored_mirrored keeps_moved hR,
    viewed_mirrored keeps_moved, viewed_mirrored keeps_moved, setter_mirrored keeps_moved, ?_,
    List.forall_mem_nil _⟩
  refine call_mirrored fun a args args' bs hargs => ?_
  rw [Access.during_bind, Access.during_bind]
  refine (argument_mirrors hargs 0).andThen fun name => .read fun hm => ?_
  dsimp only
  rw [hm.application]
  exact .refl _

theorem SigningConfig.declarations_mirrored :
    ∀ d ∈ declarations, d.Mirrored (Model.Moved R) R := by
  simp only [declarations, List.forall_mem_cons]
  refine ⟨viewed_mirrored keeps_moved, ?_, ?_, ?_, ?_, ?_, List.forall_mem_nil _⟩
  · exact placed_mirrored keeps_moved hR (·.paths) fun hfile h => h.set hfile
  iterate 4 exact stored_mirrored keeps_moved hR

theorem declarationTable_mirrored :
    ∀ e ∈ declarationTable, ∀ d ∈ e.2, d.Mirrored (Model.Moved R) R := by
  simp only [declarationTable, List.forall_mem_cons]
  refine ⟨ApplicationExtension.declarations_mirrored hR, ?_, BuildType.declarations_mirrored hR, ?_,
    SigningConfig.declarations_mirrored hR, ?_, ?_, ?_, List.forall_mem_nil _⟩
  · simp only [DefaultConfig.declarations, List.forall_mem_cons]
    refine ⟨?_, ?_, ?_, ?_, ?_, ?_, ?_, map_mirrored, List.forall_mem_nil _⟩
    iterate 7 exact stored_mirrored keeps_moved hR
  · simp only [ProductFlavor.declarations, List.forall_mem_cons]
    refine ⟨viewed_mirrored keeps_moved, ?_, ?_, ?_, ?_, map_mirrored, List.forall_mem_nil _⟩
    iterate 4 exact stored_mirrored keeps_moved hR
  · simp only [CompileOptions.declarations, List.forall_mem_cons]
    exact ⟨stored_mirrored keeps_moved hR, setter_mirrored keeps_moved,
      setter_mirrored keeps_moved, List.forall_mem_nil _⟩
  · simp only [VariantBuilder.declarations, List.forall_mem_cons]
    refine ⟨viewed_mirrored keeps_moved, ?_, ?_, ?_, ?_, List.forall_mem_nil _⟩
    iterate 4 exact stored_mirrored keeps_moved hR
  · simp only [Variant.declarations, List.forall_mem_cons]
    exact ⟨viewed_mirrored keeps_moved, property_mirrored, map_mirrored, list_mirrored,
      property_mirrored, List.forall_mem_nil _⟩

/-! ## The host -/

theorem shape?_mirrored {t : TypeRef} {shape : Shape Model} (h : shape? t = some shape) :
    shape.Mirrored (Model.Moved R) R := by
  obtain ⟨ds, hds, rfl⟩ := exists_of_shape? h
  exact (Shape.ofDeclarations_describedBy t ds).mirrored (declarationTable_mirrored hR _ hds)

theorem list?_mirrors {slot : Slot} {c : Collection Model} (h : list? slot = some c) {v w : Live}
    (hvw : Live.Alike R v w) : Mirrors (Model.Moved R) Eq (c.append v) (c.append w) := by
  unfold list? at h
  split at h
  · cases h
    exact Ref.append_mirrors_placed (β := Path) keeps_moved hvw hR fun hp hb =>
      hb.set (List.rel_append hb.paths (.cons hp .nil))
  · cases h
    exact Ref.append_mirrors keeps_moved hvw
  · cases h
    exact Ref.append_mirrors keeps_moved hvw
  · cases h
    exact Ref.append_mirrors_placed (β := Path) keeps_moved hvw hR fun hp hb =>
      hb.set (List.rel_append hb.paths (.cons hp .nil))
  · cases h

omit hR in
theorem map?_mirrors {slot : Slot} {c : MapSink Model} (h : map? slot = some c) (key : String)
    {v w : Live} (hvw : Live.Alike R v w) :
    Mirrors (Model.Moved R) Eq (c.insert key v) (c.insert key w) := by
  unfold map? at h
  split at h
  · cases h
    exact Ref.insert_mirrors keeps_moved hvw
  · cases h
    exact Ref.insert_mirrors keeps_moved hvw
  · cases h
    exact Ref.insert_mirrors keeps_moved hvw
  · cases h
    exact Ref.insert_mirrors keeps_moved hvw
  · cases h

omit hR in
theorem property?_mirrors {slot : Slot} {c : PropertyCell Model} (h : property? slot = some c)
    {v w : Live} (hvw : Live.Alike R v w) :
    Mirrors (Model.Moved R) Eq (c.set v) (c.set w) := by
  unfold property? at h
  split at h
  · cases h
    exact Ref.set_mirrors keeps_moved hvw
  · cases h
    exact Ref.set_mirrors keeps_moved hvw
  · cases h

/-- Both hosts make the element of a name, or have made it, under the same number. -/
theorem maybeCreate_mirrors {β : Type} [Stored Model β] [HasPaths β] [Movable β]
    (a : Ref ApplicationExtension) (field : Lens ApplicationExtension (List (String × Ref β)))
    (make : String → β) (name : String) :
    Mirrors (Model.Moved R) Eq ((a.collection field make).maybeCreate name)
      ((a.collection field make).maybeCreate name) := by
  intro m m' hm
  have hentries : (a.collection field make).entries.get m' =
      (a.collection field make).entries.get m := congrArg field.get (hm.application a)
  have hfind : (a.collection field make).find? name m' =
      (a.collection field make).find? name m := by
    rw [NamedCollection.find?, NamedCollection.find?, hentries]
  rw [NamedCollection.maybeCreate_gives, NamedCollection.maybeCreate_gives]
  cases h : (a.collection field make).find? name m with
  | some r =>
      rw [NamedCollection.obtain_of_find? h, NamedCollection.obtain_of_find? (hfind.trans h)]
      exact ⟨.ok rfl, hm⟩
  | none =>
      rw [NamedCollection.obtain_of_find?_none h,
        NamedCollection.obtain_of_find?_none (hfind.trans h)]
      obtain ⟨hnew, hm₁⟩ := alloc_moved (Relocated.refl hR (make name)) hm
      refine ⟨.ok (congrArg (a.collection field make).handle hnew.symm), ?_⟩
      change Model.Moved R (a.modify (field.modify (· ++ [(name, (alloc (make name) m).1)])) _)
        (a.modify (field.modify (· ++ [(name, (alloc (make name) m').1)])) _)
      rw [hnew]
      exact keeps_moved.modify hm₁ a fun hx => hx.map fun _ _ => rfl

theorem host_mirrored : host.Mirrored (Model.Moved R) R where
  shapeOf t := by
    cases h : shape? t with
    | some shape =>
        rw [host_shapeOf_some h]
        exact .pure ⟨rfl, shape?_mirrored hR h⟩
    | none =>
        rw [host_shapeOf_none h]
        exact .throw (.refl _)
  append slot v w hvw := by
    unfold Host.append
    split
    · exact list?_mirrors hR ‹_› hvw
    · exact .throw (.refl _)
  insert slot key v w hvw := by
    unfold Host.insert
    split
    · exact map?_mirrors ‹_› key hvw
    · exact .throw (.refl _)
  setProperty slot v w hvw := by
    unfold Host.setProperty
    split
    · exact property?_mirrors ‹_› hvw
    · exact .throw (.refl _)
  maybeCreate slot name := by
    unfold Host.maybeCreate
    split
    · rename_i c hc
      obtain ⟨a, f, -, rfl⟩ := exists_of_named? hc
      cases f <;> exact maybeCreate_mirrors hR a _ _ name
    · exact .throw (.refl _)
  getByName slot name := by
    unfold Host.getByName
    split
    · rename_i c hc
      obtain ⟨a, f, -, rfl⟩ := exists_of_named? hc
      exact .read fun hm => (CollectionField.getByName_congr a f hm.outline name).symm
    · exact .pure rfl

end Declarations

end Android

end BuildReplay
