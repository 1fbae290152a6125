import BuildReplay.Proofs.Android.Growth
import BuildReplay.Proofs.Declared

/-! # The outline of the application model

Which objects there are and how the applications hold them. Only the making of elements changes the
outline; keys change what the objects contain, and let them lose nothing. -/

namespace BuildReplay.Android

open Act Law

/-- The objects that an application holds. -/
structure Links where
  defaultConfig : Ref DefaultConfig
  buildTypes : List (String × Ref BuildType)
  productFlavors : List (String × Ref ProductFlavor)
  signingConfigs : List (String × Ref SigningConfig)
  compileOptions : Ref CompileOptions

def ApplicationExtension.links (a : ApplicationExtension) : Links :=
  ⟨a.defaultConfig, a.buildTypes, a.productFlavors, a.signingConfigs, a.compileOptions⟩

/-- The objects of each application, and how many elements were made. -/
structure Outline where
  links : Nat → Links
  buildTypes : Nat
  productFlavors : Nat
  signingConfigs : Nat

def Model.outline (m : Model) : Outline where
  links id := (m.applications.cell id).links
  buildTypes := m.buildTypes.size
  productFlavors := m.productFlavors.size
  signingConfigs := m.signingConfigs.size

/-! ## Edits -/

/-- A key edits a model: there are the same objects before and after it, and none loses anything. -/
structure Model.Edits (m m' : Model) : Prop where
  outline : m'.outline = m.outline
  grows : m.Grows m'

/-- Objects that a key may change in some ways. -/
class Editable (α : Type) [Stored Model α] where
  /-- The object may become the other one. -/
  Edits : α → α → Prop
  modify_edits : ∀ {r : Ref α} {f : α → α} {m : Model}, (∀ x, Edits x (f x)) → m.Edits (r.modify f m)

instance : Editable ApplicationExtension where
  Edits a a' := a'.links = a.links ∧ a.flavorDimensions <+: a'.flavorDimensions
  modify_edits {r f m} h := by
    obtain ⟨hlinks, hdimensions⟩ := h (m.applications.cell r.id)
    refine ⟨?_, { Model.Grows.refl m with applications := fun id => ?_ }⟩
    · refine congrArg (fun links => ({ m.outline with links } : Outline)) (funext fun id => ?_)
      exact Heap.cell_put_congr ApplicationExtension.links hlinks id
    · refine Heap.cell_put_related .refl ?_ id
      obtain ⟨hdefault, hbuildTypes, hflavors, hsigning, hcompile⟩ := Links.mk.inj hlinks
      exact ⟨hdefault, hbuildTypes ▸ List.prefix_rfl, hflavors ▸ List.prefix_rfl,
        hsigning ▸ List.prefix_rfl, hcompile, hdimensions⟩

instance : Editable BuildType where
  Edits := BuildType.Grows
  modify_edits {_ _ m} h :=
    ⟨rfl, { Model.Grows.refl m with buildTypes := Heap.grows_put .refl (h _) }⟩

instance : Editable ProductFlavor where
  Edits := ProductFlavor.Grows
  modify_edits {_ _ m} h :=
    ⟨rfl, { Model.Grows.refl m with productFlavors := Heap.grows_put .refl (h _) }⟩

instance : Editable SigningConfig where
  Edits := SigningConfig.Grows
  modify_edits {_ _ m} h :=
    ⟨rfl, { Model.Grows.refl m with signingConfigs := Heap.grows_put .refl (h _) }⟩

instance : Editable DefaultConfig where
  Edits := DefaultConfig.Grows
  modify_edits {_ _ m} h :=
    ⟨rfl, { Model.Grows.refl m with defaultConfigs := Heap.cell_put_related .refl (h _) }⟩

-- nothing of these belongs to what an application could lose
instance : Editable CompileOptions where
  Edits _ _ := True
  modify_edits {_ _ m} _ := ⟨rfl, { Model.Grows.refl m with }⟩

instance : Editable VariantBuilder where
  Edits _ _ := True
  modify_edits {_ _ m} _ := ⟨rfl, { Model.Grows.refl m with }⟩

instance : Editable Variant where
  Edits := Variant.Grows
  modify_edits {_ _ m} h :=
    ⟨rfl, { Model.Grows.refl m with variants := Heap.grows_put .refl (h _) }⟩

instance : Refusing JavaVersion := ⟨refusing_enumerated⟩

section Edits

variable {b b' : BuildType} {f f' : ProductFlavor} {c c' : SigningConfig} {d d' : DefaultConfig}

@[simp] theorem edits_buildType : Editable.Edits b b' ↔ b.Grows b' := Iff.rfl

@[simp] theorem edits_productFlavor : Editable.Edits f f' ↔ f.Grows f' := Iff.rfl

@[simp] theorem edits_signingConfig : Editable.Edits c c' ↔ c.Grows c' := Iff.rfl

@[simp] theorem edits_defaultConfig : Editable.Edits d d' ↔ d.Grows d' := Iff.rfl

@[simp] theorem edits_compileOptions (o o' : CompileOptions) : Editable.Edits o o' := trivial

@[simp] theorem edits_variantBuilder (x x' : VariantBuilder) : Editable.Edits x x' := trivial

end Edits

/-! ## Declarations -/

section Host

variable {I : Model → Prop} {P : Error → Prop}
  (hI : ∀ {m m' : Model}, m.Edits m' → I m → I m') (hP : ∀ message, P (.host message))
include hI hP

section Declarations

variable {α β : Type} [Stored Model α] [Editable α] [OfLive β] [Refusing β]

theorem stored_obeys [ToLive β] (name : String) (type : ValueType) (get : α → β)
    {set : β → α → α} (hset : ∀ b x, Editable.Edits x (set b x)) :
    (Declaration.stored name type get set : Declaration Model).Obeys (keeps I P) :=
  Declaration.stored_keeps hP fun _ b _ => hI (Editable.modify_edits (hset b))

theorem setter_obeys (name : String) (param : ValueType) {set : β → α → α}
    (hset : ∀ b x, Editable.Edits x (set b x)) :
    (Declaration.setter name param set : Declaration Model).Obeys (keeps I P) :=
  Declaration.setter_keeps hP fun _ b _ => hI (Editable.modify_edits (hset b))

end Declarations

omit hI hP in
/-- A build type is not taken over while somebody is changing it. -/
theorem BuildType.takeOver_refused {other : Ref BuildType} {bs : Borrows} (b : Ref BuildType)
    (h : BorrowMode.shared.take (bs other.object) = none) :
    (BuildType.takeOver b other).during bs = (do
      let name ← .read fun m => (b.get m : BuildType).name
      throw (.host (selfRefusal name))) := by
  rw [takeOver, Access.during_lending_of_none _ _ h]
  simp only [Access.during_bind, Access.during_read, Access.during_fail]

omit hI hP in
theorem BuildType.takeOver_granted {other : Ref BuildType} {bs : Borrows} {lent : Borrow}
    (b : Ref BuildType) (h : BorrowMode.shared.take (bs other.object) = some lent) :
    (BuildType.takeOver b other).during bs = (do
      .modify fun m => b.modify (fun t => t.initWith (other.get m)) m
      return .nothing) := by
  rw [takeOver, Access.during_lending _ _ h]
  simp only [Access.during_bind, Access.during_modify, Access.during_pure]

omit hI hP in
/-- A build type that is being changed is lent to nobody, so that it cannot be what it is
initialized with; every other one can. -/
theorem BuildType.takeOver_eq (b other : Ref BuildType) :
    (BuildType.takeOver b other).during (Borrows.nothing.set b.object .writer) =
      if other = b then do
        let name ← .read fun m => (b.get m : BuildType).name
        throw (.host (selfRefusal name))
      else do
        .modify fun m => b.modify (fun t => t.initWith (other.get m)) m
        return .nothing := by
  by_cases hother : other = b
  · subst hother
    rw [if_pos rfl]
    exact takeOver_refused other (by rw [Borrows.set_self]; rfl)
  · have hfree : (Borrows.nothing.set b.object .writer) other.object = .readers 0 :=
      if_neg fun heq => hother (Ref.object_inj.1 heq)
    rw [if_neg hother]
    exact takeOver_granted b (by rw [hfree]; rfl)

omit hI hP in
theorem BuildType.takeOver_cases (b other : Ref BuildType) (bs : Borrows) :
    (BuildType.takeOver b other).during bs = (do
      let name ← .read fun m => (b.get m : BuildType).name
      throw (.host (selfRefusal name))) ∨
    (BuildType.takeOver b other).during bs = (do
      .modify fun m => b.modify (fun t => t.initWith (other.get m)) m
      return .nothing) := by
  cases h : BorrowMode.shared.take (bs other.object) with
  | none => exact .inl (takeOver_refused b h)
  | some lent => exact .inr (takeOver_granted b h)

omit hI in
theorem BuildType.initWith_keeps (b : Ref BuildType) (args : List Live) (bs : Borrows)
    (h : ∀ (other : Ref BuildType) m, I m →
      I (b.modify (fun t => t.initWith (other.get m)) m)) :
    (keeps I P).Obeys (Access.during (do BuildType.takeOver b (← argument args 0)) bs) := by
  rw [Access.during_bind]
  refine andThen (Declaration.ofLive_keeps hP _) fun other => ?_
  rcases BuildType.takeOver_cases b other bs with hcase | hcase <;> rw [hcase]
  · exact andThen (keeps_read _) fun name => Law.throw _ (hP _)
  · exact andThen (keeps_modify (h other)) fun _ => Law.pure _ _

theorem BuildType.declarations_obey :
    ∀ d ∈ BuildType.declarations, d.Obeys (keeps I P) := by
  simp only [BuildType.declarations, List.forall_mem_cons, Declaration.viewed_keeps hP,
    Declaration.list_keeps hP, Declaration.map_keeps hP, true_and]
  refine ⟨?_, ?_, ?_, ?_, ?_, ?_, ?_, fun d hd => absurd hd List.not_mem_nil⟩
  iterate 6 exact stored_obeys hI hP _ _ _ (by simp [BuildType.grows_iff])
  refine Declaration.call_keeps hP fun b args bs => ?_
  exact BuildType.initWith_keeps hP b args bs fun other m =>
    hI (Editable.modify_edits fun t => t.initWith_grows _)

theorem ApplicationExtension.declarations_obey :
    ∀ d ∈ ApplicationExtension.declarations, d.Obeys (keeps I P) := by
  simp only [ApplicationExtension.declarations, List.forall_mem_cons, Declaration.viewed_keeps hP,
    Declaration.collection_keeps hP, Declaration.list_keeps hP, true_and]
  refine ⟨?_, ?_, ?_, ?_, fun d hd => absurd hd List.not_mem_nil⟩
  · refine stored_obeys hI hP _ _ _ fun _ _ => ?_
    exact ⟨rfl, List.prefix_rfl⟩
  · refine stored_obeys hI hP _ _ _ fun _ _ => ?_
    exact ⟨rfl, List.prefix_rfl⟩
  · refine setter_obeys hI hP _ _ fun _ _ => ?_
    exact ⟨rfl, List.prefix_rfl⟩
  · refine Declaration.call_keeps hP fun a args bs => ?_
    rw [Access.during_bind]
    exact andThen (Declaration.ofLive_keeps hP _) fun name => keeps_read _

theorem declarationTable_obeys :
    ∀ e ∈ declarationTable, ∀ d ∈ e.2, d.Obeys (keeps I P) := by
  simp only [declarationTable, List.forall_mem_cons]
  refine ⟨ApplicationExtension.declarations_obey hI hP, ?_,
    BuildType.declarations_obey hI hP, ?_, ?_, ?_, ?_, ?_,
    fun e he => absurd he List.not_mem_nil⟩
  · simp [DefaultConfig.declarations, stored_obeys hI hP, Declaration.map_keeps hP,
      DefaultConfig.grows_iff]
  · simp [ProductFlavor.declarations, stored_obeys hI hP, Declaration.viewed_keeps hP,
      Declaration.map_keeps hP, ProductFlavor.grows_iff]
  · simp [SigningConfig.declarations, stored_obeys hI hP, Declaration.viewed_keeps hP,
      SigningConfig.grows_iff]
  · simp [CompileOptions.declarations, stored_obeys hI hP, setter_obeys hI hP]
  · simp [VariantBuilder.declarations, stored_obeys hI hP, Declaration.viewed_keeps hP]
  · simp [Variant.declarations, Declaration.viewed_keeps hP, Declaration.property_keeps hP,
      Declaration.map_keeps hP, Declaration.list_keeps hP]

/-! ## The host -/

omit hI hP in
theorem exists_of_shape? {t : TypeRef} {shape : Shape Model} (h : shape? t = some shape) :
    ∃ ds, (t, ds) ∈ declarationTable ∧ shape = .ofDeclarations t ds := by
  obtain ⟨⟨t', ds⟩, hfind, rfl⟩ := Option.map_eq_some_iff.1 h
  obtain rfl : t' = t := by simpa using List.find?_some hfind
  exact ⟨ds, List.mem_of_find?_eq_some hfind, rfl⟩

omit hI hP in
theorem host_shapeOf_some {t : TypeRef} {shape : Shape Model} (h : shape? t = some shape) :
    host.shapeOf t = pure shape := by
  simp only [host, h]

omit hI hP in
theorem host_shapeOf_none {t : TypeRef} (h : shape? t = none) :
    host.shapeOf t = throw (.host ("unknown type " ++ t.name)) := by
  simp only [host, h]

omit hI hP in
theorem host_shapeOf_gives {t : TypeRef} {m m' : Model} {shape : Shape Model} :
    (host.shapeOf t).Gives m shape m' ↔ shape? t = some shape ∧ m = m' := by
  cases h : shape? t with
  | some shape' =>
      rw [host_shapeOf_some h]
      simp
  | none =>
      rw [host_shapeOf_none h]
      simp

omit hI hP in
/-- No type of the model has factories. -/
theorem factory?_eq_none {t : TypeRef} {m m' : Model} {shape : Shape Model}
    (h : (host.shapeOf t).Gives m shape m') (name : String) : shape.factory? name = none := by
  have hall : (declarationTable.all fun e => e.2.all fun d => d.factory?.isNone) = true := rfl
  obtain ⟨ds, hmem, rfl⟩ := exists_of_shape? (host_shapeOf_gives.1 h).1
  cases hf : (Shape.ofDeclarations t ds).factory? name with
  | none => rfl
  | some f =>
      have hd := ((Shape.ofDeclarations_describedBy t ds).factories hf).1
      cases List.all_eq_true.1 (List.all_eq_true.1 hall _ hmem) _ hd

theorem shape?_obeys {t : TypeRef} {shape : Shape Model} (h : shape? t = some shape) :
    shape.Obeys (keeps I P) := by
  obtain ⟨ds, hds, rfl⟩ := exists_of_shape? h
  exact (Shape.ofDeclarations_describedBy t ds).obeys (declarationTable_obeys hI hP _ hds)

theorem list?_obeys {slot : Slot} {c : Collection Model} (h : list? slot = some c) (v : Live) :
    (keeps I P).Obeys (c.append v) := by
  unfold list? at h
  split at h
  · cases h
    refine Ref.append_keeps hP fun b m => hI (Editable.modify_edits fun x => ?_)
    exact ⟨rfl, List.prefix_append _ _, List.prefix_rfl, List.Subset.refl _⟩
  · cases h
    refine Ref.append_keeps hP fun b m => hI (Editable.modify_edits fun x => ?_)
    exact ⟨rfl, List.prefix_rfl, List.prefix_append _ _, List.Subset.refl _⟩
  · cases h
    refine Ref.append_keeps hP fun b m => hI (Editable.modify_edits fun x => ?_)
    exact ⟨rfl, List.prefix_append _ _⟩
  · cases h
    refine Ref.append_keeps hP fun b m => hI (Editable.modify_edits fun x => ?_)
    exact ⟨rfl, List.Subset.refl _, List.prefix_append _ _⟩
  · cases h

theorem map?_obeys {slot : Slot} {c : MapSink Model} (h : map? slot = some c) (key : String)
    (v : Live) : (keeps I P).Obeys (c.insert key v) := by
  unfold map? at h
  split at h
  · cases h
    refine Ref.insert_keeps hP fun b m => hI (Editable.modify_edits fun x => ?_)
    exact ⟨rfl, List.prefix_rfl, List.prefix_rfl, Dictionary.keys_subset_insert _ _ _⟩
  · cases h
    refine Ref.insert_keeps hP fun b m => hI (Editable.modify_edits fun x => ?_)
    exact ⟨rfl, Dictionary.keys_subset_insert _ _ _⟩
  · cases h
    refine Ref.insert_keeps hP fun b m => hI (Editable.modify_edits fun x => ?_)
    exact ⟨Dictionary.keys_subset_insert _ _ _⟩
  · cases h
    refine Ref.insert_keeps hP fun b m => hI (Editable.modify_edits fun x => ?_)
    exact ⟨rfl, Dictionary.keys_subset_insert _ _ _, List.prefix_rfl⟩
  · cases h

theorem property?_obeys {slot : Slot} {c : PropertyCell Model} (h : property? slot = some c)
    (v : Live) : (keeps I P).Obeys (c.set v) := by
  unfold property? at h
  split at h
  · cases h
    refine Ref.set_keeps hP fun b m => hI (Editable.modify_edits fun x => ?_)
    exact ⟨rfl, List.Subset.refl _, List.prefix_rfl⟩
  · cases h
    refine Ref.set_keeps hP fun b m => hI (Editable.modify_edits fun x => ?_)
    exact ⟨rfl, List.Subset.refl _, List.prefix_rfl⟩
  · cases h

/-- Where elements are not made, the host edits the model only, and every refusal is its own. -/
theorem host_obeys : host.Obeys (keeps I P) where
  shapeOf t := by
    cases h : shape? t with
    | some shape => exact host_shapeOf_some h ▸ Law.pure _ _
    | none => exact host_shapeOf_none h ▸ Law.throw _ (hP _)
  shape h := shape?_obeys hI hP (host_shapeOf_gives.1 h).1
  append slot v := by
    unfold Host.append
    split
    · exact list?_obeys hI hP ‹_› v
    · exact Law.throw _ (hP _)
  insert slot key v := by
    unfold Host.insert
    split
    · exact map?_obeys hI hP ‹_› key v
    · exact Law.throw _ (hP _)
  setProperty slot v := by
    unfold Host.setProperty
    split
    · exact property?_obeys hI hP ‹_› v
    · exact Law.throw _ (hP _)
  getByName := getByName_keeps host

end Host

/-! ## Objects that hold no others

Only keys of an application go on into other objects. -/

/-- Reading the field never gives an object or a collection. -/
def Declaration.Leaf : Declaration Model → Prop
  | .settable f | .readOnly f => ∀ {self m live}, f.read self m = .ok live → live.next = .done
  | _ => True

section Leaf

variable {α β : Type} [Stored Model α] [ToLive β] [Plain β]

@[simp] theorem stored_leaf [OfLive β] (name : String) (type : ValueType) (get : α → β)
    (set : β → α → α) : Declaration.Leaf (.stored name type get set) := by
  intro self m live hread
  obtain ⟨x, rfl, rfl⟩ := getter_eq_ok.1 hread
  exact Live.next_eq_done (Plain.isHandle_toLive _)

@[simp] theorem viewed_leaf (name : String) (type : ValueType) (get : α → β) :
    Declaration.Leaf (.viewed name type get) := by
  intro self m live hread
  obtain ⟨x, rfl, rfl⟩ := getter_eq_ok.1 hread
  exact Live.next_eq_done (Plain.isHandle_toLive _)

omit [ToLive β] [Plain β] in
@[simp] theorem setter_leaf [OfLive β] (name : String) (param : ValueType) (set : β → α → α) :
    Declaration.Leaf (.setter name param set) := trivial

omit [Stored Model α]

variable [Described α]

@[simp] theorem list_leaf (name : String) (element : ValueType) :
    Declaration.Leaf (.list α name element) := by
  intro self m live hread
  obtain ⟨x, rfl, rfl⟩ := getter_eq_ok.1 hread
  rfl

@[simp] theorem map_leaf (name : String) (value : ValueType) :
    Declaration.Leaf (.map α name value) := by
  intro self m live hread
  obtain ⟨x, rfl, rfl⟩ := getter_eq_ok.1 hread
  rfl

@[simp] theorem property_leaf (name : String) (inner : ValueType) :
    Declaration.Leaf (.property α name inner) := by
  intro self m live hread
  obtain ⟨x, rfl, rfl⟩ := getter_eq_ok.1 hread
  rfl

@[simp] theorem call_leaf (name : String) (params : List ValueType)
    (body : Ref α → List Live → Access Model Live) : Declaration.Leaf (.call name params body) :=
  trivial

end Leaf

theorem declarationTable_leaf :
    ∀ e ∈ declarationTable, e.1 ≠ typeRef ApplicationExtension → ∀ d ∈ e.2, Declaration.Leaf d := by
  simp only [declarationTable, List.forall_mem_cons]
  refine ⟨fun h => absurd rfl h, ?_, ?_, ?_, ?_, ?_, ?_, ?_, fun e he => absurd he List.not_mem_nil⟩
    <;> intro _
  · simp [DefaultConfig.declarations]
  · simp [BuildType.declarations]
  · simp [ProductFlavor.declarations]
  · simp [SigningConfig.declarations]
  · simp [CompileOptions.declarations]
  · simp [VariantBuilder.declarations]
  · simp [Variant.declarations]

/-- The keys of every type but the application end at the objects of the type. -/
theorem shape?_leaf {t : TypeRef} (ht : t ≠ typeRef ApplicationExtension) {shape : Shape Model}
    (h : shape? t = some shape) : shape.Leaf := by
  obtain ⟨ds, hmem, rfl⟩ := exists_of_shape? h
  have hds := Shape.ofDeclarations_describedBy t ds
  intro f hf self m live hread
  obtain ⟨name, hf | hf⟩ := hf
  · exact declarationTable_leaf _ hmem ht _ (hds.settable hf).1 hread
  · exact declarationTable_leaf _ hmem ht _ (hds.readOnly hf).1 hread

/-- A table for such an object leaves the outline as it is. -/
theorem populate_outline {sc : Scope Model}
    (hsc : ∀ o, sc.Obeys (keeps (·.outline = o) fun _ => True)) {r : ObjectRef}
    (hr : r.type ≠ typeRef ApplicationExtension) (t : Table) (m : Model) :
    (populate host sc r t m).2.outline = m.outline := by
  have hhost : host.Obeys (keeps (·.outline = m.outline) fun _ => True) :=
    host_obeys (fun h h' => h.outline.trans h') fun _ => trivial
  suffices h : (keeps (·.outline = m.outline) fun _ => True).Obeys (populate host sc r t) from
    (h m rfl).1
  unfold populate
  rw [walkNext_object]
  refine Law.bind _ (hhost.shapeOf _) fun _ hgives => ?_
  have hleaf : Shape.Leaf _ := shape?_leaf hr (host_shapeOf_gives.1 hgives).1
  have hshape := hhost.shape hgives
  exact hleaf.walkEntries_obeys hhost hshape ((hsc _).enter_object hshape r) (fun _ _ => trivial) r t

end BuildReplay.Android
