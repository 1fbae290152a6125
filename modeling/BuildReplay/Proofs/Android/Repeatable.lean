import BuildReplay.Proofs.Android.History
import BuildReplay.Proofs.Android.KeyOrder
import BuildReplay.Proofs.Repeatable

/-! # Documents that are applied again

A document that takes over no build type, sends no request and adds to no list changes an
application once. Two of its keys may write one setting, and elements are made the first time only,
but what it does the second time overwrites what it did the first time. -/

namespace BuildReplay.Android

/-- The parts of what an application contains, with the changes of repeatable tables. -/
def Contents.settlingCells : Cells Contents :=
  .ofList <| settingsAnd [
    (.field "defaultConfig", .object defaultConfigLens DefaultConfig.cells.overwrites_settled),
    (.field "buildTypes",
      .elements buildTypesLens BuildType.new BuildType.cells.overwrites_settled),
    (.field "productFlavors",
      .elements productFlavorsLens ProductFlavor.new ProductFlavor.cells.overwrites_settled),
    (.field "signingConfigs",
      .elements signingConfigsLens SigningConfig.new SigningConfig.cells.overwrites_settled),
    (.field "compileOptions", .object compileOptionsLens CompileOptions.cells.overwrites_settled)]

/-! ## Keys of an application -/

section Keys

variable {β : Type} [Stored Model β] {shape : Shape Model} {cells : Cells β}
  (hown : OwnType host shape cells IsBarred)
  (hcells : ∀ {key}, shape.bindsList key = false → Overwrites (cells.ofKey shape key))
  (hshape : shape? (typeRef β) = some shape) (sc : Scope Model) {key : String} {v : Value}
  (hv : ∀ t : Table, v = .table t →
    t.Repeatable shape? IsBarred (applicationShape.subject key))
include hown hcells hshape hv

/-- A key of an object that the application has. -/
theorem object_repeatable {ref : ApplicationExtension → Ref β} {k : Lens Contents β}
    {f : Field Model} (hf : .readOnly f ∈ ApplicationExtension.declarations)
    (htype : f.type = .object (typeRef β))
    (hbinding : applicationShape.binding? key = some (.field f.name))
    (hread : ∀ (a : Ref ApplicationExtension) (m : Model),
      f.read a.object m = .ok (.object (ref (a.get m)).object)) (hnests : Nests ref k) :
    applicationTrack.Alike (cells.settled.map k.lift) (keyOf host sc applicationShape (key, v))
      (keyOf host sc applicationShape (key, v)) := by
  simp only [Shape.subject, route_of_field hf hbinding, htype, ValueType.subject] at hv
  refine object_lift sc (.same v) hf hbinding hread hnests
    (fun g hg => Submonoid.mem_map_of_mem k.lift hg) fun t t' ht ht' => ?_
  obtain rfl : t = t' := Value.table.inj (ht.symm.trans ht')
  exact hown.populate_repeatable hcells hshape (sc.key key) (hv t ht)

/-- A key of a collection that the application has. -/
theorem collection_repeatable {field : Lens ApplicationExtension (List (String × Ref β))}
    {k : Lens Contents (String → Option β)} {make : String → β} {fieldName : String}
    (hf : .readOnly (.held ApplicationExtension fieldName (.named (typeRef β))
      (.named (typeRef β))) ∈ ApplicationExtension.declarations)
    (hbinding : applicationShape.binding? key = some (.field fieldName))
    (hcollects : Collects field k)
    (hnamed : ∀ a : Ref ApplicationExtension,
      host.named? ⟨a.object, fieldName⟩ = some (a.collection field make)) :
    applicationTrack.Alike (k.elements make cells.settled) (keyOf host sc applicationShape (key, v))
      (keyOf host sc applicationShape (key, v)) := by
  have hroute := route_of_field hf hbinding
  simp only [Shape.subject, hroute] at hv
  by_cases htable : v.isTable
  · obtain ⟨t, rfl⟩ := Value.exists_of_isTable htable
    rw [keyOf_elements hroute]
    cases hv t rfl with
    | elements hbelow =>
        refine Track.Alike.inOrder (List.forall₂_same.2 fun e he => ?_)
        refine element_lift (sc.key key) (.same e.2) hcollects hnamed e.1
          (fun f hf => k.upsert_mem_elements make hf e.1) fun t t' ht ht' => ?_
        obtain rfl : t = t' := Value.table.inj (ht.symm.trans ht')
        exact hown.populate_repeatable hcells hshape _ (hbelow e.1 t (ht ▸ he))
  · rw [keyOf_elements_refused hroute (by simpa using htable)]
    exact .throw _ _

end Keys

/-- Every key of a repeatable table changes a part of its own. -/
theorem key_repeatable (sc : Scope Model) {key : String} {v : Value} (hkey : ¬IsBarred key)
    (hv : ∀ t : Table, v = .table t →
      t.Repeatable shape? IsBarred (applicationShape.subject key)) :
    applicationTrack.Alike (Contents.settlingCells.ofKey applicationShape key)
      (keyOf host sc applicationShape (key, v)) (keyOf host sc applicationShape (key, v)) := by
  by_cases hnested : ApplicationExtension.IsNested key
  · obtain ⟨name, hname, hbinding⟩ := hnested.resolve_left hkey
    rw [Cells.ofKey, hbinding]
    simp only [ApplicationExtension.nested, List.mem_cons, List.not_mem_nil, or_false] at hname
    rcases hname with rfl | rfl | rfl | rfl | rfl
    · exact object_repeatable DefaultConfig.ownType
        (Cells.overwrites_ofKey (Shape.ofDeclarations_describedBy _ _) (by decide)) rfl sc hv
        (List.mem_of_getElem? (i := 2) rfl) rfl hbinding (fun _ _ => rfl) nests_defaultConfig
    · exact collection_repeatable BuildType.ownType
        (Cells.overwrites_ofKey (Shape.ofDeclarations_describedBy _ _) (by decide)) rfl sc hv
        (List.mem_of_getElem? (i := 3) rfl) hbinding collects_buildTypes fun _ => rfl
    · exact collection_repeatable ProductFlavor.ownType
        (Cells.overwrites_ofKey (Shape.ofDeclarations_describedBy _ _) (by decide)) rfl sc hv
        (List.mem_of_getElem? (i := 4) rfl) hbinding collects_productFlavors fun _ => rfl
    · exact collection_repeatable SigningConfig.ownType
        (Cells.overwrites_ofKey (Shape.ofDeclarations_describedBy _ _) (by decide)) rfl sc hv
        (List.mem_of_getElem? (i := 5) rfl) hbinding collects_signingConfigs fun _ => rfl
    · exact object_repeatable CompileOptions.ownType
        (Cells.overwrites_ofKey (Shape.ofDeclarations_describedBy _ _) (by decide)) rfl sc hv
        (List.mem_of_getElem? (i := 6) rfl) rfl hbinding (fun _ _ => rfl) nests_compileOptions
  · exact setting_alike sc (.same v) hnested fun _ _ _ => .inl rfl

/-- What a repeatable table does to an application overwrites what it changes. -/
theorem populate_application_repeatable (sc : Scope Model) {d : Table}
    (hd : d.Repeatable shape? IsBarred (.object (typeRef ApplicationExtension))) :
    applicationTrack.Alike Contents.settlingCells.settled
      (fun i => populate host ⟨sc.options, sc.path, i.2⟩ i.1.object d)
      fun i => populate host ⟨sc.options, sc.path, i.2⟩ i.1.object d := by
  refine populate_repeatable sc host_shapeOf_application rfl (fun key v hkey hlist hbelow => ?_) hd
  have hoverwrites : Overwrites (Contents.settlingCells.ofKey applicationShape key) :=
    Cells.overwrites_ofKey (Shape.ofDeclarations_describedBy _ _) (by decide) hlist
  exact (key_repeatable sc hkey hbelow).mono (Cells.ofKey_le_settled hoverwrites)

/-! ## Applications that stay as they are -/

/-- The application is the same in both states: it has the same settings and the same objects, and
these hold the same. -/
structure Unchanged (a : Ref ApplicationExtension) (m m' : Model) : Prop where
  application : a.get m' = a.get m
  defaultConfig : (a.get m).defaultConfig.get m' = (a.get m).defaultConfig.get m
  compileOptions : (a.get m).compileOptions.get m' = (a.get m).compileOptions.get m
  buildTypes : ∀ e ∈ (a.get m).buildTypes, e.2.get m' = e.2.get m
  productFlavors : ∀ e ∈ (a.get m).productFlavors, e.2.get m' = e.2.get m
  signingConfigs : ∀ e ∈ (a.get m).signingConfigs, e.2.get m' = e.2.get m

attribute [ext] ApplicationExtension

/-- An application that loses nothing and contains the same is the same. -/
theorem Unchanged.of_contents {a : Ref ApplicationExtension} {m m' : Model}
    (hm : (a.get m).Sound m) (hm' : (a.get m').Sound m') (hgrows : m.Grows m')
    (h : (a.get m').contents m' = (a.get m).contents m) : Unchanged a m m' := by
  have hkept := hgrows.applications a.id
  have happlication : a.get m' = a.get m :=
    ApplicationExtension.ext (congrArg Contents.packageName h) (congrArg Contents.compileSdk h)
      (congrArg Contents.resourcePrefix h) hkept.defaultConfig
      (hm.buildTypes.entries_eq hm'.buildTypes hkept.buildTypes (congrArg Contents.buildTypes h))
      (hm.productFlavors.entries_eq hm'.productFlavors hkept.productFlavors
        (congrArg Contents.productFlavors h))
      (hm.signingConfigs.entries_eq hm'.signingConfigs hkept.signingConfigs
        (congrArg Contents.signingConfigs h))
      hkept.compileOptions (congrArg Contents.flavorDimensions h) (congrArg Contents.projectDir h)
  rw [happlication] at hm' h
  exact {
    application := happlication
    defaultConfig := congrArg Contents.defaultConfig h
    compileOptions := congrArg Contents.compileOptions h
    buildTypes := fun e he =>
      hm.buildTypes.cell_eq hm'.buildTypes (congrArg Contents.buildTypes h) he
    productFlavors := fun e he =>
      hm.productFlavors.cell_eq hm'.productFlavors (congrArg Contents.productFlavors h) he
    signingConfigs := fun e he =>
      hm.signingConfigs.cell_eq hm'.signingConfigs (congrArg Contents.signingConfigs h) he }

/-- A repeatable document that was accepted is accepted again, and then leaves the application as it
is: its settings, its elements in the order of their creation, and all that these hold. -/
theorem replay_again (options : Options) (start : String) {a : Ref ApplicationExtension}
    {m m₁ : Model} (hm : (a.get m).Sound m) {d : Table}
    (hd : d.Repeatable shape? IsBarred (.object (typeRef ApplicationExtension)))
    (h : (replay host options start d a.object).Gives m () m₁) :
    ∃ m₂, (replay host options start d a.object).Gives m₁ () m₂ ∧ Unchanged a m₁ m₂ := by
  obtain ⟨r, f, hf, hdoes⟩ :=
    (populate_application_repeatable (.top options start) hd).exists_does_left
  obtain ⟨_, hrun, hm₁, hcontents⟩ := hdoes (a, []) m hm
  obtain ⟨rfl, rfl⟩ := Prod.mk.inj (h.symm.trans hrun)
  obtain ⟨m₂, hrun₂, hm₂, hcontents₂⟩ := hdoes (a, []) m₁ hm₁
  refine ⟨m₂, hrun₂, .of_contents hm₁ hm₂ ?_ ?_⟩
  · have hstate : (replay host options start d a.object m₁).2 = m₂ := congrArg Prod.snd hrun₂
    exact hstate ▸ replay_grows options start d a.object m₁
  · rw [hcontents₂, hcontents]
    exact congrFun (Contents.settlingCells.overwrites_settled.mul_self hf) _

/-- A new build type, with two keys for one setting, and an entry of a map. -/
def debuggableTable : Table := [
  ("buildTypes", .table [
    ("qa", .table [
      ("debuggable", .boolean false),
      ("isDebuggable", .boolean true),
      ("manifestPlaceholders", .table [("host", .string "qa.example")])])])]

theorem debuggableTable_repeatable :
    debuggableTable.Repeatable shape? IsBarred (.object (typeRef ApplicationExtension)) := by
  refine .object rfl (by decide) fun key body hmem => ?_
  obtain ⟨rfl, heq⟩ := Prod.mk.inj (List.mem_singleton.1 hmem)
  obtain rfl := Value.table.inj heq
  refine .elements fun name body hmem => ?_
  obtain ⟨rfl, heq⟩ := Prod.mk.inj (List.mem_singleton.1 hmem)
  obtain rfl := Value.table.inj heq
  refine .object rfl (by decide) fun key body hmem => ?_
  simp only [List.mem_cons, Prod.mk.injEq, reduceCtorEq, and_false, false_or, List.not_mem_nil,
    or_false] at hmem
  rw [hmem.1]
  exact .entries

/-- The build type is made for a new application, and is the same after the second time. -/
theorem replay_again_debuggable :
    ∃ m₁ m₂,
      (replay host ⟨.strict, ⟨"/"⟩⟩ "android" debuggableTable
        (Ref.mk 0 : Ref ApplicationExtension).object).Gives
          (ApplicationExtension.create ⟨"/"⟩ .empty).2 () m₁ ∧
      (replay host ⟨.strict, ⟨"/"⟩⟩ "android" debuggableTable
        (Ref.mk 0 : Ref ApplicationExtension).object).Gives m₁ () m₂ ∧
      Unchanged ⟨0⟩ m₁ m₂ := by
  obtain ⟨m₂, hrun, hsame⟩ := replay_again ⟨.strict, ⟨"/"⟩⟩ "android"
    (create_sound ⟨"/"⟩ .empty) debuggableTable_repeatable rfl
  exact ⟨_, m₂, rfl, hrun, hsame⟩

end BuildReplay.Android
