import BuildReplay.Proofs.Android.Cells
import BuildReplay.Proofs.Attribute

/-! # The fields of the objects of the model

The declarations of the model name about thirty of its fields, one by one. Each of them writes the
field of its own name, and no other. -/

namespace BuildReplay.Android

open BuildReplay.Declaration
  (readOnly_fillsOwn stored_fillsOwn property_fillsOwn setter_fillsOwn setter_writes)

instance : Faithful JavaVersion (.enumeration (enumRef JavaVersion)) where
  toLive_of_ofLive h hofLive := by
    cases h with
    | enumeration hmem =>
        obtain ⟨version, htake, hgive⟩ := Enumerated.exists_ofLive (α := JavaVersion) hmem
        cases htake.symm.trans hofLive
        exact hgive

/-! ## Types -/

namespace ApplicationExtension

def record : Record ApplicationExtension where
  attributes := [
    .value "namespace" packageName fun v a => { a with packageName := v },
    .value "compileSdk" compileSdk fun v a => { a with compileSdk := v },
    .value "resourcePrefix" resourcePrefix fun v a => { a with resourcePrefix := v },
    .value "defaultConfig" defaultConfig fun v a => { a with defaultConfig := v },
    .container "buildTypes" buildTypes fun v a => { a with buildTypes := v },
    .container "productFlavors" productFlavors fun v a => { a with productFlavors := v },
    .container "signingConfigs" signingConfigs fun v a => { a with signingConfigs := v },
    .value "compileOptions" compileOptions fun v a => { a with compileOptions := v },
    .container "flavorDimensions" flavorDimensions fun v a => { a with flavorDimensions := v },
    .value "projectDir" projectDir fun v a => { a with projectDir := v }]

theorem fillsOwn : ∀ d ∈ declarations, d.FillsOwn host record := by
  simp only [declarations, List.forall_mem_cons]
  refine ⟨stored_fillsOwn rfl rfl, stored_fillsOwn rfl rfl, ?_, ?_, ?_, ?_, ?_, ?_, ?_, ?_,
    List.forall_mem_nil _⟩
  iterate 6 exact readOnly_fillsOwn (by rintro _ ⟨⟩)
  · exact setter_fillsOwn
      (fun v (a : ApplicationExtension) => { a with resourcePrefix := v }) rfl rfl
  · -- the call of the last member hands out a path
    rintro _ _ ⟨-, -, -, hnothing⟩
    cases hnothing ⟨typeRef ApplicationExtension, 0⟩ (.string "") .empty _ _ rfl

end ApplicationExtension

namespace DefaultConfig

def record : Record DefaultConfig where
  attributes := [
    .value "applicationId" applicationId fun v c => { c with applicationId := v },
    .value "minSdk" minSdk fun v c => { c with minSdk := v },
    .value "targetSdk" targetSdk fun v c => { c with targetSdk := v },
    .value "versionCode" versionCode fun v c => { c with versionCode := v },
    .value "versionName" versionName fun v c => { c with versionName := v },
    .value "testInstrumentationRunner" testInstrumentationRunner
      fun v c => { c with testInstrumentationRunner := v },
    .value "multiDexEnabled" multiDexEnabled fun v c => { c with multiDexEnabled := v },
    .container "manifestPlaceholders" manifestPlaceholders
      fun v c => { c with manifestPlaceholders := v }]

theorem fillsOwn : ∀ d ∈ declarations, d.FillsOwn host record := by
  simp only [declarations, List.forall_mem_cons]
  refine ⟨?_, ?_, ?_, ?_, ?_, ?_, ?_, ?_, List.forall_mem_nil _⟩
  iterate 7 exact stored_fillsOwn rfl rfl
  exact readOnly_fillsOwn (by rintro _ ⟨⟩)

end DefaultConfig

namespace BuildType

def record : Record BuildType where
  attributes := [
    .value "name" name fun v b => { b with name := v },
    .value "minifyEnabled" minifyEnabled fun v b => { b with minifyEnabled := v },
    .value "shrinkResources" shrinkResources fun v b => { b with shrinkResources := v },
    .value "debuggable" debuggable fun v b => { b with debuggable := v },
    .value "applicationIdSuffix" applicationIdSuffix fun v b => { b with applicationIdSuffix := v },
    .value "versionNameSuffix" versionNameSuffix fun v b => { b with versionNameSuffix := v },
    .value "signingConfig" signingConfig fun v b => { b with signingConfig := v },
    .container "proguardFiles" proguardFiles fun v b => { b with proguardFiles := v },
    .container "matchingFallbacks" matchingFallbacks fun v b => { b with matchingFallbacks := v },
    .container "manifestPlaceholders" manifestPlaceholders
      fun v b => { b with manifestPlaceholders := v }]

theorem fillsOwn : ∀ d ∈ declarations, d.FillsOwn host record := by
  simp only [declarations, List.forall_mem_cons]
  refine ⟨?_, ?_, ?_, ?_, ?_, ?_, ?_, ?_, ?_, ?_, ?_, List.forall_mem_nil _⟩
  · exact readOnly_fillsOwn (by rintro _ ⟨⟩)
  iterate 6 exact stored_fillsOwn rfl rfl
  iterate 3 exact readOnly_fillsOwn (by rintro _ ⟨⟩)
  · -- the member takes an object
    rintro _ _ ⟨-, hparams, hscalar, -⟩
    cases hparams
    cases hscalar

end BuildType

namespace ProductFlavor

def record : Record ProductFlavor where
  attributes := [
    .value "name" name fun v f => { f with name := v },
    .value "dimension" dimension fun v f => { f with dimension := v },
    .value "applicationIdSuffix" applicationIdSuffix fun v f => { f with applicationIdSuffix := v },
    .value "versionNameSuffix" versionNameSuffix fun v f => { f with versionNameSuffix := v },
    .value "minSdk" minSdk fun v f => { f with minSdk := v },
    .container "manifestPlaceholders" manifestPlaceholders
      fun v f => { f with manifestPlaceholders := v }]

theorem fillsOwn : ∀ d ∈ declarations, d.FillsOwn host record := by
  simp only [declarations, List.forall_mem_cons]
  refine ⟨?_, ?_, ?_, ?_, ?_, ?_, List.forall_mem_nil _⟩
  · exact readOnly_fillsOwn (by rintro _ ⟨⟩)
  iterate 4 exact stored_fillsOwn rfl rfl
  exact readOnly_fillsOwn (by rintro _ ⟨⟩)

end ProductFlavor

namespace SigningConfig

def record : Record SigningConfig where
  attributes := [
    .value "name" name fun v c => { c with name := v },
    .value "storeFile" storeFile fun v c => { c with storeFile := v },
    .value "storePassword" storePassword fun v c => { c with storePassword := v },
    .value "storeType" storeType fun v c => { c with storeType := v },
    .value "keyAlias" keyAlias fun v c => { c with keyAlias := v },
    .value "keyPassword" keyPassword fun v c => { c with keyPassword := v }]

theorem fillsOwn : ∀ d ∈ declarations, d.FillsOwn host record := by
  simp only [declarations, List.forall_mem_cons]
  refine ⟨readOnly_fillsOwn (by rintro _ ⟨⟩), ?_, ?_, ?_, ?_, ?_, List.forall_mem_nil _⟩
  iterate 5 exact stored_fillsOwn rfl rfl

end SigningConfig

namespace CompileOptions

def record : Record CompileOptions where
  attributes := [
    .value "sourceCompatibility" sourceCompatibility fun v c => { c with sourceCompatibility := v },
    .value "targetCompatibility" targetCompatibility fun v c => { c with targetCompatibility := v },
    .value "encoding" encoding fun v c => { c with encoding := v }]

theorem fillsOwn : ∀ d ∈ declarations, d.FillsOwn host record := by
  simp only [declarations, List.forall_mem_cons]
  refine ⟨stored_fillsOwn rfl rfl, ?_, ?_, List.forall_mem_nil _⟩
  · exact setter_fillsOwn
      (fun v (c : CompileOptions) => { c with sourceCompatibility := v }) rfl rfl
  · exact setter_fillsOwn
      (fun v (c : CompileOptions) => { c with targetCompatibility := v }) rfl rfl

end CompileOptions

namespace VariantBuilder

def record : Record VariantBuilder where
  attributes := [
    .value "name" name fun v b => { b with name := v },
    .value "enable" enable fun v b => { b with enable := v },
    .value "minSdk" minSdk fun v b => { b with minSdk := v },
    .value "enableUnitTest" enableUnitTest fun v b => { b with enableUnitTest := v },
    .value "enableAndroidTest" enableAndroidTest fun v b => { b with enableAndroidTest := v }]

theorem fillsOwn : ∀ d ∈ declarations, d.FillsOwn host record := by
  simp only [declarations, List.forall_mem_cons]
  refine ⟨readOnly_fillsOwn (by rintro _ ⟨⟩), ?_, ?_, ?_, ?_, List.forall_mem_nil _⟩
  iterate 4 exact stored_fillsOwn rfl rfl

end VariantBuilder

namespace Variant

def record : Record Variant where
  attributes := [
    .value "name" name fun v x => { x with name := v },
    .value "applicationId" applicationId fun v x => { x with applicationId := v },
    .container "manifestPlaceholders" manifestPlaceholders
      fun v x => { x with manifestPlaceholders := v },
    .container "proguardFiles" proguardFiles fun v x => { x with proguardFiles := v },
    .value "pseudoLocalesEnabled" pseudoLocalesEnabled
      fun v x => { x with pseudoLocalesEnabled := v }]

theorem fillsOwn : ∀ d ∈ declarations, d.FillsOwn host record := by
  simp only [declarations, List.forall_mem_cons]
  refine ⟨?_, ?_, ?_, ?_, ?_, List.forall_mem_nil _⟩
  · exact readOnly_fillsOwn (by rintro _ ⟨⟩)
  · exact property_fillsOwn rfl (fun _ => rfl) rfl
  iterate 2 exact readOnly_fillsOwn (by rintro _ ⟨⟩)
  · exact property_fillsOwn rfl (fun _ => rfl) rfl

end Variant

/-! ## The model -/

/-- The fields of an object of the model. -/
def attributes (r : ObjectRef) : List (Attribute Model) :=
  match r.type.name with
  | "ApplicationExtension" => ApplicationExtension.record.ofObject ⟨r.id⟩
  | "DefaultConfig" => DefaultConfig.record.ofObject ⟨r.id⟩
  | "BuildType" => BuildType.record.ofObject ⟨r.id⟩
  | "ProductFlavor" => ProductFlavor.record.ofObject ⟨r.id⟩
  | "SigningConfig" => SigningConfig.record.ofObject ⟨r.id⟩
  | "CompileOptions" => CompileOptions.record.ofObject ⟨r.id⟩
  | "VariantBuilder" => VariantBuilder.record.ofObject ⟨r.id⟩
  | "Variant" => Variant.record.ofObject ⟨r.id⟩
  | _ => []

/-- The declarations of the type fill the fields of its objects. -/
structure FillsRecord (α : Type) [Stored Model α] (ds : List (Declaration Model)) : Prop where
  shape : shape? (typeRef α) = some (.ofDeclarations (typeRef α) ds)
  record : ∃ record : Record α, (∀ id, attributes ⟨typeRef α, id⟩ = record.ofObject ⟨id⟩) ∧
    ∀ d ∈ ds, d.FillsOwn host record

theorem declarationTable_fillsRecord : ∀ e ∈ declarationTable,
    ∃ (α : Type) (_ : Stored Model α), typeRef α = e.1 ∧ FillsRecord α e.2 := by
  simp only [declarationTable, List.forall_mem_cons]
  exact ⟨⟨_, _, rfl, rfl, _, fun _ => rfl, ApplicationExtension.fillsOwn⟩,
    ⟨_, _, rfl, rfl, _, fun _ => rfl, DefaultConfig.fillsOwn⟩,
    ⟨_, _, rfl, rfl, _, fun _ => rfl, BuildType.fillsOwn⟩,
    ⟨_, _, rfl, rfl, _, fun _ => rfl, ProductFlavor.fillsOwn⟩,
    ⟨_, _, rfl, rfl, _, fun _ => rfl, SigningConfig.fillsOwn⟩,
    ⟨_, _, rfl, rfl, _, fun _ => rfl, CompileOptions.fillsOwn⟩,
    ⟨_, _, rfl, rfl, _, fun _ => rfl, VariantBuilder.fillsOwn⟩,
    ⟨_, _, rfl, rfl, _, fun _ => rfl, Variant.fillsOwn⟩, List.forall_mem_nil _⟩

theorem declarationTable_mapLike :
    ∀ e ∈ declarationTable, (Shape.ofDeclarations e.1 e.2).mapLike = false := by
  decide +kernel

theorem declarationTable_binding : ∀ e ∈ declarationTable, ∀ d ∈ e.2, ∀ b ∈ d.binding?,
    (Shape.ofDeclarations e.1 e.2).binding? b.name = some b := by
  decide +kernel

/-- Every declaration that writes something writes the field of its own name, by that name and by
every other key that is bound to it. In strict mode a document of such a key, if it is accepted,
leaves in the field what its value resolves to, for the getter to return, and changes nothing else.
A document that is refused, in either mode, changes nothing. -/
theorem populate_writes_own {t : TypeRef} {ds : List (Declaration Model)} {d : Declaration Model}
    {name : String} {type : ValueType} (ht : (t, ds) ∈ declarationTable) (hd : d ∈ ds)
    (hwrites : d.Writes name type) :
    (Shape.ofDeclarations t ds).binding? name = d.binding? ∧
    ∀ key, (Shape.ofDeclarations t ds).binding? key = d.binding? →
      ∀ (sc : Scope Model) (id : Nat) (v : Value) (m m' : Model),
        (sc.isStrict → (populate host sc ⟨t, id⟩ [(key, v)]).Gives m () m' →
          ∃ live,
            (resolveValue host ((sc.enter (.object ⟨t, id⟩ (.ofDeclarations t ds))).key key) type
              v).Gives m live m ∧
              Puts (attributes ⟨t, id⟩) (Attribute.nameOf name) live m m' ∧
                d.Returns host ⟨t, id⟩ live m') ∧
        ∀ e, (populate host sc ⟨t, id⟩ [(key, v)]).Raises m e m' → m' = m := by
  obtain ⟨b, hb, rfl⟩ : ∃ b, d.binding? = some b ∧ b.name = name := hwrites.exists_binding?
  refine ⟨by rw [declarationTable_binding _ ht d hd b hb, hb], fun key hkey sc id v m m' => ?_⟩
  have hroute : (Shape.ofDeclarations t ds).RoutesTo key d :=
    Shape.routesTo_of_binding? (Shape.ofDeclarations_describedBy t ds)
      (declarationTable_distinct _ ht) hd hb (hkey.trans hb)
  have hmapLike : (Shape.ofDeclarations t ds).mapLike = false := declarationTable_mapLike _ ht
  obtain ⟨α, _, rfl, hshape, record, hattributes, hfills⟩ := declarationTable_fillsRecord _ ht
  obtain ⟨hatomic, c, hc, hd⟩ := hfills d hd _ _ hwrites
  rw [hattributes, ← Record.name_of_attribute? hc]
  exact Record.populate_puts (Record.mem_of_attribute? hc) hd hatomic (host_shapeOf_some hshape)
    hmapLike hroute sc ⟨id⟩ v

/-- A language level is written through its setter, as the constant that a factory call names. -/
theorem populate_writes_own_sourceCompatibility :
    ∃ m', (populate host (.top ⟨.strict, ⟨"/"⟩⟩ "android") ⟨typeRef CompileOptions, 0⟩
        [("sourceCompatibility", .table [("valueOf", .string "VERSION_17")])]).Gives Model.empty ()
          m' ∧
      Puts (attributes ⟨typeRef CompileOptions, 0⟩) "sourceCompatibility"
        (.enumeration (enumRef JavaVersion) "VERSION_17") Model.empty m' := by
  have htype : (typeRef CompileOptions, CompileOptions.declarations) ∈ declarationTable :=
    .tail _ (.tail _ (.tail _ (.tail _ (.tail _ (.head _)))))
  have hwrites : (Declaration.setter "setSourceCompatibility" (.enumeration (enumRef JavaVersion))
      fun (v : JavaVersion) (c : CompileOptions) => { c with sourceCompatibility := some v } :
      Declaration Model).Writes "setSourceCompatibility" (.enumeration (enumRef JavaVersion)) :=
    setter_writes _ rfl _
  have hgives := Act.gives_of_isOk (x := populate host (.top ⟨.strict, ⟨"/"⟩⟩ "android")
    ⟨typeRef CompileOptions, 0⟩
    [("sourceCompatibility", .table [("valueOf", .string "VERSION_17")])]) (s := Model.empty) rfl
  have hkeys := (populate_writes_own htype (.tail _ (.head _)) hwrites).2
  obtain ⟨live, hlive, hputs, -⟩ := (hkeys "sourceCompatibility" rfl _ 0 _ _ _).1 rfl hgives
  cases hlive
  exact ⟨_, hgives, hputs⟩

end BuildReplay.Android
