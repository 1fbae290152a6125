import BuildReplay.Android.Model
import BuildReplay.Host

/-!
# The host of the application model

The fields and members of the application model, and the containers in its fields.
-/

namespace BuildReplay.Android

namespace JavaVersion

def constantName : JavaVersion → String
  | v8 => "VERSION_1_8"
  | v11 => "VERSION_11"
  | v17 => "VERSION_17"
  | v21 => "VERSION_21"

def all : List JavaVersion := [v8, v11, v17, v21]

end JavaVersion

instance : Enumerated JavaVersion where
  enumRef := ⟨"JavaVersion", JavaVersion.all.map JavaVersion.constantName⟩
  constant := JavaVersion.constantName
  ofConstant? s := JavaVersion.all.find? fun v => v.constantName == s

instance : OfLive JavaVersion := ⟨Enumerated.ofLive⟩
instance : ToLive JavaVersion := ⟨Enumerated.toLive⟩

/-! ## Shapes -/

/-- What is said of a build type that is to be initialized with itself. -/
def BuildType.selfRefusal (name : String) : String :=
  "build type `" ++ name ++ "` cannot be initialized with itself"

/-- Initializes a build type with another one, which nobody may be changing meanwhile. -/
def BuildType.takeOver (b other : Ref BuildType) : Access Model Live :=
  .lending .shared other.object
    (do
      let name ← .read fun m => (b.get m : BuildType).name
      .fail (.host (selfRefusal name)))
    (do
      .modify fun m => b.modify (fun t => t.initWith (other.get m)) m
      return .nothing)

def BuildType.declarations : List (Declaration Model) := [
  .viewed "name" .string BuildType.name,
  .stored "isMinifyEnabled" .bool BuildType.minifyEnabled
    fun v b => { b with minifyEnabled := v },
  .stored "isShrinkResources" .bool BuildType.shrinkResources
    fun v b => { b with shrinkResources := v },
  .stored "isDebuggable" .bool BuildType.debuggable fun v b => { b with debuggable := v },
  .stored "applicationIdSuffix" .string BuildType.applicationIdSuffix
    fun v b => { b with applicationIdSuffix := v },
  .stored "versionNameSuffix" .string BuildType.versionNameSuffix
    fun v b => { b with versionNameSuffix := v },
  .stored "signingConfig" .string BuildType.signingConfig fun v b => { b with signingConfig := v },
  .list BuildType "proguardFiles" .path,
  .list BuildType "matchingFallbacks" .string,
  .map BuildType "manifestPlaceholders" .string,
  .call "initWith" [.object (typeRef BuildType)] fun (b : Ref BuildType) args => do
    BuildType.takeOver b (← argument args 0)]

def ProductFlavor.declarations : List (Declaration Model) := [
  .viewed "name" .string ProductFlavor.name,
  .stored "dimension" .string ProductFlavor.dimension fun v f => { f with dimension := v },
  .stored "applicationIdSuffix" .string ProductFlavor.applicationIdSuffix
    fun v f => { f with applicationIdSuffix := v },
  .stored "versionNameSuffix" .string ProductFlavor.versionNameSuffix
    fun v f => { f with versionNameSuffix := v },
  .stored "minSdk" .int ProductFlavor.minSdk fun v f => { f with minSdk := v },
  .map ProductFlavor "manifestPlaceholders" .string]

def SigningConfig.declarations : List (Declaration Model) := [
  .viewed "name" .string SigningConfig.name,
  .stored "storeFile" .path SigningConfig.storeFile fun v c => { c with storeFile := v },
  .stored "storePassword" .string SigningConfig.storePassword
    fun v c => { c with storePassword := v },
  .stored "storeType" .string SigningConfig.storeType fun v c => { c with storeType := v },
  .stored "keyAlias" .string SigningConfig.keyAlias fun v c => { c with keyAlias := v },
  .stored "keyPassword" .string SigningConfig.keyPassword fun v c => { c with keyPassword := v }]

def DefaultConfig.declarations : List (Declaration Model) := [
  .stored "applicationId" .string DefaultConfig.applicationId
    fun v c => { c with applicationId := v },
  .stored "minSdk" .int DefaultConfig.minSdk fun v c => { c with minSdk := v },
  .stored "targetSdk" .int DefaultConfig.targetSdk fun v c => { c with targetSdk := v },
  .stored "versionCode" .int DefaultConfig.versionCode fun v c => { c with versionCode := v },
  .stored "versionName" .string DefaultConfig.versionName fun v c => { c with versionName := v },
  .stored "testInstrumentationRunner" .string DefaultConfig.testInstrumentationRunner
    fun v c => { c with testInstrumentationRunner := v },
  .stored "isMultiDexEnabled" .bool DefaultConfig.multiDexEnabled
    fun v c => { c with multiDexEnabled := v },
  .map DefaultConfig "manifestPlaceholders" .string]

def CompileOptions.declarations : List (Declaration Model) := [
  .stored "encoding" .string CompileOptions.encoding fun v c => { c with encoding := v },
  .setter "setSourceCompatibility" (.enumeration (enumRef JavaVersion))
    fun (v : JavaVersion) (c : CompileOptions) => { c with sourceCompatibility := some v },
  .setter "setTargetCompatibility" (.enumeration (enumRef JavaVersion))
    fun (v : JavaVersion) (c : CompileOptions) => { c with targetCompatibility := some v }]

def ApplicationExtension.declarations : List (Declaration Model) := [
  .stored "namespace" .string ApplicationExtension.packageName
    fun v a => { a with packageName := v },
  .stored "compileSdk" .int ApplicationExtension.compileSdk fun v a => { a with compileSdk := v },
  .viewed "defaultConfig" (.object (typeRef DefaultConfig)) ApplicationExtension.defaultConfig,
  .collection ApplicationExtension "buildTypes" (typeRef BuildType),
  .collection ApplicationExtension "productFlavors" (typeRef ProductFlavor),
  .collection ApplicationExtension "signingConfigs" (typeRef SigningConfig),
  .viewed "compileOptions" (.object (typeRef CompileOptions)) ApplicationExtension.compileOptions,
  .list ApplicationExtension "flavorDimensions" .string,
  .setter "resourcePrefix" .string
    fun (v : String) (a : ApplicationExtension) => { a with resourcePrefix := some v },
  .call "getDefaultProguardFile" [.string] fun (a : Ref ApplicationExtension) args => do
    let name : String ← argument args 0
    .read fun m => .path ((a.get m : ApplicationExtension).defaultProguardFile name)]

def VariantBuilder.declarations : List (Declaration Model) := [
  .viewed "name" .string VariantBuilder.name,
  .stored "enable" .bool VariantBuilder.enable fun v b => { b with enable := v },
  .stored "minSdk" .int VariantBuilder.minSdk fun v b => { b with minSdk := v },
  .stored "enableUnitTest" .bool VariantBuilder.enableUnitTest
    fun v b => { b with enableUnitTest := v },
  .stored "enableAndroidTest" .bool VariantBuilder.enableAndroidTest
    fun v b => { b with enableAndroidTest := v }]

def Variant.declarations : List (Declaration Model) := [
  .viewed "name" .string Variant.name,
  .property Variant "applicationId" .string,
  .map Variant "manifestPlaceholders" .string,
  .list Variant "proguardFiles" .path,
  .property Variant "pseudoLocalesEnabled" .bool]

/-- The types of the model with their declarations. -/
def declarationTable : List (TypeRef × List (Declaration Model)) := [
  (typeRef ApplicationExtension, ApplicationExtension.declarations),
  (typeRef DefaultConfig, DefaultConfig.declarations),
  (typeRef BuildType, BuildType.declarations),
  (typeRef ProductFlavor, ProductFlavor.declarations),
  (typeRef SigningConfig, SigningConfig.declarations),
  (typeRef CompileOptions, CompileOptions.declarations),
  (typeRef VariantBuilder, VariantBuilder.declarations),
  (typeRef Variant, Variant.declarations)]

/-- The types of the model. -/
def modelTypes : List TypeRef := declarationTable.map (·.1)

/-- The type of a name; the case of ASCII letters does not count. -/
def modelType? (name : String) : Option TypeRef :=
  modelTypes.find? fun t => t.name.toLower == name.toLower

/-- The shape of a type of the model. -/
def shape? (t : TypeRef) : Option (Shape Model) :=
  (declarationTable.find? (·.1 == t)).map fun e => .ofDeclarations e.1 e.2

/-! ## Containers -/

/-- The list in a field. -/
def list? (s : Slot) : Option (Collection Model) :=
  match s.owner.type.name, s.field with
  | "BuildType", "proguardFiles" => some <|
    (Ref.mk s.owner.id : Ref BuildType).list
      { get := BuildType.proguardFiles, set := fun v b => { b with proguardFiles := v } }
  | "BuildType", "matchingFallbacks" => some <|
    (Ref.mk s.owner.id : Ref BuildType).list
      { get := BuildType.matchingFallbacks, set := fun v b => { b with matchingFallbacks := v } }
  | "ApplicationExtension", "flavorDimensions" => some <|
    (Ref.mk s.owner.id : Ref ApplicationExtension).list
      { get := ApplicationExtension.flavorDimensions
        set := fun v a => { a with flavorDimensions := v } }
  | "Variant", "proguardFiles" => some <|
    (Ref.mk s.owner.id : Ref Variant).list
      { get := Variant.proguardFiles, set := fun v x => { x with proguardFiles := v } }
  | _, _ => none

/-- The map in a field. -/
def map? (s : Slot) : Option (MapSink Model) :=
  match s.owner.type.name, s.field with
  | "BuildType", "manifestPlaceholders" => some <|
    (Ref.mk s.owner.id : Ref BuildType).map
      { get := BuildType.manifestPlaceholders
        set := fun v b => { b with manifestPlaceholders := v } }
  | "ProductFlavor", "manifestPlaceholders" => some <|
    (Ref.mk s.owner.id : Ref ProductFlavor).map
      { get := ProductFlavor.manifestPlaceholders
        set := fun v f => { f with manifestPlaceholders := v } }
  | "DefaultConfig", "manifestPlaceholders" => some <|
    (Ref.mk s.owner.id : Ref DefaultConfig).map
      { get := DefaultConfig.manifestPlaceholders
        set := fun v c => { c with manifestPlaceholders := v } }
  | "Variant", "manifestPlaceholders" => some <|
    (Ref.mk s.owner.id : Ref Variant).map
      { get := Variant.manifestPlaceholders
        set := fun v x => { x with manifestPlaceholders := v } }
  | _, _ => none

/-- The cell in a field. -/
def property? (s : Slot) : Option (PropertyCell Model) :=
  match s.owner.type.name, s.field with
  | "Variant", "applicationId" => some <|
    (Ref.mk s.owner.id : Ref Variant).property
      { get := Variant.applicationId, set := fun v x => { x with applicationId := v } }
  | "Variant", "pseudoLocalesEnabled" => some <|
    (Ref.mk s.owner.id : Ref Variant).property
      { get := Variant.pseudoLocalesEnabled
        set := fun v x => { x with pseudoLocalesEnabled := v } }
  | _, _ => none

/-- The named collections of applications. -/
inductive CollectionField where
  | buildTypes
  | productFlavors
  | signingConfigs
deriving DecidableEq, Repr

/-- The collection of an application. -/
def CollectionField.collection (a : Ref ApplicationExtension) :
    CollectionField → NamedCollection Model
  | buildTypes => a.collection
      { get := ApplicationExtension.buildTypes, set := fun v a => { a with buildTypes := v } }
      BuildType.new
  | productFlavors => a.collection
      { get := ApplicationExtension.productFlavors
        set := fun v a => { a with productFlavors := v } }
      ProductFlavor.new
  | signingConfigs => a.collection
      { get := ApplicationExtension.signingConfigs
        set := fun v a => { a with signingConfigs := v } }
      SigningConfig.new

/-- The named collection in a field. -/
def named? (s : Slot) : Option (NamedCollection Model) :=
  match s.owner.type.name, s.field with
  | "ApplicationExtension", "buildTypes" =>
    some (CollectionField.buildTypes.collection ⟨s.owner.id⟩)
  | "ApplicationExtension", "productFlavors" =>
    some (CollectionField.productFlavors.collection ⟨s.owner.id⟩)
  | "ApplicationExtension", "signingConfigs" =>
    some (CollectionField.signingConfigs.collection ⟨s.owner.id⟩)
  | _, _ => none

/-- The application model as a host. -/
def host : Host Model where
  shapeOf t := match shape? t with
    | some s => pure s
    | none => throw (.host ("unknown type " ++ t.name))
  list?
  map?
  property?
  named?

end BuildReplay.Android
