import BuildReplay.Shape.Typed

/-!
# The application model

The objects that describe an Android application: its settings, build types, flavors and signing
configurations, and the variants that are made from them. All objects of one type lie in one heap.
-/

namespace BuildReplay.Android

/-- A language level. -/
inductive JavaVersion where
  | v8
  | v11
  | v17
  | v21
deriving DecidableEq, Repr

/-- What one kind of build does to the application. -/
structure BuildType where
  name : String
  minifyEnabled : Bool
  shrinkResources : Bool
  debuggable : Bool
  applicationIdSuffix : Option String
  versionNameSuffix : Option String
  /-- The name of the signing configuration to sign with. -/
  signingConfig : Option String
  proguardFiles : List Path
  matchingFallbacks : List String
  manifestPlaceholders : Dictionary String

/-- One flavor of the application. -/
structure ProductFlavor where
  name : String
  dimension : Option String
  applicationIdSuffix : Option String
  versionNameSuffix : Option String
  minSdk : Option Int32
  manifestPlaceholders : Dictionary String

/-- Where the keys to sign with are found. -/
structure SigningConfig where
  name : String
  storeFile : Option Path
  storePassword : Option String
  storeType : Option String
  keyAlias : Option String
  keyPassword : Option String

/-- Settings that every variant shares. -/
structure DefaultConfig where
  applicationId : Option String
  minSdk : Option Int32
  targetSdk : Option Int32
  versionCode : Option Int32
  versionName : Option String
  testInstrumentationRunner : Option String
  multiDexEnabled : Bool
  manifestPlaceholders : Dictionary String

/-- Settings of the compiler. The language levels are only written, through their setters. -/
structure CompileOptions where
  sourceCompatibility : Option JavaVersion
  targetCompatibility : Option JavaVersion
  encoding : Option String

/-- Everything about an application. -/
structure ApplicationExtension where
  packageName : Option String
  compileSdk : Option Int32
  resourcePrefix : Option String
  defaultConfig : Ref DefaultConfig
  buildTypes : List (String × Ref BuildType)
  productFlavors : List (String × Ref ProductFlavor)
  signingConfigs : List (String × Ref SigningConfig)
  compileOptions : Ref CompileOptions
  flavorDimensions : List String
  projectDir : Path

/-- A variant before it is made: whether it is, and how. -/
structure VariantBuilder where
  name : String
  enable : Bool
  minSdk : Option Int32
  enableUnitTest : Bool
  enableAndroidTest : Bool

/-- A variant: a build type combined with a flavor. -/
structure Variant where
  name : String
  applicationId : Option String
  manifestPlaceholders : Dictionary String
  proguardFiles : List Path
  pseudoLocalesEnabled : Option Bool

/-! ## New objects -/

def BuildType.new (name : String) : BuildType :=
  ⟨name, false, false, false, none, none, none, [], [], .empty⟩

def ProductFlavor.new (name : String) : ProductFlavor := ⟨name, none, none, none, none, .empty⟩

def SigningConfig.new (name : String) : SigningConfig := ⟨name, none, none, none, none, none⟩

def DefaultConfig.new : DefaultConfig := ⟨none, none, none, none, none, none, false, .empty⟩

def CompileOptions.new : CompileOptions := ⟨none, none, none⟩

def VariantBuilder.new (name : String) : VariantBuilder := ⟨name, true, none, true, true⟩

def Variant.new (name : String) : Variant := ⟨name, none, .empty, [], none⟩

/-- A build type takes over every setting of another one; what it has in its containers stays. -/
def BuildType.initWith (b other : BuildType) : BuildType :=
  { other with
    name := b.name
    proguardFiles := b.proguardFiles ++ other.proguardFiles
    matchingFallbacks := b.matchingFallbacks ++ other.matchingFallbacks
    manifestPlaceholders := other.manifestPlaceholders.entries.foldl
      (fun d e => d.insert e.1 e.2) b.manifestPlaceholders }

/-- Where a proguard file of the build tool lies. -/
def ApplicationExtension.defaultProguardFile (a : ApplicationExtension) (name : String) : Path :=
  (a.projectDir.join ⟨"build/intermediates/default_proguard_files/global"⟩).join ⟨name⟩

/-! ## The model -/

/-- All objects of the application model. -/
structure Model where
  applications : Heap ApplicationExtension
  defaultConfigs : Heap DefaultConfig
  buildTypes : Heap BuildType
  productFlavors : Heap ProductFlavor
  signingConfigs : Heap SigningConfig
  compileOptions : Heap CompileOptions
  builders : Heap VariantBuilder
  variants : Heap Variant

/-- The model without any object. -/
def Model.empty : Model where
  applications := .empty ⟨none, none, none, ⟨0⟩, [], [], [], ⟨0⟩, [], ⟨""⟩⟩
  defaultConfigs := .empty .new
  buildTypes := .empty (.new "")
  productFlavors := .empty (.new "")
  signingConfigs := .empty (.new "")
  compileOptions := .empty .new
  builders := .empty (.new "")
  variants := .empty (.new "")

instance : Described ApplicationExtension where
  typeRef := ⟨"ApplicationExtension"⟩
  qualified := "declarative_core::android::extension::ApplicationExtension"

instance : Described DefaultConfig where
  typeRef := ⟨"DefaultConfig"⟩
  qualified := "declarative_core::android::extension::DefaultConfig"

instance : Described BuildType where
  typeRef := ⟨"BuildType"⟩
  qualified := "declarative_core::android::dsl::BuildType"

instance : Described ProductFlavor where
  typeRef := ⟨"ProductFlavor"⟩
  qualified := "declarative_core::android::dsl::ProductFlavor"

instance : Described SigningConfig where
  typeRef := ⟨"SigningConfig"⟩
  qualified := "declarative_core::android::dsl::SigningConfig"

instance : Described CompileOptions where
  typeRef := ⟨"CompileOptions"⟩
  qualified := "declarative_core::android::extension::CompileOptions"

instance : Described VariantBuilder where
  typeRef := ⟨"VariantBuilder"⟩
  qualified := "declarative_core::android::components::VariantBuilder"

instance : Described Variant where
  typeRef := ⟨"Variant"⟩
  qualified := "declarative_core::android::components::Variant"

instance : Stored Model ApplicationExtension where
  heap := { get := Model.applications, set := fun h m => { m with applications := h } }

instance : Stored Model DefaultConfig where
  heap := { get := Model.defaultConfigs, set := fun h m => { m with defaultConfigs := h } }

instance : Stored Model BuildType where
  heap := { get := Model.buildTypes, set := fun h m => { m with buildTypes := h } }

instance : Stored Model ProductFlavor where
  heap := { get := Model.productFlavors, set := fun h m => { m with productFlavors := h } }

instance : Stored Model SigningConfig where
  heap := { get := Model.signingConfigs, set := fun h m => { m with signingConfigs := h } }

instance : Stored Model CompileOptions where
  heap := { get := Model.compileOptions, set := fun h m => { m with compileOptions := h } }

instance : Stored Model VariantBuilder where
  heap := { get := Model.builders, set := fun h m => { m with builders := h } }

instance : Stored Model Variant where
  heap := { get := Model.variants, set := fun h m => { m with variants := h } }

/-- A new application in a directory, with the build types `debug` and `release`. -/
def ApplicationExtension.create (projectDir : Path) (m : Model) :
    Ref ApplicationExtension × Model :=
  let (debug, m) := alloc { BuildType.new "debug" with debuggable := true } m
  let (release, m) := alloc (BuildType.new "release") m
  let (defaultConfig, m) := alloc DefaultConfig.new m
  let (compileOptions, m) := alloc CompileOptions.new m
  alloc {
    packageName := none
    compileSdk := none
    resourcePrefix := none
    defaultConfig
    buildTypes := [("debug", debug), ("release", release)]
    productFlavors := []
    signingConfigs := []
    compileOptions
    flavorDimensions := []
    projectDir } m

end BuildReplay.Android
