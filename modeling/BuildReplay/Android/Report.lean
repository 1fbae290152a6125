import BuildReplay.Android.Shapes
import BuildReplay.Json.Basic

/-!
# Reports of the application model

The objects of the model as JSON. Elements of named collections stand under their names, so their
own reports leave the name out; what is unset is null.
-/

namespace BuildReplay.Android

variable {α : Type}

def texts (items : List String) : Json String := .array (items.map .string)

def paths (items : List Path) : Json String := .array (items.map fun p => .string p.text)

def textMap (d : Dictionary String) : Json String :=
  .object (d.entries.map fun e => (e.1, .string e.2))

def text? (s : Option String) : Json String := .ofOption .string s

def int? (i : Option Int32) : Json String := .ofOption (fun i => .ofInt i.toInt) i

def version? (v : Option JavaVersion) : Json String := .ofOption (fun v => .string v.constantName) v

def BuildType.report (b : BuildType) : Json String := .object [
  ("minifyEnabled", .boolean b.minifyEnabled),
  ("shrinkResources", .boolean b.shrinkResources),
  ("debuggable", .boolean b.debuggable),
  ("applicationIdSuffix", text? b.applicationIdSuffix),
  ("versionNameSuffix", text? b.versionNameSuffix),
  ("signingConfig", text? b.signingConfig),
  ("proguardFiles", paths b.proguardFiles),
  ("matchingFallbacks", texts b.matchingFallbacks),
  ("manifestPlaceholders", textMap b.manifestPlaceholders)]

def ProductFlavor.report (f : ProductFlavor) : Json String := .object [
  ("dimension", text? f.dimension),
  ("applicationIdSuffix", text? f.applicationIdSuffix),
  ("versionNameSuffix", text? f.versionNameSuffix),
  ("minSdk", int? f.minSdk),
  ("manifestPlaceholders", textMap f.manifestPlaceholders)]

def SigningConfig.report (c : SigningConfig) : Json String := .object [
  ("storeFile", text? (c.storeFile.map Path.text)),
  ("storePassword", text? c.storePassword),
  ("storeType", text? c.storeType),
  ("keyAlias", text? c.keyAlias),
  ("keyPassword", text? c.keyPassword)]

def DefaultConfig.report (c : DefaultConfig) : Json String := .object [
  ("applicationId", text? c.applicationId),
  ("minSdk", int? c.minSdk),
  ("targetSdk", int? c.targetSdk),
  ("versionCode", int? c.versionCode),
  ("versionName", text? c.versionName),
  ("testInstrumentationRunner", text? c.testInstrumentationRunner),
  ("multiDexEnabled", .boolean c.multiDexEnabled),
  ("manifestPlaceholders", textMap c.manifestPlaceholders)]

def CompileOptions.report (c : CompileOptions) : Json String := .object [
  ("sourceCompatibility", version? c.sourceCompatibility),
  ("targetCompatibility", version? c.targetCompatibility),
  ("encoding", text? c.encoding)]

def VariantBuilder.report (b : VariantBuilder) : Json String := .object [
  ("name", .string b.name),
  ("enable", .boolean b.enable),
  ("minSdk", int? b.minSdk),
  ("enableUnitTest", .boolean b.enableUnitTest),
  ("enableAndroidTest", .boolean b.enableAndroidTest)]

def Variant.report (v : Variant) : Json String := .object [
  ("name", .string v.name),
  ("applicationId", text? v.applicationId),
  ("manifestPlaceholders", textMap v.manifestPlaceholders),
  ("proguardFiles", paths v.proguardFiles),
  ("pseudoLocalesEnabled", .ofOption .boolean v.pseudoLocalesEnabled)]

/-- The elements of a collection under their names. -/
def elementReports [Stored Model α] (report : α → Json String) (m : Model)
    (entries : List (String × Ref α)) : Json String :=
  .object (entries.map fun e => (e.1, report (e.2.get m)))

def ApplicationExtension.report (m : Model) (a : ApplicationExtension) : Json String := .object [
  ("namespace", text? a.packageName),
  ("compileSdk", int? a.compileSdk),
  ("resourcePrefix", text? a.resourcePrefix),
  ("defaultConfig", (a.defaultConfig.get m).report),
  ("buildTypes", elementReports BuildType.report m a.buildTypes),
  ("productFlavors", elementReports ProductFlavor.report m a.productFlavors),
  ("signingConfigs", elementReports SigningConfig.report m a.signingConfigs),
  ("compileOptions", (a.compileOptions.get m).report),
  ("flavorDimensions", texts a.flavorDimensions)]

/-- The report of an object of the model. -/
def objectReport? (m : Model) (r : ObjectRef) : Option (Json String) :=
  match r.type.name with
  | "ApplicationExtension" => some (((Ref.mk r.id : Ref ApplicationExtension).get m).report m)
  | "DefaultConfig" => some ((Ref.mk r.id : Ref DefaultConfig).get m).report
  | "BuildType" => some ((Ref.mk r.id : Ref BuildType).get m).report
  | "ProductFlavor" => some ((Ref.mk r.id : Ref ProductFlavor).get m).report
  | "SigningConfig" => some ((Ref.mk r.id : Ref SigningConfig).get m).report
  | "CompileOptions" => some ((Ref.mk r.id : Ref CompileOptions).get m).report
  | "VariantBuilder" => some ((Ref.mk r.id : Ref VariantBuilder).get m).report
  | "Variant" => some ((Ref.mk r.id : Ref Variant).get m).report
  | _ => none

end BuildReplay.Android
