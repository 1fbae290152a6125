import BuildReplay.Android.Report
import BuildReplay.Android.Variants
import BuildReplay.Project

/-!
# Application projects

A project of the application model: its plugins, the extensions they register, and the report of
what a document made of it.
-/

namespace BuildReplay.Android

/-- The plugin that registers the extensions of an application. -/
def applicationPlugin : String := "com.android.application"

/-- The plugins that register nothing. -/
def passivePlugins : List String := ["org.jetbrains.kotlin.android", "kotlin-android"]

/-- The key of the application's settings. -/
def applicationKey : String := "android"

/-- The key of the callbacks for variants. -/
def componentsKey : String := "androidComponents"

/-- A project as it is configured. -/
structure ApplicationProject where
  model : Model
  projectDir : Path
  registry : Registry
  plugins : List String
  /-- The settings, once the application plugin is applied. -/
  application : Option (Ref ApplicationExtension)
  registrations : List Registration
  dependencies : Option Value

namespace ApplicationProject

def new (projectDir : Path) : ApplicationProject :=
  ⟨.empty, projectDir, .empty, [], none, [], none⟩

def modelLens : Lens ApplicationProject Model where
  get := model
  set m p := { p with model := m }

def registrationsLens : Lens ApplicationProject (List Registration) where
  get := registrations
  set rs p := { p with registrations := rs }

/-- How many callbacks are registered, once there is an extension for them. -/
def registered? (p : ApplicationProject) : Option Nat :=
  p.application.map fun _ => p.registrations.length

/-! ## Plugins -/

/-- Registers the extensions of an application. -/
def addApplication (p : ApplicationProject) : ApplicationProject :=
  let (application, model) := ApplicationExtension.create p.projectDir p.model
  { p with
    model
    application := some application
    registrations := []
    registry := (p.registry.register applicationKey (.object application.object)).register
      componentsKey (.components applicationComponents.typeName) }

/-- Applies a plugin; one that is applied already changes nothing. -/
def applyPlugin (id : String) : Act ApplicationProject Unit := fun p =>
  if id ∈ p.plugins then (.ok (), p)
  else if id = applicationPlugin then
    let p := p.addApplication
    (.ok (), { p with plugins := p.plugins ++ [id] })
  else if id ∈ passivePlugins then (.ok (), { p with plugins := p.plugins ++ [id] })
  else (.error (.host ("Plugin with id '" ++ id ++ "' not found")), p)

/-! ## Validation -/

/-- The first build type that is to be signed with a configuration nobody declared. -/
def unsigned? (m : Model) (declared : List String) :
    List (String × Ref BuildType) → Option (String × String)
  | [] => none
  | (name, b) :: rest => match (b.get m).signingConfig with
    | some signing =>
      if signing ∈ declared then unsigned? m declared rest else some (name, signing)
    | none => unsigned? m declared rest

/-- Every build type that is signed has to be signed with a declared configuration. -/
def validate (p : ApplicationProject) : Except Error Unit :=
  match p.application with
  | none => .ok ()
  | some a =>
    let settings := a.get p.model
    let declared := settings.signingConfigs.map (·.1)
    match unsigned? p.model declared settings.buildTypes with
    | none => .ok ()
    | some (name, signing) => .error <|
      .invalidDeclaration (applicationKey ++ ".buildTypes." ++ name ++ ".signingConfig")
        ("no signing config named `" ++ signing ++ "`, declared: " ++ ", ".intercalate declared)

/-- The project as documents see it. -/
def project : Project ApplicationProject where
  host := Android.host.within modelLens
  registry := registry
  components? typeName :=
    if typeName = applicationComponents.typeName then
      some (applicationComponents.within registrationsLens)
    else none
  applyPlugin := applyPlugin
  dependencies v := .modify fun p => { p with dependencies := some v }
  afterEvaluate := .readExcept validate

/-! ## Variants and the report -/

/-- The names of the variants: each build type, or each flavor with each build type. -/
def variantNames (p : ApplicationProject) : List String :=
  match p.application with
  | none => []
  | some a =>
    let settings := a.get p.model
    let buildTypes := settings.buildTypes.map (·.1)
    let flavors := settings.productFlavors.map (·.1)
    if flavors.isEmpty then buildTypes
    else flavors.flatMap fun flavor => buildTypes.map fun b => flavor ++ Text.capitalize b

/-- Makes the variants once the project is configured. -/
def finish : Act ApplicationProject (List (Ref Variant)) := fun p =>
  match p.application with
  | none => (.ok [], p)
  | some _ => (runVariants p.registrations p.variantNames).within modelLens p

/-- The configured project. -/
def report (p : ApplicationProject) (variants : List (Ref Variant)) : Json String :=
  .object <|
    [("plugins", texts p.plugins)]
      ++ (p.application.map fun a => ("android", (a.get p.model).report p.model)).toList
      ++ (if variants.isEmpty then []
        else [("variants", .array (variants.map fun v => (v.get p.model).report))])
      ++ (p.dependencies.map fun v => ("dependencies", .ofValue v)).toList

end ApplicationProject

end BuildReplay.Android
