import BuildReplay.Callback
import BuildReplay.Registry
import BuildReplay.Shape.Cache

/-!
# Projects

A whole document is applied to a project: first its plugins, then every extension that a key names,
then the dependencies, and at last the project checks itself.
-/

namespace BuildReplay

/-- The key that lists plugins. -/
def pluginsKey : String := "plugins"

/-- The key that is handed to the project as it is. -/
def dependenciesKey : String := "dependencies"

/-- A project that documents are applied to. -/
structure Project (σ : Type) where
  host : Host σ
  registry : σ → Registry
  /-- The extension with callbacks behind a type name. -/
  components? : String → Option (Components σ)
  /-- Applies a plugin, which may register extensions. -/
  applyPlugin : String → Act σ Unit
  /-- Takes the dependencies once the extensions are configured. -/
  dependencies : Value → Act σ Unit
  /-- Checks the project once the document is applied. -/
  afterEvaluate : Act σ Unit

/-- The path of an entry of the plugin list. -/
def pluginPath (index : Nat) : String := itemPath pluginsKey index

/-- The identifier of a plugin: a text, or a table with a text under `id`. -/
def pluginId (index : Nat) : Value → Except Error String
  | .string id => .ok id
  | .table entries => match Table.get? entries "id" with
    | some (.string id) => .ok id
    | _ => .error (.invalidDeclaration (pluginPath index) "plugin table needs an `id` string")
  | v => .error <|
    .invalidDeclaration (pluginPath index) ("expected a plugin id, found " ++ v.describe)

/-- The identifiers of a list of plugins. -/
def pluginIds : Value → Except Error (List String)
  | .array entries => entries.zipIdx.mapM fun (v, index) => pluginId index v
  | v => .error (.invalidDeclaration pluginsKey ("expected an array, found " ++ v.describe))

namespace Project

variable {σ : Type}

/-- Configures one extension from its table; `name` is its key. -/
def configure (p : Project σ) (options : Options) (name : String) (t : Table) :
    Extension → Act σ Unit
  | .object r => replay p.host options name t r
  | .components typeName => match p.components? typeName with
    | some c => c.configure options name t
    | none => throw (.host ("no components " ++ typeName))

def applyPlugins (p : Project σ) : List String → Act σ Unit
  | [] => pure ()
  | id :: rest => do p.applyPlugin id; p.applyPlugins rest

/-- Configures the extension that a key names. -/
def applyKey (p : Project σ) (options : Options) (key : String) : Value → Act σ Unit
  | .table t => do
    let registry ← .read p.registry
    match registry.get? key with
    | some e => p.configure options key t e
    | none => throw (.unknownExtension key registry.names)
  | v => throw (.invalidDeclaration key (key ++ " must be a table, found " ++ v.describe))

def applyKeys (p : Project σ) (options : Options) : List (String × Value) → Act σ Unit
  | [] => pure ()
  | (key, v) :: rest => do
    if key != pluginsKey && key != dependenciesKey then p.applyKey options key v
    p.applyKeys options rest

/-- Applies a whole document. -/
def apply (p : Project σ) (options : Options) (document : Table) : Act σ Unit := do
  if let some plugins := document.get? pluginsKey then
    p.applyPlugins (← .ofExcept (pluginIds plugins))
  p.applyKeys options document
  if let some declarations := document.get? dependenciesKey then
    p.dependencies declarations
  p.afterEvaluate

/-- The project with a cache of shapes, for whole passes over documents. -/
def cached (p : Project σ) : Project (σ × ShapeCache σ) where
  host := p.host.cached
  registry s := p.registry s.1
  components? typeName := (p.components? typeName).map (·.within .fst)
  applyPlugin id := (p.applyPlugin id).within .fst
  dependencies v := (p.dependencies v).within .fst
  afterEvaluate := p.afterEvaluate.within .fst

end Project

end BuildReplay
