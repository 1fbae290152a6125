import BuildReplay.FileTree
import BuildReplay.Json.Reader
import BuildReplay.Scope
import BuildReplay.Text.Blank

/-!
# Configuration

Settings that lie in a file beside a project, or in a directory above it. The nearest file counts,
and the environment overrides its strictness.
-/

namespace BuildReplay

/-- The name of a configuration file. -/
def configFileName : String := ".declarative.json"

/-- The environment variable that overrides the strictness. -/
def strictVariable : String := "DECLARATIVE_STRICT"

/-- The name of a build file where the configuration gives none. -/
def defaultBuildFileName : String := "build.gradle.toml"

/-- The settings of a configuration file. -/
structure Config where
  strict : Option Bool
  buildFileName : Option String
  /-- Seen from the directory of the file. -/
  projectRoot : Option Path
  /-- The directory of the file. -/
  sourceDir : Option Path
deriving DecidableEq, Repr

namespace Config

/-- The settings where there is no file. -/
def default : Config := ⟨none, none, none, none⟩

/-! ## Reading -/

/-- A setting that may be null. -/
def boolean? : Json.Source → Option (Option Bool)
  | .null => some none
  | .boolean b => some (some b)
  | _ => none

def text? : Json.Source → Option (Option String)
  | .null => some none
  | .string (some s) => some (some s)
  | _ => none

/-- The value under a key that is there once at most; a missing one reads as null. -/
def entry? (key : String) (entries : List (Option String × Json.Source)) : Option Json.Source :=
  match entries.filter (·.1 == some key) with
  | [] => some .null
  | [(_, j)] => some j
  | _ => none

/-- The settings of three values. -/
def ofValues? (strict buildFileName projectRoot : Json.Source) : Option Config := do
  return ⟨← boolean? strict, ← text? buildFileName, (← text? projectRoot).map Path.mk, none⟩

/-- The settings of an object, or of an array that gives them in order. -/
def ofSource? : Json.Source → Option Config
  | .object entries =>
    if entries.all (·.1.isSome) then do
      ofValues? (← entry? "strict" entries) (← entry? "buildFileName" entries)
        (← entry? "projectRoot" entries)
    else none
  | .array [] => ofValues? .null .null .null
  | .array [a] => ofValues? a .null .null
  | .array [a, b] => ofValues? a b .null
  | .array [a, b, c] => ofValues? a b c
  | _ => none

/-- The settings that a text spells. -/
def read? (text : String) : Option Config := Json.read? text >>= ofSource?

/-- The settings as JSON; what is unset is left out, as is the directory. -/
def json (c : Config) : Json String := .object <|
  (c.strict.map fun b => ("strict", .boolean b)).toList
    ++ (c.buildFileName.map fun s => ("buildFileName", .string s)).toList
    ++ (c.projectRoot.map fun p => ("projectRoot", .string p.text)).toList

/-! ## Discovery -/

variable {m : Type → Type} [Monad m]

/-- The settings of the file in a directory, if there is one. -/
def load (files : Files m) (dir : Path) : ExceptT Error m (Option Config) := do
  let path := dir.join ⟨configFileName⟩
  match ← files.kind? path with
  | none => return none
  | some _ => match ← files.read path with
    | .error fault => throw (.io fault.text)
    | .ok text => match read? text with
      | some c => return some { c with sourceDir := some dir }
      | none => throw (.config (path.text ++ ": malformed settings"))

/-- The settings of the first directory with a file. -/
def loadFirst (files : Files m) : List Path → ExceptT Error m Config
  | [] => return default
  | dir :: outer => do
    match ← load files dir with
    | some c => return c
    | none => loadFirst files outer

/-- The settings that count for a path: those of the nearest directory with a file. -/
def discover (files : Files m) (start : Path) : ExceptT Error m Config := do
  let dir := match ← files.kind? start with
    | some .file => start.parent?.getD start
    | _ => start
  loadFirst files dir.ancestors

/-! ## Use -/

def effectiveBuildFileName (c : Config) : String := c.buildFileName.getD defaultBuildFileName

/-- The strictness that a variable asks for. -/
def strictOfVariable? (value : String) : Option Bool :=
  match (Text.trim value).toLower with
  | "1" | "true" | "yes" => some true
  | "0" | "false" | "no" => some false
  | _ => none

/-- The strictness that counts; the variable goes before the file. -/
def strictness (c : Config) (override : Option String) : Strictness :=
  if (override.bind strictOfVariable? <|> c.strict) = some true then .strict else .lenient

/-- How the documents of a project are applied; `fallback` is the root where the file gives none. -/
def toOptions (c : Config) (override : Option String) (fallback : Path) : Options where
  strictness := c.strictness override
  projectRoot := match c.projectRoot with
    | none => fallback
    | some root => if root.isAbsolute then root else (c.sourceDir.getD fallback).join root

end Config

/-- The strictness that a JSON text names. -/
def Strictness.read? (text : String) : Option Strictness :=
  match Json.read? text with
  | some (.string (some name)) => ofName? name
  | some (.object [(some name, .null)]) => ofName? name
  | _ => none
where
  ofName? : String → Option Strictness
    | "strict" => some .strict
    | "lenient" => some .lenient
    | _ => none

end BuildReplay
