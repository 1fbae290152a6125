import BuildReplay.Android.Project
import BuildReplay.BuildFile
import BuildReplay.Cli.Arguments
import BuildReplay.Config

/-!
# Commands

What the commands do: apply one build file and show the project, apply every build file under a
root, show the shapes of the model. Files are looked at through `Files`, so the commands run on a
file system that is a value as well as on the real one.
-/

namespace BuildReplay.Cli

open Android (ApplicationProject)

/-- One cause of a failure. -/
inductive Cause where
  | context (text : String)
  | error (e : Error)
deriving DecidableEq, Repr

def Cause.text : Cause → String
  | context text => text
  | error e => e.message

/-- Why a command failed, the outermost cause first. -/
structure Failure where
  causes : List Cause
deriving DecidableEq, Repr

namespace Failure

def ofText (text : String) : Failure := ⟨[.context text]⟩

/-- An error as a failure. Trouble with a file is caused by what the system said about it. -/
def ofError (e : Error) : Failure :=
  ⟨.error e :: match e with
    | .io message => [.context message]
    | _ => []⟩

/-- A failure in a larger undertaking. -/
def within (text : String) (f : Failure) : Failure := ⟨.context text :: f.causes⟩

/-- All causes on one line. -/
def text (f : Failure) : String := ": ".intercalate (f.causes.map Cause.text)

end Failure

/-- What a command leaves: the text it wrote, and how it ended. -/
structure Outcome where
  output : String
  result : Except Failure Unit

/-- How a project is to be configured; what is given here goes before the configuration file. -/
structure Request where
  strict : Bool
  projectRoot : Option Path
  variants : Bool
  /-- The variable that overrides the strictness. -/
  override : Option String

/-- The options that a request makes of a configuration. -/
def Request.options (r : Request) (c : Config) (fallback : Path) : Options :=
  let options := c.toOptions r.override fallback
  { strictness := if r.strict then .strict else options.strictness
    projectRoot := r.projectRoot.getD options.projectRoot }

/-- The report of the project that the document of a file makes. -/
def reportOf (options : Options) (variants : Bool) (file : Path) (document : Table) :
    Except Failure (Json String) :=
  match ApplicationProject.project.apply options document (.new options.projectRoot) with
  | (.error e, _) => .error ((Failure.ofError e).within ("Failed to apply " ++ file.text))
  | (.ok (), p) =>
    if variants then
      match ApplicationProject.finish p with
      | (.error e, _) => .error ((Failure.ofError e).within "Variant callback failed")
      | (.ok made, p) => .ok (p.report made)
    else .ok (p.report [])

section

variable {m : Type → Type} [Monad m]

/-- Finds, loads and applies the build file that a path means. -/
def configureProject (files : Files m) (r : Request) (path : Path) :
    ExceptT Failure m (Json String) := do
  let config ← (Config.discover files path).adapt fun e =>
    (Failure.ofError e).within ("Failed to load configuration for " ++ path.text)
  let name := config.effectiveBuildFileName
  let location ← (locateBuildFile files path name).adapt Failure.ofText
  let document ← (loadFile files location.buildFile).adapt Failure.ofError
  let options := r.options config location.projectDir
  ExceptT.mk (pure (reportOf options r.variants location.buildFile document))

/-! ## Apply -/

/-- Shows the project of one build file. -/
def applyFile (files : Files m) (r : Request) (path : Path) : m Outcome := do
  match ← (configureProject files r path).run with
  | .ok report => return ⟨report.pretty 0 ++ "\n", .ok ()⟩
  | .error failure => return ⟨"", .error failure⟩

/-! ## Check -/

/-- How a build file fared. -/
structure Verdict where
  file : Path
  failure? : Option Failure

def Verdict.isFailure (v : Verdict) : Bool := v.failure?.isSome

def Verdict.lines (v : Verdict) : String :=
  match v.failure? with
  | none => "✅ " ++ v.file.text ++ "\n"
  | some failure => "❌ " ++ v.file.text ++ "\n   " ++ failure.text ++ "\n"

/-- Tries every build file on its own. -/
def verdicts (files : Files m) (r : Request) : List Path → m (List Verdict)
  | [] => return []
  | file :: rest => do
    let result ← (configureProject files r file).run
    let failure? := match result with
      | .ok _ => none
      | .error failure => some failure
    return ⟨file, failure?⟩ :: (← verdicts files r rest)

/-- A line for every verdict, and the count. -/
def summary (vs : List Verdict) : Outcome :=
  let failed := (vs.filter Verdict.isFailure).length
  { output := String.join (vs.map Verdict.lines) ++ "\n" ++ toString vs.length ++ " checked, "
      ++ toString failed ++ " failed\n"
    result :=
      if failed = 0 then .ok ()
      else .error <| .ofText <|
        toString failed ++ " of " ++ toString vs.length ++ " build files failed" }

/-- Applies every build file under a root. -/
def checkRoot (files : Files m) (r : Request) (root : Path) : m Outcome := do
  match ← (Config.discover files root).run with
  | .error e => return ⟨"", .error (.ofError e)⟩
  | .ok config =>
    let name := config.effectiveBuildFileName
    let found ← findBuildFiles files root name
    if found.isEmpty then
      return ⟨"", .error (.ofText ("No " ++ name ++ " found under " ++ root.text))⟩
    else return summary (← verdicts files r found)

end

/-! ## Shape -/

/-- The shapes of some types of the model, with an empty line between them. -/
def shapeTexts (types : List TypeRef) : String :=
  "\n".intercalate (types.filterMap fun t => (Android.shape? t).map Shape.dump)

/-- Shows the shape of one type of the model, or of all. -/
def showShape (typeName : Option String) : Outcome :=
  match typeName with
  | none => ⟨shapeTexts Android.modelTypes, .ok ()⟩
  | some name => match Android.modelType? name with
    | some t => ⟨shapeTexts [t], .ok ()⟩
    | none => ⟨"", .error <| .ofText <| "Unknown type `" ++ name ++ "`, known types: "
        ++ ", ".intercalate (Android.modelTypes.map TypeRef.name)⟩

/-! ## All commands -/

/-- Runs a command. -/
def Command.run {m : Type → Type} [Monad m] (files : Files m) (override : Option String) :
    Command → m Outcome
  | .apply path strict projectRoot variants =>
    applyFile files { strict, projectRoot, variants, override } path
  | .check root strict =>
    checkRoot files { strict, projectRoot := none, variants := true, override } root
  | .shape typeName => return showShape typeName

end BuildReplay.Cli
