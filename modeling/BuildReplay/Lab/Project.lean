import BuildReplay.Lab.Host
import BuildReplay.Project

/-!
# The project of the laboratory

Plugins that register laboratory objects, and an extension with three callback points, one of which
takes no callbacks.
-/

namespace BuildReplay.Lab

/-- The extension that takes callbacks. -/
def components : Components (List Registration) where
  typeName := "LabComponents"
  points := [⟨"onItem", itemType⟩, ⟨"onOptions", optionsType⟩, ⟨"locked", optionsType⟩]
  register r :=
    if r.point = "locked" then throw (.host "locked accepts no callbacks") else .modify (· ++ [r])

/-- A project as it is configured. -/
structure LabProject where
  world : World
  registry : Registry
  /-- The plugins that were asked for, in order. -/
  applied : List String
  /-- The objects that plugins registered, in the order of their last registration. -/
  objects : List (String × ObjectRef)
  registrations : List Registration

namespace LabProject

def new : LabProject := ⟨.empty, .empty, [], [], []⟩

def worldLens : Lens LabProject World where
  get := world
  set w p := { p with world := w }

def registrationsLens : Lens LabProject (List Registration) where
  get := registrations
  set rs p := { p with registrations := rs }

/-- Registers an object under a name. -/
def addObject (name : String) (r : ObjectRef) (p : LabProject) : LabProject :=
  { p with
    registry := p.registry.register name (.object r)
    objects := p.objects.filter (·.1 != name) ++ [(name, r)] }

/-- Registers new options under a name. -/
def addOptions (name : String) (p : LabProject) : LabProject :=
  let (r, world) := createLab Options.new p.world
  { p with world }.addObject name r

/-- Applies a plugin; every request counts. -/
def applyPlugin (id : String) : Act LabProject Unit := fun p =>
  let p := { p with applied := p.applied ++ [id] }
  match id with
  | "java" => (.ok (), p.addOptions "java")
  | "dotted" => (.ok (), p.addOptions ".x..y.")
  | "lab" =>
    let (r, world) := Module.create p.world
    (.ok (), { p with world }.addObject "module" r.object)
  | "components" =>
    let registry := p.registry.register "java" (.components components.typeName)
    (.ok (), { p with registry })
  | "bad" => (.error (.host "bad plugin"), p)
  | _ => (.ok (), p)

/-- The project as documents see it. -/
def project : Project LabProject where
  host := Lab.host.within worldLens
  registry := registry
  components? typeName :=
    if typeName = components.typeName then some (components.within registrationsLens) else none
  applyPlugin := applyPlugin
  dependencies _ := pure ()
  afterEvaluate := pure ()

end LabProject

end BuildReplay.Lab
