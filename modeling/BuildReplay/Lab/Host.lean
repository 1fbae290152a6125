import BuildReplay.Android.Shapes
import BuildReplay.Lab.Shapes

/-!
# The host of the laboratory

The containers in the fields of the laboratory's objects, and the host that answers for them and for
the application model.
-/

namespace BuildReplay.Lab

/-- The list in a field. -/
def list? (s : Slot) : Option (Collection World) :=
  match s.owner.type.name, s.field with
  | "Item", "tags" => some <|
    (Ref.mk s.owner.id : Ref Item).list
      { get := Item.tags, set := fun v i => { i with tags := v }
        set_get := fun i => by cases i; rfl }
  | "Target", "sources" => some <|
    (Ref.mk s.owner.id : Ref Target).list
      { get := Target.sources, set := fun v t => { t with sources := v }
        set_get := fun t => by cases t; rfl }
  | "Target", "names" => some <|
    (Ref.mk s.owner.id : Ref Target).list
      { get := Target.names, set := fun v t => { t with names := v }
        set_get := fun t => by cases t; rfl }
  | "Target", "picked" => some <|
    (Ref.mk s.owner.id : Ref Target).list
      { get := Target.picked, set := fun v t => { t with picked := v }
        set_get := fun t => by cases t; rfl }
  | "Broken", "words" => some <|
    (Ref.mk s.owner.id : Ref Broken).list
      { get := Broken.words, set := fun v b => { b with words := v } }
  | "Module", "ports" => some <|
    (Ref.mk s.owner.id : Ref Module).list
      { get := Module.ports, set := fun v m => { m with ports := v } }
  | "Module", "weights" => some <|
    (Ref.mk s.owner.id : Ref Module).list
      { get := Module.weights, set := fun v m => { m with weights := v } }
  | "Module", "files" => some <|
    (Ref.mk s.owner.id : Ref Module).list
      { get := Module.files, set := fun v m => { m with files := v } }
  | "Module", "tags" => some <|
    (Ref.mk s.owner.id : Ref Module).list
      { get := Module.tags, set := fun v m => { m with tags := v } }
  | "Module", "modes" => some <|
    (Ref.mk s.owner.id : Ref Module).list
      { get := Module.modes, set := fun v m => { m with modes := v } }
  | "Module", "any" => some <|
    (Ref.mk s.owner.id : Ref Module).list
      { get := Module.any, set := fun v m => { m with any := v } }
  | _, _ => none

/-- The map in a field. -/
def map? (s : Slot) : Option (MapSink World) :=
  match s.owner.type.name, s.field with
  | "Broken", "numbers" => some <|
    (Ref.mk s.owner.id : Ref Broken).map
      { get := Broken.numbers, set := fun v b => { b with numbers := v } }
  | "Module", "limits" => some <|
    (Ref.mk s.owner.id : Ref Module).map
      { get := Module.limits, set := fun v m => { m with limits := v } }
  | "Module", "env" => some <|
    (Ref.mk s.owner.id : Ref Module).map
      { get := Module.env, set := fun v m => { m with env := v } }
  | "Module", "extras" => some <|
    (Ref.mk s.owner.id : Ref Module).map
      { get := Module.extras, set := fun v m => { m with extras := v } }
  | _, _ => none

/-- The cell in a field. -/
def property? (s : Slot) : Option (PropertyCell World) :=
  match s.owner.type.name, s.field with
  | "Item", "best" => some <|
    (Ref.mk s.owner.id : Ref Item).property
      { get := Item.best, set := fun v i => { i with best := v }
        set_get := fun i => by cases i; rfl }
  | "Broken", "cell" => some <|
    (Ref.mk s.owner.id : Ref Broken).property
      { get := Broken.cell, set := fun v b => { b with cell := v } }
  | "Module", "mode" => some <|
    (Ref.mk s.owner.id : Ref Module).property
      { get := Module.mode, set := fun v m => { m with mode := v } }
  | "Module", "factor" => some <|
    (Ref.mk s.owner.id : Ref Module).property
      { get := Module.factor, set := fun v m => { m with factor := v } }
  | "Module", "note" => some <|
    (Ref.mk s.owner.id : Ref Module).property
      { get := Module.note, set := fun v m => { m with note := v } }
  | _, _ => none

/-- The named collection in a field. -/
def named? (s : Slot) : Option (NamedCollection World) :=
  match s.owner.type.name, s.field with
  | "Target", "children" => some <|
    (Ref.mk s.owner.id : Ref Target).collection
      { get := Target.children, set := fun v t => { t with children := v }
        set_get := fun t => by cases t; rfl } Item.new
  | "Target", "targets" => some <|
    (Ref.mk s.owner.id : Ref Target).collection
      { get := Target.targets, set := fun v t => { t with targets := v }
        set_get := fun t => by cases t; rfl } Target.new
  | "Module", "items" => some <|
    (Ref.mk s.owner.id : Ref Module).collection
      { get := Module.items, set := fun v m => { m with items := v } } Item.new
  | "Module", "targets" => some <|
    (Ref.mk s.owner.id : Ref Module).collection
      { get := Module.targets, set := fun v m => { m with targets := v } } Target.new
  | _, _ => none

/-- The laboratory's own types as a host. -/
def ownHost : Host World where
  shapeOf t := match shape? t with
    | some s => pure s
    | none => throw (.host ("unknown type " ++ t.name))
  list?
  map?
  property?
  named?

/-- Whether a type belongs to the laboratory. -/
def isOwn (t : TypeRef) : Bool := declarationTable.any (·.1 == t)

/-- The laboratory together with the application model. -/
def host : Host World := ownHost.beside (Android.host.within World.modelLens) isOwn

end BuildReplay.Lab
