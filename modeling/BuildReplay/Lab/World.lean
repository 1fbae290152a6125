import BuildReplay.Android.Model

/-!
# A laboratory

Objects with fields and members of every kind, to try documents out on. They live in one world with
the objects of the application model.
-/

namespace BuildReplay.Lab

inductive Level where
  | low
  | high
deriving DecidableEq, Repr

inductive Mode where
  | low
  | fast
  | odd
deriving DecidableEq, Repr

namespace Level

def all : List Level := [low, high]

def constantName : Level → String
  | low => "LOW"
  | high => "HIGH"

/-- The name that logs show. -/
def title : Level → String
  | low => "Low"
  | high => "High"

end Level

namespace Mode

def all : List Mode := [low, fast, odd]

def constantName : Mode → String
  | low => "LOW"
  | fast => "FAST"
  | odd => "odd one"

/-- The name that logs show. -/
def title : Mode → String
  | low => "Low"
  | fast => "Fast"
  | odd => "Odd"

end Mode

instance : Enumerated Level where
  enumRef := ⟨"Level", Level.all.map Level.constantName⟩
  constant := Level.constantName
  ofConstant? s := Level.all.find? fun v => v.constantName == s

instance : OfLive Level := ⟨Enumerated.ofLive⟩
instance : ToLive Level := ⟨Enumerated.toLive⟩

instance : Enumerated Mode where
  enumRef := ⟨"Mode", Mode.all.map Mode.constantName⟩
  constant := Mode.constantName
  ofConstant? s := Mode.all.find? fun v => v.constantName == s

instance : OfLive Mode := ⟨Enumerated.ofLive⟩
instance : ToLive Mode := ⟨Enumerated.toLive⟩

/-! ## Objects -/

/-- Fields of every scalar type, and one for an object of the same type. -/
structure Options where
  verbose : Bool
  isStrict : Bool
  retries : Int32
  big : Int64
  ratio : Double
  note : Option String
  raw : Option Value
  dir : Option Path
  level : Option Level
  child : Option (Ref Options)

/-- An element of a named collection, with members that take other elements. -/
structure Item where
  name : String
  weight : Int32
  peer : Option (Ref Item)
  best : Option (Ref Item)
  tags : List String
  log : List String

/-- An element that has named collections of its own. -/
structure Target where
  name : String
  a : Int32
  b : Int32
  sources : List Path
  names : List String
  picked : List (Ref Item)
  children : List (String × Ref Item)
  targets : List (String × Ref Target)

/-- An object that factories make from a text. -/
structure Version where
  major : Int32
  text : String

/-- An object like a map, with a member `put`. -/
structure Labels where
  title : String
  entries : List (String × String)

/-- An object like a map, without a member `put`. -/
structure Bag where
  log : List String

/-- Fields that hold something other than they declare. -/
structure Broken where
  words : List String
  numbers : Dictionary Int32
  cell : Option Int32
  text : String
  version : Option (Ref Version)
  done : Bool
  log : List String

/-- A type with nothing on it. -/
structure Empty where

/-- The root of a laboratory document. -/
structure Module where
  enabled : Bool
  label : String
  level : Option Level
  raw : Option Value
  extra : Option (Ref Options)
  version : Option (Ref Version)
  priority : Int32
  ports : List Int32
  weights : List Double
  limits : Dictionary Int64
  mode : Option Level
  items : List (String × Ref Item)
  files : List Path
  tags : List String
  modes : List Mode
  any : List Value
  env : Dictionary Int32
  extras : Dictionary Value
  factor : Option Double
  note : Option Value
  targets : List (String × Ref Target)
  options : Ref Options
  labels : Ref Labels
  bag : Ref Bag
  broken : Ref Broken
  log : List String

/-! ## New objects -/

def Options.new : Options := ⟨false, false, 0, 0, .zero, none, none, none, none, none⟩

def Item.new (name : String) : Item := ⟨name, 0, none, none, [], []⟩

def Target.new (name : String) : Target := ⟨name, 0, 0, [], [], [], [], []⟩

/-- Whether a target can have targets of its own. -/
def Target.isInner (t : Target) : Bool := !t.name.startsWith "leaf"

def Version.new : Version := ⟨0, ""⟩

def Labels.new : Labels := ⟨"", []⟩

def Bag.new : Bag := ⟨[]⟩

def Broken.new : Broken := ⟨[], .empty, none, "", none, false, []⟩

/-- A module around the objects that belong to it. -/
def Module.new (options : Ref Options) (labels : Ref Labels) (bag : Ref Bag) (broken : Ref Broken) :
    Module where
  enabled := false
  label := ""
  level := none
  raw := none
  extra := none
  version := none
  priority := 0
  ports := []
  weights := []
  limits := .empty
  mode := none
  items := []
  files := []
  tags := []
  modes := []
  any := []
  env := .empty
  extras := .empty
  factor := none
  note := none
  targets := []
  options
  labels
  bag
  broken
  log := []

/-! ## The world -/

/-- All objects of a laboratory and of the application model. -/
structure World where
  model : Android.Model
  options : Heap Options
  items : Heap Item
  targets : Heap Target
  versions : Heap Version
  labels : Heap Labels
  bags : Heap Bag
  brokens : Heap Broken
  empties : Heap Empty
  modules : Heap Module

def World.empty : World where
  model := .empty
  options := .empty .new
  items := .empty (.new "")
  targets := .empty (.new "")
  versions := .empty .new
  labels := .empty .new
  bags := .empty .new
  brokens := .empty .new
  empties := .empty ⟨⟩
  modules := .empty (.new ⟨0⟩ ⟨0⟩ ⟨0⟩ ⟨0⟩)

def World.modelLens : Lens World Android.Model where
  get := World.model
  set m w := { w with model := m }

instance : Described Options where typeRef := ⟨"Options"⟩
instance : Described Item where typeRef := ⟨"Item"⟩
instance : Described Target where typeRef := ⟨"Target"⟩
instance : Described Version where typeRef := ⟨"Version"⟩
instance : Described Labels where typeRef := ⟨"Labels"⟩
instance : Described Bag where typeRef := ⟨"Bag"⟩
instance : Described Broken where typeRef := ⟨"Broken"⟩
instance : Described Empty where typeRef := ⟨"Empty"⟩
instance : Described Module where typeRef := ⟨"Module"⟩

instance : Stored World Options where
  heap := { get := World.options, set := fun h w => { w with options := h } }

instance : Stored World Item where
  heap := { get := World.items, set := fun h w => { w with items := h } }

instance : Stored World Target where
  heap := { get := World.targets, set := fun h w => { w with targets := h } }

instance : Stored World Version where
  heap := { get := World.versions, set := fun h w => { w with versions := h } }

instance : Stored World Labels where
  heap := { get := World.labels, set := fun h w => { w with labels := h } }

instance : Stored World Bag where
  heap := { get := World.bags, set := fun h w => { w with bags := h } }

instance : Stored World Broken where
  heap := { get := World.brokens, set := fun h w => { w with brokens := h } }

instance : Stored World Empty where
  heap := { get := World.empties, set := fun h w => { w with empties := h } }

instance : Stored World Module where
  heap := { get := World.modules, set := fun h w => { w with modules := h } }

/-- A new module, whose options have options of their own. -/
def Module.create (w : World) : Ref Module × World :=
  let (child, w) := alloc Options.new w
  let (options, w) := alloc { Options.new with child := some child } w
  let (labels, w) := alloc Labels.new w
  let (bag, w) := alloc Bag.new w
  let (broken, w) := alloc Broken.new w
  alloc (Module.new options labels bag broken) w

/-- A new object of an application type stored in the model. -/
def createModel {α : Type} [Stored Android.Model α] (a : α) (w : World) : ObjectRef × World :=
  let (r, m) := alloc a w.model
  (r.object, { w with model := m })

/-- A new object of a laboratory type. -/
def createLab {α : Type} [Stored World α] (a : α) (w : World) : ObjectRef × World :=
  let (r, w) := alloc a w
  (r.object, w)

/-- A new object of a type; `name` is for the types whose objects have one. -/
def create? (t : TypeRef) (name : String) (w : World) : Option (ObjectRef × World) :=
  match t.name with
  | "Options" => some (createLab Options.new w)
  | "Item" => some (createLab (Item.new name) w)
  | "Target" => some (createLab (Target.new name) w)
  | "Version" => some (createLab Version.new w)
  | "Labels" => some (createLab Labels.new w)
  | "Bag" => some (createLab Bag.new w)
  | "Broken" => some (createLab Broken.new w)
  | "Empty" => some (createLab (Empty.mk) w)
  | "Module" => let (r, w) := Module.create w; some (r.object, w)
  | "ApplicationExtension" =>
    let (r, m) := Android.ApplicationExtension.create ⟨"/project"⟩ w.model
    some (r.object, { w with model := m })
  | "DefaultConfig" => some (createModel Android.DefaultConfig.new w)
  | "BuildType" => some (createModel (Android.BuildType.new name) w)
  | "ProductFlavor" => some (createModel (Android.ProductFlavor.new name) w)
  | "SigningConfig" => some (createModel (Android.SigningConfig.new name) w)
  | "CompileOptions" => some (createModel Android.CompileOptions.new w)
  | "VariantBuilder" => some (createModel (Android.VariantBuilder.new name) w)
  | "Variant" => some (createModel (Android.Variant.new name) w)
  | _ => none

end BuildReplay.Lab
