import BuildReplay.Host.Container
import BuildReplay.Text.Blank

/-!
# Shapes

What is known about one host type: its fields, its members with all their overloads, and its
factories. A shape is built from declarations, each of which says what it does to every name.
-/

namespace BuildReplay

/-- A field of a host type. -/
structure Field (σ : Type) where
  name : String
  type : ValueType
  read : ObjectRef → σ → Except Error Live
  /-- How the field is written; a field without storage has none. -/
  write? : Option (ObjectRef → Live → Act σ Unit)

/-- One overload of a member. -/
structure Member (σ : Type) where
  name : String
  params : List ValueType
  invoke : ObjectRef → List Live → Act σ Live

/-- A function of a type that makes a value from a text. -/
structure Factory (σ : Type) where
  name : String
  build : String → Act σ Live

/-- What is known about a host type. -/
structure Shape (σ : Type) where
  type : TypeRef
  settable : Dictionary (Field σ)
  readOnly : Dictionary (Field σ)
  /-- The overloads of each member, in the order of their declarations. -/
  members : Dictionary (List (Member σ))
  factories : Dictionary (Factory σ)
  /-- Whether keys without a field go through a member `put` of two parameters. -/
  mapLike : Bool

variable {σ : Type}

def Field.get (f : Field σ) (r : ObjectRef) : Act σ Live := .readExcept (f.read r)

def Field.text (f : Field σ) : String := f.name ++ ": " ++ f.type.text

def Member.arity (m : Member σ) : Nat := m.params.length

def Member.text (m : Member σ) : String :=
  m.name ++ "(" ++ ", ".intercalate (m.params.map ValueType.text) ++ ")"

def Factory.text (f : Factory σ) : String := "static " ++ f.name ++ "(String)"

/-- One statement about a type. -/
inductive Declaration (σ : Type) where
  /-- A field that is read and written, or, without storage, read and set through a member. -/
  | settable (f : Field σ)
  /-- A field that is only read; it yields to a settable one of its name. -/
  | readOnly (f : Field σ)
  | member (m : Member σ)
  | factory (f : Factory σ)
  | mapLike

namespace Shape

def empty (type : TypeRef) : Shape σ :=
  ⟨type, .empty, .empty, .empty, .empty, false⟩

/-- Takes in one declaration. -/
def declare (s : Shape σ) : Declaration σ → Shape σ
  | .settable f =>
    { s with settable := s.settable.insert f.name f, readOnly := s.readOnly.erase f.name }
  | .readOnly f =>
    if s.settable.contains f.name then s else { s with readOnly := s.readOnly.insert f.name f }
  | .member m =>
    { s with members := s.members.insert m.name ((s.members.get? m.name).getD [] ++ [m]) }
  | .factory f => { s with factories := s.factories.insert f.name f }
  | .mapLike => { s with mapLike := true }

/-- The shape that declarations describe, taken in one by one. -/
def ofDeclarations (type : TypeRef) (ds : List (Declaration σ)) : Shape σ :=
  ds.foldl declare (empty type)

def settable? (s : Shape σ) (name : String) : Option (Field σ) := s.settable.get? name

def readOnly? (s : Shape σ) (name : String) : Option (Field σ) := s.readOnly.get? name

/-- The field of a name. -/
def field? (s : Shape σ) (name : String) : Option (Field σ) := s.settable? name <|> s.readOnly? name

/-- All overloads of a member. -/
def members? (s : Shape σ) (name : String) : Option (List (Member σ)) := s.members.get? name

def factory? (s : Shape σ) (name : String) : Option (Factory σ) := s.factories.get? name

/-- The overloads of a member with a number of parameters. -/
def overloads (s : Shape σ) (name : String) (arity : Nat) : List (Member σ) :=
  ((s.members? name).getD []).filter (·.arity == arity)

/-- The names of all fields in ascending order. -/
def fieldNames (s : Shape σ) : List String :=
  (s.settable.keys ++ s.readOnly.keys).mergeSort (· ≤ ·)

/-- Every name a key can stand for: the fields, then the members that are no fields. -/
def availableNames (s : Shape σ) : List String :=
  s.fieldNames ++ s.members.keys.filter fun m => !s.fieldNames.contains m

/-- Whether there is nothing a key can stand for. -/
def isEmpty (s : Shape σ) : Bool := s.settable.isEmpty && s.readOnly.isEmpty && s.members.isEmpty

/-- The shape line by line. -/
def dump (s : Shape σ) : String :=
  String.join <|
    ["type = " ++ s.type.name ++ "\n"]
      ++ s.readOnly.values.map (fun f => "P : " ++ f.text ++ "\n")
      ++ s.settable.values.map (fun f => "M : " ++ f.text ++ "\n")
      ++ s.members.values.flatten.map (fun m => "F : " ++ m.text ++ "\n")
      ++ s.factories.values.map (fun f => "S : " ++ f.text ++ "\n")

end Shape

/-! ## Shapes seen from a larger state -/

section Within

variable {τ : Type}

def Field.within (f : Field σ) (l : Lens τ σ) : Field τ where
  name := f.name
  type := f.type
  read r t := f.read r (l.get t)
  write? := f.write?.map fun write r v => (write r v).within l

def Member.within (m : Member σ) (l : Lens τ σ) : Member τ where
  name := m.name
  params := m.params
  invoke r args := (m.invoke r args).within l

def Factory.within (f : Factory σ) (l : Lens τ σ) : Factory τ where
  name := f.name
  build argument := (f.build argument).within l

def Shape.within (s : Shape σ) (l : Lens τ σ) : Shape τ where
  type := s.type
  settable := s.settable.map (·.within l)
  readOnly := s.readOnly.map (·.within l)
  members := s.members.map fun ms => ms.map (·.within l)
  factories := s.factories.map (·.within l)
  mapLike := s.mapLike

end Within

end BuildReplay
