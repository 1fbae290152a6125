import BuildReplay.Shape

/-!
# Hosts

A host answers for its object types: it knows their shapes and finds the container behind a handle.
-/

namespace BuildReplay

/-- A graph of objects in a state of type `σ`. -/
structure Host (σ : Type) where
  shapeOf : TypeRef → Act σ (Shape σ)
  list? : Slot → Option (Collection σ)
  map? : Slot → Option (MapSink σ)
  property? : Slot → Option (PropertyCell σ)
  named? : Slot → Option (NamedCollection σ)

namespace Host

variable {σ τ : Type}

/-- The refusal of a handle to a container that is not there. -/
def missing (s : Slot) : Error := .host (s.owner.type.name ++ " holds nothing in " ++ s.field)

def append (h : Host σ) (s : Slot) (v : Live) : Act σ Unit :=
  match h.list? s with
  | some c => c.append v
  | none => throw (missing s)

def insert (h : Host σ) (s : Slot) (key : String) (v : Live) : Act σ Unit :=
  match h.map? s with
  | some m => m.insert key v
  | none => throw (missing s)

def setProperty (h : Host σ) (s : Slot) (v : Live) : Act σ Unit :=
  match h.property? s with
  | some c => c.set v
  | none => throw (missing s)

def maybeCreate (h : Host σ) (s : Slot) (name : String) : Act σ ObjectRef :=
  match h.named? s with
  | some c => c.maybeCreate name
  | none => throw (missing s)

def getByName (h : Host σ) (s : Slot) (name : String) : Act σ (Option ObjectRef) :=
  match h.named? s with
  | some c => .read (c.getByName name)
  | none => pure none

/-- A host whose state is a part of a larger one. -/
def within (h : Host σ) (l : Lens τ σ) : Host τ where
  shapeOf t := (fun s => s.within l) <$> (h.shapeOf t).within l
  list? s := (h.list? s).map (·.within l)
  map? s := (h.map? s).map (·.within l)
  property? s := (h.property? s).map (·.within l)
  named? s := (h.named? s).map (·.within l)

/-- Two hosts side by side: the first answers for the types that it owns, the second for the rest.
-/
def beside (h k : Host σ) (owned : TypeRef → Bool) : Host σ where
  shapeOf t := if owned t then h.shapeOf t else k.shapeOf t
  list? s := if owned s.owner.type then h.list? s else k.list? s
  map? s := if owned s.owner.type then h.map? s else k.map? s
  property? s := if owned s.owner.type then h.property? s else k.property? s
  named? s := if owned s.owner.type then h.named? s else k.named? s

end Host

end BuildReplay
