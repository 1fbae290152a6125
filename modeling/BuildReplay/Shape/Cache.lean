import BuildReplay.Host

/-!
# Cached shapes

The shape of a type is built on the first request and kept until the cache is cleared. A host with a
cache answers as the host without it does.
-/

namespace BuildReplay

variable {σ : Type}

/-- A shape with the number of the build that made it; one build gives one number. -/
structure BuiltShape (σ : Type) where
  shape : Shape σ
  build : Nat

/-- The shapes built since the last clearing, under their types. -/
structure ShapeCache (σ : Type) where
  entries : List (TypeRef × BuiltShape σ)
  /-- How many shapes were built so far. -/
  builds : Nat

namespace ShapeCache

def empty : ShapeCache σ := ⟨[], 0⟩

def get? (c : ShapeCache σ) (t : TypeRef) : Option (BuiltShape σ) :=
  (c.entries.find? (·.1 == t)).map (·.2)

def contains (c : ShapeCache σ) (t : TypeRef) : Bool := (c.get? t).isSome

def size (c : ShapeCache σ) : Nat := c.entries.length

def isEmpty (c : ShapeCache σ) : Bool := c.entries.isEmpty

/-- Forgets every shape; builds are still counted on. -/
def clear (c : ShapeCache σ) : ShapeCache σ := { c with entries := [] }

/-- Keeps a new shape. -/
def add (c : ShapeCache σ) (t : TypeRef) (shape : Shape σ) : BuiltShape σ × ShapeCache σ :=
  let built := ⟨shape, c.builds⟩
  (built, ⟨c.entries ++ [(t, built)], c.builds + 1⟩)

/-- The shape of a type, built by the host if the cache has none. -/
def shapeOf (h : Host σ) (t : TypeRef) : Act (σ × ShapeCache σ) (BuiltShape σ) := fun (s, c) =>
  match c.get? t with
  | some built => (.ok built, s, c)
  | none => match h.shapeOf t s with
    | (.ok shape, s) => let (built, c) := c.add t shape; (.ok built, s, c)
    | (.error e, s) => (.error e, s, c)

end ShapeCache

/-- The first part of a pair. -/
def Lens.fst {σ τ : Type} : Lens (σ × τ) σ where
  get s := s.1
  set a s := (a, s.2)

/-- A host that keeps the shapes it was asked for. -/
def Host.cached (h : Host σ) : Host (σ × ShapeCache σ) :=
  { h.within .fst with
    shapeOf := fun t => (fun built => built.shape.within .fst) <$> ShapeCache.shapeOf h t }

end BuildReplay
