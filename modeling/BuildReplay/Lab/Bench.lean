import BuildReplay.Lab.Host

/-!
# Containers on the bench

One container of every kind over one type of items, to try handles out on, apart from any object.
-/

namespace BuildReplay.Lab

/-- One list, one map, one cell and one named collection. -/
structure Bench (α : Type) where
  world : World
  items : List α
  entries : Dictionary α
  value : Option α
  elements : List (String × Ref Item)

namespace Bench

variable {α : Type}

def empty : Bench α := ⟨.empty, [], .empty, none, []⟩

def worldLens : Lens (Bench α) World where
  get := world
  set w b := { b with world := w }

/-- The list. -/
def collection [OfLive α] : Collection (Bench α) where
  Item := α
  items := { get := items, set := fun v b => { b with items := v } }
  accept := ofLive

/-- The map. -/
def mapSink [OfLive α] : MapSink (Bench α) where
  Item := α
  entries := { get := entries, set := fun v b => { b with entries := v } }
  accept := ofLive

/-- The cell. -/
def propertyCell [OfLive α] : PropertyCell (Bench α) where
  Item := α
  value := { get := value, set := fun v b => { b with value := v } }
  accept := ofLive

/-- The named collection. -/
def namedCollection : NamedCollection (Bench α) where
  Element := Item
  described := inferInstance
  entries := { get := elements, set := fun v b => { b with elements := v } }
  create name b :=
    let (r, world) := alloc (Item.new name) b.world
    (r, { b with world })

end Bench

end BuildReplay.Lab
