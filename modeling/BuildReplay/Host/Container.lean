import BuildReplay.Dictionary
import BuildReplay.Host.Act
import BuildReplay.Lens
import BuildReplay.Live

/-!
# Containers

The containers that host objects hold in their fields: lists, maps, cells and named collections. A
container is a part of the host's state together with the conversion its items pass; every handle to
it reads and writes that one part.
-/

namespace BuildReplay

/-- A growing list. -/
structure Collection (σ : Type) where
  Item : Type
  items : Lens σ (List Item)
  accept : Live → Except Error Item

/-- A map under texts as keys. -/
structure MapSink (σ : Type) where
  Item : Type
  entries : Lens σ (Dictionary Item)
  accept : Live → Except Error Item

/-- A cell for one value. -/
structure PropertyCell (σ : Type) where
  Item : Type
  value : Lens σ (Option Item)
  accept : Live → Except Error Item

/-- Objects under names, in the order of their creation. -/
structure NamedCollection (σ : Type) where
  Element : Type
  described : Described Element
  entries : Lens σ (List (String × Ref Element))
  /-- Makes an object of a name, outside the collection. -/
  create : String → σ → Ref Element × σ

variable {σ : Type}

/-- Adds an item to the end. -/
def Collection.push (c : Collection σ) (item : c.Item) : Act σ Unit :=
  .modify (c.items.modify (· ++ [item]))

/-- Adds the converted value to the end. -/
def Collection.append (c : Collection σ) (v : Live) : Act σ Unit := do
  let item ← .ofExcept (c.accept v)
  .modify (c.items.modify (· ++ [item]))

def Collection.length (c : Collection σ) (s : σ) : Nat := (c.items.get s).length

/-- Puts an item under a key, in place of what was there. -/
def MapSink.put (m : MapSink σ) (key : String) (item : m.Item) : Act σ Unit :=
  .modify (m.entries.modify (·.insert key item))

/-- Puts the converted value under a key, in place of what was there. -/
def MapSink.insert (m : MapSink σ) (key : String) (v : Live) : Act σ Unit := do
  let item ← .ofExcept (m.accept v)
  .modify (m.entries.modify (·.insert key item))

/-- Sets the cell to an item. -/
def PropertyCell.setItem (c : PropertyCell σ) (item : c.Item) : Act σ Unit :=
  .modify (c.value.set (some item))

/-- Sets the cell to the converted value. -/
def PropertyCell.set (c : PropertyCell σ) (v : Live) : Act σ Unit := do
  let item ← .ofExcept (c.accept v)
  .modify (c.value.set (some item))

namespace NamedCollection

/-- The handle to an element. -/
def handle (c : NamedCollection σ) (r : Ref c.Element) : ObjectRef :=
  let _ := c.described
  r.object

/-- The type of the elements. -/
def element (c : NamedCollection σ) : TypeRef := c.described.typeRef

def names (c : NamedCollection σ) (s : σ) : List String := (c.entries.get s).map (·.1)

def find? (c : NamedCollection σ) (name : String) (s : σ) : Option (Ref c.Element) :=
  ((c.entries.get s).find? (·.1 == name)).map (·.2)

/-- The element of a name, if it exists. -/
def getByName (c : NamedCollection σ) (name : String) (s : σ) : Option ObjectRef :=
  (c.find? name s).map c.handle

/-- The element of a name, made and added on the first request. -/
def obtain (c : NamedCollection σ) (name : String) (s : σ) : Ref c.Element × σ :=
  match c.find? name s with
  | some r => (r, s)
  | none =>
    let (r, s) := c.create name s
    (r, c.entries.modify (· ++ [(name, r)]) s)

def maybeCreate (c : NamedCollection σ) (name : String) : Act σ ObjectRef := fun s =>
  let (r, s) := c.obtain name s
  (.ok (c.handle r), s)

end NamedCollection

/-! ## Containers seen from a larger state -/

section Within

variable {τ : Type}

def Collection.within (c : Collection σ) (l : Lens τ σ) : Collection τ :=
  ⟨c.Item, l.comp c.items, c.accept⟩

def MapSink.within (m : MapSink σ) (l : Lens τ σ) : MapSink τ :=
  ⟨m.Item, l.comp m.entries, m.accept⟩

def PropertyCell.within (c : PropertyCell σ) (l : Lens τ σ) : PropertyCell τ :=
  ⟨c.Item, l.comp c.value, c.accept⟩

def NamedCollection.within (c : NamedCollection σ) (l : Lens τ σ) : NamedCollection τ where
  Element := c.Element
  described := c.described
  entries := l.comp c.entries
  create name t :=
    let (r, s) := c.create name (l.get t)
    (r, l.set s t)

/-- An act on a part of a state. -/
def Act.within {α : Type} (a : Act σ α) (l : Lens τ σ) : Act τ α := fun t =>
  let (r, s) := a (l.get t)
  (r, l.set s t)

end Within

end BuildReplay
