import BuildReplay.Host.Access
import BuildReplay.Shape

/-!
# Declarations over typed objects

Declarations whose getters and setters are functions of the host type itself. The objects of a type
lie in one heap of the host's state. A getter looks at its object, and a setter or a member has its
object to itself while it runs.
-/

namespace BuildReplay

/-- A state that holds objects of type `α` in a heap. -/
class Stored (σ α : Type) extends Described α where
  heap : Lens σ (Heap α)

variable {σ α β : Type}

/-- The object behind a handle. -/
def Ref.place [Stored σ α] (r : Ref α) : Lens σ α := Stored.heap.comp (Heap.object r.id)

/-- The object behind a handle. -/
def Ref.get [Stored σ α] (r : Ref α) (s : σ) : α := (r.place (σ := σ)).get s

def Ref.modify [Stored σ α] (r : Ref α) (f : α → α) (s : σ) : σ := (r.place (σ := σ)).modify f s

/-- Stores a new object. -/
def alloc [Stored σ α] (a : α) (s : σ) : Ref α × σ :=
  let heap : Lens σ (Heap α) := Stored.heap
  let (id, h) := (heap.get s).alloc a
  (⟨id⟩, heap.set h s)

/-- The argument at a position. -/
def argument [OfLive β] (args : List Live) (i : Nat) : Access σ β :=
  .ofExcept (ofLive (args.getD i .nothing))

/-- What is found where the object behind a handle is looked at as one of type `α`. -/
def getter [Described α] (look : Ref α → σ → Live) (o : ObjectRef) (s : σ) : Except Error Live :=
  ((o.lend .shared fun a => .read (look a)).act s).1

/-- A field that hands out the container which lies in another field of the object. -/
def Field.heldIn (α : Type) [Described α] (place name : String) (type : ValueType)
    (live : Slot → Live) : Field σ where
  name
  type
  read := getter fun (a : Ref α) _ => live ⟨a.object, place⟩
  write? := none

/-- A field that hands out the container in it. -/
def Field.held (α : Type) [Described α] (name : String) : ValueType → (Slot → Live) → Field σ :=
  .heldIn α name name

namespace Declaration

/-- A field that is read and written. -/
def stored [Stored σ α] [ToLive β] [OfLive β] (name : String) (type : ValueType) (get : α → β)
    (set : β → α → α) : Declaration σ :=
  .settable {
    name, type
    read := getter fun (a : Ref α) s => toLive (get (a.get s))
    write? := some fun o v => Access.act do
      let b ← .ofExcept (ofLive v)
      o.lend .exclusive fun a : Ref α => .modify (a.modify (set b)) }

/-- A field without storage. -/
def computed [Stored σ α] [ToLive β] (name : String) (type : ValueType) (get : α → β) :
    Declaration σ :=
  .settable {
    name, type
    read := getter fun (a : Ref α) s => toLive (get (a.get s))
    write? := none }

/-- A field that is only read. -/
def viewed [Stored σ α] [ToLive β] (name : String) (type : ValueType) (get : α → β) :
    Declaration σ :=
  .readOnly {
    name, type
    read := getter fun (a : Ref α) s => toLive (get (a.get s))
    write? := none }

section Containers

variable (α) [Described α]

def list (name : String) (element : ValueType) : Declaration σ :=
  .readOnly (.held α name (.list element) .list)

def map (name : String) (value : ValueType) : Declaration σ :=
  .readOnly (.held α name (.map value) .map)

def property (name : String) (inner : ValueType) : Declaration σ :=
  .readOnly (.held α name (.property inner) .property)

def collection (name : String) (element : TypeRef) : Declaration σ :=
  .readOnly (.held α name (.named element) (.named element))

end Containers

/-- One overload of a member, which has the object to itself while it runs. -/
def call [Described α] (name : String) (params : List ValueType)
    (body : Ref α → List Live → Access σ Live) : Declaration σ :=
  .member {
    name, params
    invoke := fun o args => (o.lend .exclusive fun a => body a args).act }

/-- A member that converts its one argument and changes the object with it. -/
def setter [Stored σ α] [OfLive β] (name : String) (param : ValueType) (set : β → α → α) :
    Declaration σ :=
  .call name [param] fun (a : Ref α) args => do
    let b ← .ofExcept (ofLive (args.getLastD .nothing))
    .modify (a.modify (set b))
    return .nothing

end Declaration

/-! ## Containers in the fields of objects -/

/-- A list in a field. -/
def Ref.list [Stored σ α] [OfLive β] (r : Ref α) (field : Lens α (List β)) : Collection σ :=
  ⟨β, r.place.comp field, ofLive⟩

def Ref.map [Stored σ α] [OfLive β] (r : Ref α) (field : Lens α (Dictionary β)) : MapSink σ :=
  ⟨β, r.place.comp field, ofLive⟩

def Ref.property [Stored σ α] [OfLive β] (r : Ref α) (field : Lens α (Option β)) : PropertyCell σ :=
  ⟨β, r.place.comp field, ofLive⟩

/-- A named collection in a field, whose elements are made by `make`. -/
def Ref.collection [Stored σ α] [Stored σ β] (r : Ref α) (field : Lens α (List (String × Ref β)))
    (make : String → β) : NamedCollection σ where
  Element := β
  described := Stored.toDescribed σ
  entries := r.place.comp field
  create name s := alloc (make name) s

end BuildReplay
