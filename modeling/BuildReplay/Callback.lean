import BuildReplay.Mapper.Walk

/-!
# Callbacks

Some extensions are not configured at once: they fire their callback points later, each time with a
fresh payload. A table of such an extension becomes registrations, one for each table below a
callback point, and a registered callback replays its table onto the payload.
-/

namespace BuildReplay

/-- The payloads that a callback applies to, by their names. -/
inductive Selector where
  | all
  | named (name : String)
deriving DecidableEq, Repr

/-- The key that stands for every payload. -/
def allSelector : String := "all"

namespace Selector

/-- The selector of a key below a callback point. -/
def ofKey (key : String) : Selector := if key = allSelector then .all else .named key

def matches? : Selector → String → Bool
  | all, _ => true
  | named expected, name => expected == name

end Selector

/-- A point that callbacks register for, and the type of its payloads. -/
structure CallbackPoint where
  name : String
  payload : TypeRef
deriving DecidableEq, Repr

/-- What happens to a payload. -/
inductive Callback where
  /-- Replays a table; `path` is where the table stands in its document. -/
  | replay (path : String) (payload : TypeRef) (options : Options) (body : Table)
  /-- Fails, whatever the payload. -/
  | refuse (reason : String)

/-- A callback registered for a point. -/
structure Registration where
  point : String
  selector : Selector
  callback : Callback

/-- An extension that takes callbacks. -/
structure Components (σ : Type) where
  typeName : String
  points : List CallbackPoint
  register : Registration → Act σ Unit

variable {σ : Type}

/-- Fires a callback with a payload. -/
def Callback.run (host : Host σ) (payload : ObjectRef) : Callback → Act σ Unit
  | replay path expected options body =>
    if payload.type = expected then BuildReplay.replay host options path body payload
    else throw <| .host ("callback at `" ++ path ++ "` expects " ++ expected.name
      ++ " but was fired with " ++ payload.type.name)
  | refuse reason => throw (.host reason)

/-- Whether a registration is meant when a point is fired for a payload of a name. -/
def Registration.selects (r : Registration) (point name : String) : Bool :=
  r.point == point && r.selector.matches? name

/-- Fires the registrations that a payload selects, one after the other; the first error ends it. -/
def fire (host : Host σ) (point name : String) (payload : ObjectRef) :
    List Registration → Act σ Unit
  | [] => pure ()
  | r :: rest => do
    if r.selects point name then r.callback.run host payload
    fire host point name payload rest

/-! ## Registration -/

/-- The registration that a table below a callback point stands for. -/
def registration (options : Options) (path : String) (point : CallbackPoint) (key : String)
    (body : Table) : Registration :=
  ⟨point.name, .ofKey key, .replay (path ++ "." ++ key) point.payload options body⟩

/-- Registers a callback for each entry of a callback point; `path` is that of the point. -/
def registerEntries (options : Options) (path : String) (point : CallbackPoint)
    (register : Registration → Act σ Unit) : List (String × Value) → Act σ Unit
  | [] => pure ()
  | (key, .table body) :: rest => do
    register (registration options path point key body)
    registerEntries options path point register rest
  | (key, _) :: _ => throw (.malformedVariantSelector path point.name key)

/-- Registers the callbacks that the value of a callback point declares. -/
def registerCallbacks (options : Options) (path : String) (point : CallbackPoint)
    (register : Registration → Act σ Unit) : Value → Act σ Unit
  | .table entries => registerEntries options path point register entries
  | v => throw <| .invalidDeclaration path
      ("`" ++ point.name ++ "` expects tables keyed by variant name, found " ++ v.describe)

/-- Registers the callbacks of a whole table; `path` is the extension's key in the document. -/
def Components.configure (c : Components σ) (options : Options) (path : String) :
    List (String × Value) → Act σ Unit
  | [] => pure ()
  | (key, v) :: rest =>
    match c.points.find? (·.name == key) with
    | none => throw <|
      .unknownDeclarationKey (path ++ "." ++ key) key c.typeName (c.points.map (·.name)) ""
    | some point => do
      registerCallbacks options (path ++ "." ++ key) point c.register v
      c.configure options path rest

/-- An extension seen from a larger state. -/
def Components.within {τ : Type} (c : Components σ) (l : Lens τ σ) : Components τ where
  typeName := c.typeName
  points := c.points
  register r := (c.register r).within l

end BuildReplay
