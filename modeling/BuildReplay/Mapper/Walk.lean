import BuildReplay.Mapper.Step

/-!
# The walk

A table is walked together with the object it describes, key by key in document order. Tables go
into nested objects and into the elements of named collections, which are made when they are
missing. The scope of a key is handed down, so it holds what encloses the key and nothing else.
-/

namespace BuildReplay

variable {σ : Type}

mutual

/-- Goes on with the table of a key after its step. -/
def walkNext (host : Host σ) (sc : Scope σ) (next : Next) : Value → Act σ Unit
  | .table entries =>
    match next with
    | .done => pure ()
    | .object r => do
      let shape ← host.shapeOf r.type
      walkEntries host (sc.enter (.object r shape)) shape r entries
    | .elements element slot => walkElements host sc element slot entries
  | _ => pure ()

/-- Applies the keys of a table to an object; the object is the innermost frame of `sc`. -/
def walkEntries (host : Host σ) (sc : Scope σ) (shape : Shape σ) (self : ObjectRef) :
    List (String × Value) → Act σ Unit
  | [] => pure ()
  | (key, v) :: rest => do
    let next ← keyStep host (sc.key key) shape self key v
    walkNext host (sc.key key) next v
    walkEntries host sc shape self rest

/-- Makes the elements of a collection that are missing, and applies the table of each of them. -/
def walkElements (host : Host σ) (sc : Scope σ) (element : TypeRef) (slot : Slot) :
    List (String × Value) → Act σ Unit
  | [] => pure ()
  | (name, v) :: rest => do
    if v.isTable then
      let r ← host.maybeCreate slot name
      walkNext host ((sc.key name).enter (.collection element slot)) (.object r) v
      walkElements host sc element slot rest
    else
      throw <| .invalidDeclaration (sc.key name).keyPath
        ("expected a table for element `" ++ name ++ "`, found " ++ v.describe)

end

/-- Applies a table to an object within a scope. -/
def populate (host : Host σ) (sc : Scope σ) (r : ObjectRef) (t : Table) : Act σ Unit :=
  walkNext host sc (.object r) (.table t)

/-- Applies a whole document to an object. Paths in errors start with the parts of `start`. -/
def replay (host : Host σ) (options : Options) (start : String) (t : Table) (r : ObjectRef) :
    Act σ Unit :=
  populate host (.top options start) r t

end BuildReplay
