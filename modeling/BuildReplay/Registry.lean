import BuildReplay.Live

/-!
# The registry of extensions

Extensions under the names that plugins registered them with, in the order of first registration.
-/

namespace BuildReplay

/-- What a document's key configures. -/
inductive Extension where
  /-- An object that takes the table of the key. -/
  | object (r : ObjectRef)
  /-- An extension that takes callbacks, by its type name. -/
  | components (typeName : String)
deriving DecidableEq, Repr

def Extension.text : Extension → String
  | object r => "Extension(" ++ (Live.object r).text ++ ")"
  | components typeName => "Components(" ++ typeName ++ ")"

/-- Extensions under their names. -/
structure Registry where
  entries : List (String × Extension)
deriving Repr

namespace Registry

def empty : Registry := ⟨[]⟩

instance : Inhabited Registry := ⟨empty⟩

/-- Puts an extension in the place of the one of its name, or at the end. -/
def put (name : String) (e : Extension) : List (String × Extension) → List (String × Extension)
  | [] => [(name, e)]
  | x :: rest => if x.1 = name then (name, e) :: rest else x :: put name e rest

def register (r : Registry) (name : String) (e : Extension) : Registry := ⟨put name e r.entries⟩

def get? (r : Registry) (name : String) : Option Extension :=
  (r.entries.find? (·.1 == name)).map (·.2)

def contains (r : Registry) (name : String) : Bool := (r.get? name).isSome

def names (r : Registry) : List String := r.entries.map (·.1)

def size (r : Registry) : Nat := r.entries.length

def isEmpty (r : Registry) : Bool := r.entries.isEmpty

end Registry

end BuildReplay
