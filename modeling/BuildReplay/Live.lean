import BuildReplay.Document.Display
import BuildReplay.Error
import BuildReplay.Path
import BuildReplay.Text.Quoted
import BuildReplay.ValueType

/-!
# Live values

The values that move between a document and a host: converted scalars, handles to objects, and
handles to the containers in the fields of objects. `OfLive` and `ToLive` convert between them and
the types of host fields.
-/

namespace BuildReplay

/-- A handle to an object of a host. -/
structure ObjectRef where
  type : TypeRef
  id : Nat
deriving DecidableEq, Repr, Inhabited

/-- A container in a field of an object. -/
structure Slot where
  owner : ObjectRef
  field : String
deriving DecidableEq, Repr, Inhabited

/-- A value made by conversion or read from a host. -/
inductive Live where
  | nothing
  | boolean (b : Bool)
  | int (i : Int32)
  | long (i : Int64)
  | double (x : Double)
  | string (s : String)
  | enumeration (e : EnumRef) (constant : String)
  | path (p : Path)
  /-- A document value as it is. -/
  | raw (v : Value)
  | object (r : ObjectRef)
  | named (element : TypeRef) (s : Slot)
  | list (s : Slot)
  | map (s : Slot)
  | property (s : Slot)
deriving Inhabited

namespace Live

/-- The kind of a value, as messages name it. -/
def kind : Live → String
  | nothing => "nothing"
  | boolean _ => "boolean"
  | int _ => "int"
  | long _ => "long"
  | double _ => "double"
  | string _ => "string"
  | enumeration _ _ => "enum constant"
  | path _ => "path"
  | raw _ => "raw value"
  | object _ => "object"
  | named _ _ => "named collection"
  | list _ => "collection"
  | map _ => "map"
  | property _ => "property"

/-- Doubles of a message are positional and have no fraction of zero. -/
def doubleLayout : Decimal.Layout where
  positional _ := true
  fractionOfZero := false
  tie := .up
  nan := "NaN"
  infinity := "inf"

/-- A value in full, for messages. -/
def text : Live → String
  | nothing => "Unit"
  | boolean b => "Bool(" ++ (if b then "true" else "false") ++ ")"
  | int i => "Int(" ++ toString i.toInt ++ ")"
  | long i => "Long(" ++ toString i.toInt ++ ")"
  | double x => "Double(" ++ doubleLayout.render x ++ ")"
  | string s => "Str(" ++ Text.quoted s ++ ")"
  | enumeration e constant => "Enum(" ++ e.name ++ "." ++ constant ++ ")"
  | path p => "Path(" ++ Text.quoted p.text ++ ")"
  | raw v => "Raw(" ++ v.display ++ ")"
  | object r => "ObjectRef(" ++ r.type.name ++ ")"
  | v => v.kind

/-- The refusal of a value where something else is expected. -/
def mismatch (v : Live) (expected : String) : Error :=
  .host ("expected " ++ expected ++ " but got " ++ v.text)

end Live

/-- Conversion from a live value to the type of a host field. -/
class OfLive (α : Type) where
  ofLive : Live → Except Error α

/-- Conversion from the type of a host field to a live value. -/
class ToLive (α : Type) where
  toLive : α → Live

export OfLive (ofLive)
export ToLive (toLive)

/-- A type of host objects, with its name. -/
class Described (α : Type) where
  typeRef : TypeRef
  /-- The name with the modules in front of it. -/
  qualified : String := typeRef.name

export Described (typeRef)

/-- A handle to an object whose type is known. -/
structure Ref (α : Type) where
  id : Nat
deriving Repr, Inhabited

instance {α : Type} : DecidableEq (Ref α) := fun a b =>
  decidable_of_iff (a.id = b.id) ⟨fun h => by cases a; cases b; cases h; rfl, fun h => h ▸ rfl⟩

/-- The handle without its type. -/
def Ref.object {α : Type} [Described α] (r : Ref α) : ObjectRef := ⟨typeRef α, r.id⟩

/-- A type whose values are the constants of an enumeration. -/
class Enumerated (α : Type) where
  enumRef : EnumRef
  constant : α → String
  ofConstant? : String → Option α

export Enumerated (enumRef)

instance : OfLive Live := ⟨.ok⟩
instance : ToLive Live := ⟨id⟩

instance : ToLive Unit := ⟨fun _ => .nothing⟩

instance : OfLive Bool where
  ofLive
    | .boolean b => .ok b
    | v => .error (v.mismatch "boolean")

instance : ToLive Bool := ⟨.boolean⟩

/-- Whether an integer fits into 32 bits. -/
def fitsInt (i : Int64) : Bool :=
  Int32.minValue.toInt ≤ i.toInt && i.toInt ≤ Int32.maxValue.toInt

instance : OfLive Int32 where
  ofLive
    | .int i => .ok i
    | .long i => if fitsInt i then .ok i.toInt32 else .error ((Live.long i).mismatch "int")
    | v => .error (v.mismatch "int")

instance : ToLive Int32 := ⟨.int⟩

instance : OfLive Int64 where
  ofLive
    | .long i => .ok i
    | .int i => .ok i.toInt64
    | v => .error (v.mismatch "long")

instance : ToLive Int64 := ⟨.long⟩

instance : OfLive Double where
  ofLive
    | .double x => .ok x
    | v => .error (v.mismatch "double")

instance : ToLive Double := ⟨.double⟩

instance : OfLive String where
  ofLive
    | .string s => .ok s
    | v => .error (v.mismatch "string")

instance : ToLive String := ⟨.string⟩

instance : OfLive Path where
  ofLive
    | .path p => .ok p
    | v => .error (v.mismatch "path")

instance : ToLive Path := ⟨.path⟩

instance : OfLive Value where
  ofLive
    | .raw v => .ok v
    | v => .error (v.mismatch "raw value")

instance : ToLive Value := ⟨.raw⟩

instance {α : Type} [Described α] : OfLive (Ref α) where
  ofLive
    | .object r => if r.type = typeRef α then .ok ⟨r.id⟩
      else .error ((Live.object r).mismatch (typeRef α).name)
    | v => .error (v.mismatch (typeRef α).name)

instance {α : Type} [Described α] : ToLive (Ref α) := ⟨fun r => .object r.object⟩

instance {α : Type} [OfLive α] : OfLive (Option α) where
  ofLive
    | .nothing => .ok none
    | v => (ofLive v).map some

instance {α : Type} [ToLive α] : ToLive (Option α) where
  toLive
    | none => .nothing
    | some a => toLive a

/-- An enumeration takes its own constants, and texts that spell one. -/
def Enumerated.ofLive {α : Type} [Enumerated α] (v : Live) : Except Error α :=
  let refused := .error (v.mismatch (enumRef α).name)
  match v with
  | .enumeration e constant =>
    if e = enumRef α then (ofConstant? constant).elim refused .ok else refused
  | .string s => (ofConstant? s).elim refused .ok
  | _ => refused

def Enumerated.toLive {α : Type} [Enumerated α] (a : α) : Live :=
  .enumeration (enumRef α) (constant a)

end BuildReplay
