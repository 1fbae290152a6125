import BuildReplay.Coercion

/-!
# Scopes

What encloses a key while it is processed: its dotted path, and the frames of the objects and named
elements around it, innermost first. Names and members are looked up in the frames from the inside
out, so a key sees nothing but what encloses it.
-/

namespace BuildReplay

/-- Whether a declaration that cannot be applied is skipped or fails. -/
inductive Strictness where
  | lenient
  | strict
deriving DecidableEq, Repr, Inhabited

/-- How a document is applied. -/
structure Options where
  strictness : Strictness
  /-- Where relative paths of the document start. -/
  projectRoot : Path
deriving DecidableEq, Repr, Inhabited

/-- One enclosing object or collection. -/
inductive Frame (σ : Type) where
  /-- An object being populated. -/
  | object (self : ObjectRef) (shape : Shape σ)
  /-- A named collection, one element of which is being populated. -/
  | collection (element : TypeRef) (slot : Slot)

variable {σ : Type}

namespace Frame

/-- The value that a table of one text stands for, made by a factory of the expected type. -/
def factoryCall? : Value → Option (String × String)
  | .table [(factory, .string argument)] => some (factory, argument)
  | _ => none

/-- The value that `raw` stands for in this frame. An object's frame takes a table of one text as
the call of a factory; a collection's frame takes a text as the name of an element. -/
def resolve (host : Host σ) (raw : Value) (expected : ValueType) (path : String) :
    Frame σ → Act σ (Option Live)
  | .object _ _ =>
    match factoryCall? raw with
    | some (factory, argument) => invokeFactory host expected factory argument path
    | none => pure none
  | .collection element slot =>
    match expected, raw with
    | .object t, .string name =>
      if t = element then do return (← host.getByName slot name).map .object else pure none
    | _, _ => pure none

/-- The overloads of a member with a number of parameters; collections have no members. -/
def overloads (name : String) (arity : Nat) : Frame σ → List (Member σ)
  | .object _ shape => shape.overloads name arity
  | .collection _ _ => []

/-- The first overload of a member with a number of parameters. -/
def findMember? (name : String) (arity : Nat) (f : Frame σ) : Option (Member σ) :=
  (f.overloads name arity).head?

/-- The parameters of a call as values of the declared types. -/
def coerceParams (root : Path) (params : List Value) (path : String) (types : List ValueType) :
    Except Error (List Live) :=
  (types.zipIdx).mapM fun (type, index) => coerceItem root params index type path

/-- Calls the first of the overloads whose parameters convert. When none does, the first conversion
error is the outcome, and nothing when there was none. -/
def callFirst (root : Path) (self : ObjectRef) (params : List Value) (path : String) :
    Option Error → List (Member σ) → Act σ (Option Live)
  | mismatch, [] => match mismatch with
    | some e => throw e
    | none => pure none
  | mismatch, m :: rest => match coerceParams root params path m.params with
    | .ok args => some <$> m.invoke self args
    | .error (.unsupportedCoercion p target found) =>
      callFirst root self params path (mismatch <|> some (.unsupportedCoercion p target found)) rest
    | .error e => throw e

/-- Calls a member of the object of this frame with document values as its parameters. -/
def callMember (root : Path) (name : String) (params : List Value) (path : String) :
    Frame σ → Act σ (Option Live)
  | .object self shape =>
    callFirst root self params path none (shape.overloads name params.length)
  | .collection _ _ => pure none

end Frame

/-- What a symbol stands for in the innermost frame that knows it. -/
def resolveSymbol (host : Host σ) (raw : Value) (expected : ValueType) (path : String) :
    List (Frame σ) → Act σ (Option Live)
  | [] => pure none
  | f :: outer => do
    match ← f.resolve host raw expected path with
    | some live => return some live
    | none => resolveSymbol host raw expected path outer

/-- The innermost frame with an overload of that name and number of parameters, and the overload. A
frame whose overloads all take another number hides nothing. -/
def findMember? (name : String) (arity : Nat) (frames : List (Frame σ)) :
    Option (Frame σ × Member σ) :=
  frames.findSome? fun f => (f.findMember? name arity).map fun m => (f, m)

/-- What encloses a key. -/
structure Scope (σ : Type) where
  options : Options
  /-- The keys from the root of the document down. -/
  path : List String
  /-- The enclosing frames, innermost first. -/
  frames : List (Frame σ)

namespace Scope

/-- The dotted path of the current key. -/
def keyPath (sc : Scope σ) : String := ".".intercalate sc.path

/-- The scope of a key. -/
def key (sc : Scope σ) (k : String) : Scope σ := { sc with path := sc.path ++ [k] }

/-- The scope inside a frame. -/
def enter (sc : Scope σ) (f : Frame σ) : Scope σ := { sc with frames := f :: sc.frames }

def isStrict (sc : Scope σ) : Bool := sc.options.strictness == .strict

/-- The parts of a dotted path; empty parts do not count. -/
def pathParts (text : String) : List String :=
  ((text.toList.splitOn '.').map String.ofList).filter fun part => !part.isEmpty

/-- The scope of a whole document, whose paths are reported below `start`. -/
def top (options : Options) (start : String) : Scope σ := ⟨options, pathParts start, []⟩

end Scope

end BuildReplay
