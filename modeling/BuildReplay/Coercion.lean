import BuildReplay.Host

/-!
# Coercion

Document values as values of declared types. The table `convert?` is closed: what it does not list
does not convert, and nothing is turned into a text on the way.
-/

namespace BuildReplay

/-- A path of a document, seen from the project root. -/
def resolvePath (root : Path) (raw : String) : Path :=
  if (Path.mk raw).isAbsolute then ⟨raw⟩ else root.join ⟨raw⟩

/-- The table of conversions. -/
def convert? (root : Path) : ValueType → Value → Option Live
  | .bool, .boolean b => some (.boolean b)
  | .int, .integer i => if fitsInt i then some (.int i.toInt32) else none
  | .long, .integer i => some (.long i)
  | .double, .float x => some (.double x)
  | .double, .integer i => some (.double (.ofInt i.toInt))
  | .string, .string s => some (.string s)
  | .enumeration e, .string s => (e.valueOf? s).map (.enumeration e)
  | .path, .string s => some (.path (resolvePath root s))
  | .any, v => some (.raw v)
  | _, _ => none

/-- A value that may be missing, as a value of `target`; `path` names it in errors. -/
def coerce (root : Path) (v? : Option Value) (target : ValueType) (path : String) :
    Except Error Live :=
  match v? with
  | none => .error (.missingValue path)
  | some v => match convert? root target v with
    | some live => .ok live
    | none => .error (.unsupportedCoercion path target.text v.describe)

/-- The path of an item of an array. -/
def itemPath (path : String) (index : Nat) : String := path ++ "[" ++ toString index ++ "]"

/-- An item of an array, as a value of `target`. -/
def coerceItem (root : Path) (items : List Value) (index : Nat) (target : ValueType)
    (path : String) : Except Error Live :=
  coerce root items[index]? target (itemPath path index)

/-- The constant that the factory of an enumeration makes. -/
def enumConstant (e : EnumRef) (argument path : String) : Except Error Live :=
  match e.valueOf? argument with
  | some constant => .ok (.enumeration e constant)
  | none => .error (.unsupportedCoercion path e.name ("constant " ++ Text.quoted argument))

/-- A value made by a factory of the type: `valueOf` of an enumeration, or a factory of an object
type. There is none when the type has no factory of that name. -/
def invokeFactory {σ : Type} (host : Host σ) (target : ValueType) (factory argument path : String) :
    Act σ (Option Live) :=
  match target with
  | .enumeration e =>
    if factory = "valueOf" then .ofExcept ((enumConstant e argument path).map some) else pure none
  | .object t => do
    match (← host.shapeOf t).factory? factory with
    | some f => some <$> f.build argument
    | none => pure none
  | _ => pure none

end BuildReplay
