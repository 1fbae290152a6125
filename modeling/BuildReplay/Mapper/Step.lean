import BuildReplay.Mapper.Argument
import BuildReplay.Text.Capital

/-!
# One key

What one key of a table does to the object it is applied to. A key is a dispatch request, a settable
field of its name or of its `is` form, a read-only field, or a member, in this order. A step ends
with what is left to walk: a table may go on into an object or into the elements of a collection.
-/

namespace BuildReplay

variable {σ : Type}

/-- The key of a dispatch request, at every level of a document. -/
def dispatchKey : String := "_dispatch_"

/-- What is left of a key after its step: nothing, or its table, to be applied to an object or to
the elements of a collection. -/
inductive Next where
  | done
  | object (r : ObjectRef)
  | elements (element : TypeRef) (slot : Slot)
deriving DecidableEq, Repr

/-- The accessor name of a boolean field. -/
def isName (key : String) : String := "is" ++ Text.capitalize key

/-- The name of the member that sets a field. -/
def setterName (key : String) : String := "set" ++ Text.capitalize key

/-- The error for a key that names nothing on a type. -/
def unknownKey (shape : Shape σ) (path key : String) : Error :=
  .unknownDeclarationKey path key shape.type.name shape.availableNames (Text.trimEnd shape.dump)

namespace Scope

def unassignable (sc : Scope σ) (shape : Shape σ) (f : Field σ) (reason : String) : Error :=
  .unassignableField sc.keyPath f.name shape.type.name reason

/-- The outcome when nothing fits: skipped, or an error in strict mode. -/
def unresolved (sc : Scope σ) (key : String) : Act σ Unit :=
  if sc.isStrict then throw (.unresolvedArgument sc.keyPath key) else pure ()

/-- The outcome of a table for an object field that the host left unset. -/
def unsetObject (sc : Scope σ) (shape : Shape σ) (f : Field σ) : Act σ Next :=
  if sc.isStrict then throw (sc.unassignable shape f "field is unset on the host") else pure .done

/-- The type of the items of a field's container. -/
def contained (sc : Scope σ) (shape : Shape σ) (f : Field σ) : Except Error ValueType :=
  match f.type.contained? with
  | some t => .ok t
  | none => .error <|
    sc.unassignable shape f ("declared type " ++ f.type.text ++ " has no element type")

/-- The refusal of a getter's value that does not fit the declared type. -/
def wrongGetter (sc : Scope σ) (shape : Shape σ) (f : Field σ) (live : Live) : Error :=
  sc.unassignable shape f ("getter returned " ++ live.kind)

end Scope

/-! ## Containers -/

/-- Appends items one by one; `index` counts them for error paths. -/
def appendAll (host : Host σ) (sc : Scope σ) (slot : Slot) (element : ValueType) :
    Nat → List Value → Act σ Unit
  | _, [] => pure ()
  | index, v :: rest => do
    let item ← .ofExcept <|
      coerce sc.options.projectRoot (some v) element (itemPath sc.keyPath index)
    host.append slot item
    appendAll host sc slot element (index + 1) rest

/-- Puts entries into a map one by one. -/
def insertAll (host : Host σ) (sc : Scope σ) (slot : Slot) (value : ValueType) :
    List (String × Value) → Act σ Unit
  | [] => pure ()
  | (key, v) :: rest => do
    let item ← .ofExcept <|
      coerce sc.options.projectRoot (some v) value (sc.keyPath ++ "." ++ key)
    host.insert slot key item
    insertAll host sc slot value rest

/-- A value for a named collection has to be a table of elements. -/
def elementsStep (sc : Scope σ) (shape : Shape σ) (f : Field σ) (live : Live) (v : Value) :
    Except Error Next :=
  match live with
  | .named element slot =>
    if v.isTable then .ok (.elements element slot)
    else .error <|
      .invalidDeclaration sc.keyPath ("expected a table of named elements, found " ++ v.describe)
  | live => .error (sc.wrongGetter shape f live)

/-! ## Fields -/

/-- Writes a field. One without storage is set through the first setter of one parameter. -/
def assign (host : Host σ) (sc : Scope σ) (shape : Shape σ) (self : ObjectRef) (f : Field σ)
    (key : String) (v : Value) : Act σ Unit := do
  let live ← resolveValue host sc f.type v
  match f.write? with
  | some write => write self live
  | none =>
    match (shape.overloads (setterName key) 1).head? with
    | some m => discard (m.invoke self [live])
    | none => throw <|
      sc.unassignable shape f ("no backing storage and no `" ++ setterName key ++ "` member")

/-- A key of a settable field. -/
def settableStep (host : Host σ) (sc : Scope σ) (shape : Shape σ) (self : ObjectRef) (f : Field σ)
    (key : String) (v : Value) : Act σ Next :=
  match f.type, v with
  | .named _, v => do .ofExcept (elementsStep sc shape f (← f.get self) v)
  | .property inner, v => do
    match ← f.get self with
    | .property slot =>
      host.setProperty slot (← resolveValue host sc inner v)
      return .done
    | live => throw (sc.wrongGetter shape f live)
  | .list element, .array items => do
    match ← f.get self with
    | .list slot =>
      appendAll host sc slot element 0 items
      return .done
    | live => throw (sc.wrongGetter shape f live)
  | .map value, .table entries => do
    match ← f.get self with
    | .map slot =>
      insertAll host sc slot value entries
      return .done
    | live => throw (sc.wrongGetter shape f live)
  | type, .table entries => do
    match ← f.get self, type with
    | .object r, _ => return .object r
    | .nothing, .object _ => sc.unsetObject shape f
    | _, _ =>
      assign host sc shape self f key (.table entries)
      return .done
  | _, v => do
    assign host sc shape self f key v
    return .done

/-- A key of a read-only field: what the field holds is changed, never the field. -/
def readOnlyStep (host : Host σ) (sc : Scope σ) (shape : Shape σ) (self : ObjectRef) (f : Field σ)
    (v : Value) : Act σ Next := do
  match ← f.get self, v with
  | .named element slot, v => .ofExcept (elementsStep sc shape f (.named element slot) v)
  | .map slot, .table entries =>
    insertAll host sc slot (← .ofExcept (sc.contained shape f)) entries
    return .done
  | .object r, .table _ => return .object r
  | .list slot, .array items =>
    appendAll host sc slot (← .ofExcept (sc.contained shape f)) 0 items
    return .done
  | .list slot, v =>
    if v.isTable then throw (refused (.list slot) v)
    else
      let element ← .ofExcept (sc.contained shape f)
      host.append slot (← .ofExcept (coerce sc.options.projectRoot (some v) element sc.keyPath))
      return .done
  | .property slot, v =>
    let inner ← .ofExcept (sc.contained shape f)
    host.setProperty slot (← resolveValue host sc inner v)
    return .done
  | live, v => throw (refused live v)
where
  refused (live : Live) (v : Value) : Error :=
    sc.unassignable shape f ("read-only " ++ live.kind ++ " cannot take " ++ v.describe)

/-! ## Members -/

/-- Calls the first overload whose argument resolves; `first` is the argument in front of it, if
there is one. When none resolves, the first conversion error is the outcome, or that of nothing
fitting. -/
def invokeFirst (host : Host σ) (sc : Scope σ) (self : ObjectRef) (key : String) (v : Value)
    (first : Option Live) : Option Error → List (Member σ) → Act σ Unit
  | some e, [] => throw e
  | none, [] => sc.unresolved key
  | mismatch, m :: rest =>
    if m.arity = first.toList.length + 1 then do
      match ← (resolveArgument host sc (m.params.getLastD .any) v).attempt with
      | .ok (some argument) => discard (m.invoke self (first.toList ++ [argument]))
      | .ok none => invokeFirst host sc self key v first mismatch rest
      | .error (.unsupportedCoercion path target found) =>
        invokeFirst host sc self key v first
          (mismatch <|> some (.unsupportedCoercion path target found)) rest
      | .error e => throw e
    else invokeFirst host sc self key v first mismatch rest

/-- A key of a member: `put` on a type like a map, else the member of that name, else its setter. -/
def memberStep (host : Host σ) (sc : Scope σ) (shape : Shape σ) (self : ObjectRef) (key : String)
    (v : Value) : Act σ Unit :=
  match if shape.mapLike then shape.members? "put" else none with
  | some overloads => invokeFirst host sc self key v (some (.string key)) none overloads
  | none =>
    match shape.members? key <|> shape.members? (setterName key) with
    | some overloads => invokeFirst host sc self key v none none overloads
    | none => throw (unknownKey shape sc.keyPath key)

/-! ## Dispatch -/

/-- A request to call a member and append what it returns to a list field. -/
structure DispatchRequest where
  target : String
  method : String
  params : List Value

/-- Reads a request, or says what is wrong with it. -/
def DispatchRequest.ofValue (v : Value) : Except String DispatchRequest :=
  match v with
  | .table request => do
    let target ← text request "target" "`target` must be a field name string"
    let method ← text request "method" "`method` must be a member name string"
    match Table.get? request "params" with
    | none => return ⟨target, method, []⟩
    | some (.array params) => return ⟨target, method, params⟩
    | some other => throw ("`params` must be an array, found " ++ other.describe)
  | v => throw ("expected a table, found " ++ v.describe)
where
  text (request : Table) (key reason : String) : Except String String :=
    match (request.get? key).bind Value.asString? with
    | some s => return s
    | none => throw reason

/-- Carries out a request against the innermost object that has the member. -/
def dispatch (host : Host σ) (sc : Scope σ) (shape : Shape σ) (self : ObjectRef) (v : Value) :
    Act σ Unit :=
  match DispatchRequest.ofValue v with
  | .error reason => throw (.malformedDispatch sc.keyPath reason)
  | .ok request =>
    match shape.field? request.target with
    | none => throw (unknownKey shape sc.keyPath request.target)
    | some f => do
      let target ← f.get self
      match findMember? request.method request.params.length sc.frames with
      | none => sc.unresolved request.method
      | some (frame, _) =>
        let root := sc.options.projectRoot
        match ← frame.callMember root request.method request.params sc.keyPath with
        | none => sc.unresolved request.method
        | some result =>
          match target with
          | .list slot => host.append slot result
          | _ => pure ()

/-! ## Routing -/

/-- What a key is on a type. -/
inductive Route (σ : Type) where
  | dispatch
  | settable (f : Field σ)
  | readOnly (f : Field σ)
  | member

/-- What a key is on a type: the first that applies. -/
def route (shape : Shape σ) (key : String) : Route σ :=
  if key = dispatchKey then .dispatch
  else match shape.settable? key <|> shape.settable? (isName key) with
    | some f => .settable f
    | none => match shape.readOnly? key with
      | some f => .readOnly f
      | none => .member

/-- The step of one key; `sc` is the scope of the key. -/
def keyStep (host : Host σ) (sc : Scope σ) (shape : Shape σ) (self : ObjectRef) (key : String)
    (v : Value) : Act σ Next :=
  match route shape key with
  | .dispatch => do dispatch host sc shape self v; return .done
  | .settable f => settableStep host sc shape self f key v
  | .readOnly f => readOnlyStep host sc shape self f v
  | .member => do memberStep host sc shape self key v; return .done

end BuildReplay
