import BuildReplay.Document.Display

/-!
# Drafts of documents

A document is put together from its statements: entries under dotted keys, headers of tables and
headers of array elements. A draft keeps what decides whether a later statement may still add to a
table: whether the table exists only because something inside it was named, and whether dotted keys
made it.
-/

namespace BuildReplay

/-- Why a text is no document. -/
inductive SyntaxFault where
  | unexpected (found : Option Char) (expected : String)
  | duplicateKey (key : String)
  | notATable (key : String)
  | outOfRange (what : String)
  | tooDeep
deriving DecidableEq, Repr

namespace SyntaxFault

def message : SyntaxFault → String
  | .unexpected none expected => "unexpected end, expected " ++ expected
  | .unexpected (some c) expected =>
    "unexpected character " ++ String.singleton c ++ ", expected " ++ expected
  | .duplicateKey key => "duplicate key " ++ key
  | .notATable key => "key " ++ key ++ " is not a table"
  | .outOfRange what => what ++ " out of range"
  | .tooDeep => "nesting is too deep"

end SyntaxFault

namespace Document

/-- A value under construction. -/
inductive Node where
  | value (v : Value)
  /-- A table; `implicit` when no header of its own was read, `dotted` when dotted keys made it. -/
  | table (implicit dotted : Bool) (entries : List (String × Node))
  /-- The elements of an array of tables. -/
  | tables (items : List (List (String × Node)))
deriving Inhabited

/-- A table under construction. -/
structure Layer where
  implicit : Bool
  dotted : Bool
  entries : List (String × Node)

namespace Layer

def empty : Layer := ⟨false, false, []⟩

def get? (t : Layer) (key : String) : Option Node := (t.entries.find? (·.1 == key)).map (·.2)

def append (t : Layer) (key : String) (n : Node) : Layer :=
  { t with entries := t.entries ++ [(key, n)] }

/-- Puts a node in the place of the one under `key`. -/
def replace (t : Layer) (key : String) (n : Node) : Layer :=
  { t with entries := t.entries.map fun e => if e.1 = key then (key, n) else e }

def erase (t : Layer) (key : String) : Layer :=
  { t with entries := t.entries.filter (·.1 != key) }

end Layer

/-- Changes the table at the end of `path`, making the tables on the way that are missing. A dotted
key only passes through tables that are implicit; every path passes into the last element of an
array of tables. -/
def descend {α : Type} (dotted : Bool) (change : Layer → Except SyntaxFault (Layer × α)) :
    List String → Layer → Except SyntaxFault (Layer × α)
  | [], t => change t
  | key :: path, t =>
    match t.get? key with
    | none => do
      let (child, a) ← descend dotted change path ⟨true, dotted, []⟩
      return (t.append key (.table child.implicit child.dotted child.entries), a)
    | some (.value _) => throw (.notATable key)
    | some (.tables items) =>
      match items.getLast? with
      | none => throw (.notATable key)
      | some last => do
        let (child, a) ← descend dotted change path { Layer.empty with entries := last }
        return (t.replace key (.tables (items.dropLast ++ [child.entries])), a)
    | some (.table implicit isDotted entries) =>
      if dotted && !implicit then throw (.duplicateKey key)
      else do
        let (child, a) ← descend dotted change path ⟨implicit, isDotted, entries⟩
        return (t.replace key (.table child.implicit child.dotted child.entries), a)

/-- Adds a value under a dotted key. A table with a header of its own takes no dotted keys. -/
def insertValue (path : List String) (key : String) (v : Value) (t : Layer) :
    Except SyntaxFault Layer := do
  let (t, ()) ← descend true (fun t =>
    if t.dotted == path.isEmpty || (t.get? key).isSome then throw (.duplicateKey key)
    else return (t.append key (.value v), ())) path t
  return t

/-- What the statements being read belong to. -/
inductive Section where
  | top
  | table (path : List String) (key : String)
  | element (path : List String) (key : String)

/-- A document under construction: what is finished, and the table being filled. -/
structure Draft where
  finished : Layer
  current : Layer
  place : Section

/-- One statement of a document. -/
inductive Statement where
  | entry (path : List String) (key : String) (v : Value)
  | header (path : List String) (key : String)
  | elementHeader (path : List String) (key : String)

namespace Draft

def empty : Draft := ⟨.empty, .empty, .top⟩

/-- Puts the table being filled in its place, behind what is there. -/
def close (d : Draft) : Except SyntaxFault Layer :=
  match d.place with
  | .top => return d.current
  | .table path key => do
    let (t, ()) ← descend false (fun t =>
      return (t.append key (.table false false d.current.entries), ())) path d.finished
    return t
  | .element path key => do
    let (t, ()) ← descend false (fun t =>
      match t.get? key with
      | some (.tables items) => return (t.replace key (.tables (items ++ [d.current.entries])), ())
      | _ => throw (.duplicateKey key)) path d.finished
    return t

/-- Starts a table. An implicit one is taken out of its place, to come back behind the others. -/
def openTable (d : Draft) (path : List String) (key : String) : Except SyntaxFault Draft := do
  let finished ← d.close
  let (finished, entries) ← descend false (fun t =>
    match t.get? key with
    | none => return (t, [])
    | some (.table true false entries) => return (t.erase key, entries)
    | some _ => throw (.duplicateKey key)) path finished
  return ⟨finished, { Layer.empty with entries := entries }, .table path key⟩

/-- Starts an element of an array of tables. -/
def openElement (d : Draft) (path : List String) (key : String) : Except SyntaxFault Draft := do
  let finished ← d.close
  let (finished, ()) ← descend false (fun t =>
    match t.get? key with
    | none => return (t.append key (.tables []), ())
    | some (.tables _) => return (t, ())
    | some _ => throw (.duplicateKey key)) path finished
  return ⟨finished, .empty, .element path key⟩

def add (d : Draft) : Statement → Except SyntaxFault Draft
  | .entry path key v => return { d with current := ← insertValue path key v d.current }
  | .header path key => d.openTable path key
  | .elementHeader path key => d.openElement path key

end Draft

end Document

end BuildReplay
