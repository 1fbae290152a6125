import BuildReplay.Decimal.Double
import BuildReplay.Document.DateTime

/-!
# Document values

A build document is a table: entries under keys, in the order of the text, each key once.
-/

namespace BuildReplay

/-- A value of a document. -/
inductive Value where
  | string (s : String)
  | integer (i : Int64)
  | float (x : Double)
  | boolean (b : Bool)
  | datetime (t : DateTime)
  | array (items : List Value)
  | table (entries : List (String × Value))
deriving Inhabited, Repr

/-- The entries of a document or of a table in it, in document order. -/
abbrev Table := List (String × Value)

/-- The value under a key. -/
def Table.get? (t : Table) (key : String) : Option Value := (t.find? (·.1 == key)).map (·.2)

def Table.keys (t : Table) : List String := t.map (·.1)

namespace Value

/-- The kind of a value, as messages name it. -/
def kind : Value → String
  | .string _ => "string"
  | .integer _ => "integer"
  | .float _ => "float"
  | .boolean _ => "boolean"
  | .datetime _ => "datetime"
  | .array _ => "array"
  | .table _ => "table"

def isTable : Value → Bool
  | .table _ => true
  | _ => false

def asString? : Value → Option String
  | .string s => some s
  | _ => none

end Value

end BuildReplay
