import BuildReplay.Decimal.Layout
import BuildReplay.Document.Display

/-!
# JSON trees

Trees of JSON and their two written forms: compact, and over several lines with an indent of two
blanks. The order of the entries of an object is kept.
-/

namespace BuildReplay

/-- A JSON tree whose texts are of type `τ`. -/
inductive Json (τ : Type) where
  | null
  | boolean (b : Bool)
  /-- A number, as it is written. -/
  | number (literal : String)
  | string (s : τ)
  | array (items : List (Json τ))
  | object (entries : List (τ × Json τ))
deriving Inhabited, Repr

namespace Json

/-- A number has an exponent unless its leading digit stands for `10 ^ -5` to `10 ^ 15`, and a
fraction of zero when it is integral; what is no number is null. -/
def numberLayout : Decimal.Layout where
  positional e := -5 ≤ e && e ≤ 15
  fractionOfZero := true
  tie := .toEven
  nan := "null"
  infinity := "null"

def ofDouble {τ : Type} (x : Double) : Json τ :=
  if x.isNaN || x.isInfinite then .null else .number (numberLayout.render x)

def ofInt {τ : Type} (i : Int) : Json τ := .number (toString i)

/-- A value that may be unset. -/
def ofOption {τ α : Type} (f : α → Json τ) : Option α → Json τ
  | some a => f a
  | none => .null

/-- A control character by its number. -/
def controlEscape (c : Char) : List Char :=
  let digits := Nat.toDigits 16 c.toNat
  '\\' :: 'u' :: List.replicate (4 - digits.length) '0' ++ digits

/-- One character of a string. -/
def escapedChar (c : Char) : List Char :=
  match c with
  | '"' => ['\\', '"']
  | '\\' => ['\\', '\\']
  | '\x08' => ['\\', 'b']
  | '\x0c' => ['\\', 'f']
  | '\n' => ['\\', 'n']
  | '\r' => ['\\', 'r']
  | '\t' => ['\\', 't']
  | c => if c.toNat < 0x20 then controlEscape c else [c]

def stringText (s : String) : String :=
  "\"" ++ String.ofList (s.toList.flatMap escapedChar) ++ "\""

/-- The form of everything but arrays and objects. -/
def scalarText : Json String → String
  | null => "null"
  | boolean b => if b then "true" else "false"
  | number literal => literal
  | string s => stringText s
  | array _ | object _ => ""

mutual

/-- A tree without any blanks. -/
def compact : Json String → String
  | array items => "[" ++ ",".intercalate (compactItems items) ++ "]"
  | object entries => "\x7b" ++ ",".intercalate (compactEntries entries) ++ "\x7d"
  | scalar => scalarText scalar

def compactItems : List (Json String) → List String
  | [] => []
  | j :: rest => j.compact :: compactItems rest

def compactEntries : List (String × Json String) → List String
  | [] => []
  | (key, j) :: rest => (stringText key ++ ":" ++ j.compact) :: compactEntries rest

end

/-- The line break in front of something at a depth. -/
def lineBreak (depth : Nat) : String := "\n" ++ String.ofList (List.replicate (2 * depth) ' ')

/-- The parts of an array or an object, each on a line of its own. -/
def bracketed (opening closing : String) (depth : Nat) (parts : List String) : String :=
  if parts.isEmpty then opening ++ closing
  else opening ++ ",".intercalate (parts.map (lineBreak (depth + 1) ++ ·))
    ++ lineBreak depth ++ closing

mutual

/-- A tree over several lines. -/
def pretty (depth : Nat) : Json String → String
  | array items => bracketed "[" "]" depth (prettyItems (depth + 1) items)
  | object entries => bracketed "\x7b" "\x7d" depth (prettyEntries (depth + 1) entries)
  | scalar => scalarText scalar

def prettyItems (depth : Nat) : List (Json String) → List String
  | [] => []
  | j :: rest => j.pretty depth :: prettyItems depth rest

def prettyEntries (depth : Nat) : List (String × Json String) → List String
  | [] => []
  | (key, j) :: rest => (stringText key ++ ": " ++ j.pretty depth) :: prettyEntries depth rest

end

mutual

/-- A document value as a tree. A date-time is an object of one entry. -/
def ofValue : Value → Json String
  | .string s => .string s
  | .integer i => ofInt i.toInt
  | .float x => ofDouble x
  | .boolean b => .boolean b
  | .datetime t => .object [(Value.dateTimeKey, .string t.toText)]
  | .array items => .array (ofItems items)
  | .table entries => .object (ofEntries entries)

def ofItems : List Value → List (Json String)
  | [] => []
  | v :: rest => ofValue v :: ofItems rest

def ofEntries : List (String × Value) → List (String × Json String)
  | [] => []
  | (key, v) :: rest => (key, ofValue v) :: ofEntries rest

end

end Json

end BuildReplay
