import BuildReplay.Decimal.Layout
import BuildReplay.Document.Value

/-!
# Texts of document values

Values on one line, as messages show them: strings in the plainest quotes that hold them, floats
positionally, tables inline. `describe` is the short form for diagnostics.
-/

namespace BuildReplay

namespace Value

/-- Floats have no exponent and at least one digit after the point. -/
def floatLayout : Decimal.Layout where
  positional _ := true
  fractionOfZero := true
  tie := .up
  nan := "nan"
  infinity := "inf"

/-- A character that only an escape can write: a control other than tab and newline. -/
def isEscapeCode (c : Char) : Bool :=
  (c.toNat < 0x20 && c != '\t' && c != '\n') || c == '\x7f'

/-- Whether three characters `q` follow one another. -/
def hasTriple (q : Char) : List Char → Bool
  | a :: b :: c :: rest => (a == q && b == q && c == q) || hasTriple q (b :: c :: rest)
  | _ => false

/-- Two upper-case hexadecimal digits. -/
def hexByte (n : Nat) : List Char :=
  let digits := (Nat.toDigits 16 n).map Char.toUpper
  List.replicate (2 - digits.length) '0' ++ digits

/-- The escapes common to all double-quoted forms. -/
def escaped (c : Char) : List Char :=
  match c with
  | '\x08' => ['\\', 'b']
  | '\t' => ['\\', 't']
  | '\x0c' => ['\\', 'f']
  | '\r' => ['\\', 'r']
  | '\\' => ['\\', '\\']
  | c => if isEscapeCode c then ['\\', 'u', '0', '0'] ++ hexByte c.toNat else [c]

/-- A text between single double quotes. -/
def oneLine (s : List Char) : List Char :=
  let body := s.flatMap fun c =>
    if c = '"' then ['\\', '"'] else if c = '\n' then ['\\', 'n'] else escaped c
  '"' :: body ++ ['"']

/-- The body of a text between triple double quotes: the third quote of a run is escaped. `run`
counts the quotes just before. -/
def tripleBody (run : Nat) : List Char → List Char
  | [] => []
  | c :: rest =>
    if c = '"' then
      if run = 2 then '\\' :: '"' :: tripleBody 0 rest else '"' :: tripleBody (run + 1) rest
    else if c = '\n' then '\n' :: tripleBody 0 rest
    else escaped c ++ tripleBody 0 rest

/-- The newline that opens a text of several lines. -/
def opening (s : List Char) : List Char := if '\n' ∈ s then ['\n'] else []

def manyLines (s : List Char) : List Char :=
  ['"', '"', '"'] ++ opening s ++ tripleBody 0 s ++ ['"', '"', '"']

/-- A string in the first form that holds it: double quotes, single quotes, triple double quotes,
triple single quotes, and last double quotes with escapes. -/
def stringText (s : String) : String :=
  let cs := s.toList
  let codes := cs.any isEscapeCode
  String.ofList <|
    if !codes && !cs.contains '\\' && !cs.contains '"' && !cs.contains '\n' then oneLine cs
    else if !codes && !cs.contains '\'' && !cs.contains '\n' then '\'' :: cs ++ ['\'']
    else if !codes && !cs.contains '\\' && !hasTriple '"' cs then manyLines cs
    else if !codes && !hasTriple '\'' cs then
      ['\'', '\'', '\''] ++ opening cs ++ cs ++ ['\'', '\'', '\'']
    else if cs.contains '\n' then manyLines cs
    else oneLine cs

def isBareKeyChar (c : Char) : Bool := c.isAlphanum || c == '_' || c == '-'

/-- A key: bare where that is allowed, else in the plainest quotes. -/
def keyText (key : String) : String :=
  let cs := key.toList
  let codes := cs.any fun c => isEscapeCode c || c == '\n'
  if !cs.isEmpty && cs.all isBareKeyChar then key
  else String.ofList <|
    if !codes && !cs.contains '\\' && !cs.contains '"' then oneLine cs
    else if !codes && !cs.contains '\'' then '\'' :: cs ++ ['\'']
    else oneLine cs

mutual

/-- A value inside an array or a table. -/
def inlineText : Value → String
  | .string s => stringText s
  | .integer i => toString i.toInt
  | .float x => floatLayout.render x
  | .boolean b => if b then "true" else "false"
  | .datetime t => t.toText
  | .array items => "[" ++ ", ".intercalate (itemTexts items) ++ "]"
  | .table [] => "\x7b\x7d"
  | .table (e :: rest) => "\x7b " ++ ", ".intercalate (entryTexts (e :: rest)) ++ " \x7d"

def itemTexts : List Value → List String
  | [] => []
  | v :: rest => inlineText v :: itemTexts rest

def entryTexts : List (String × Value) → List String
  | [] => []
  | (key, v) :: rest => (keyText key ++ " = " ++ inlineText v) :: entryTexts rest

end

/-- The name under which a date-time travels as a table of one entry. -/
def dateTimeKey : String := "$__toml_private_datetime"

/-- A value on its own. A date-time shows as the table of one entry that carries it. -/
def display : Value → String
  | .datetime t => inlineText (.table [(dateTimeKey, .string t.toText)])
  | v => v.inlineText

/-- The kind of a value, and the value itself unless it is an array or a table. -/
def describe (v : Value) : String :=
  match v with
  | .array _ | .table _ => v.kind
  | v => v.kind ++ " " ++ v.display

end Value

end BuildReplay
