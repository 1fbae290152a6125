import BuildReplay.Document.Scalar
import BuildReplay.Error

/-!
# Reading documents

From a text to a table: the statements of the text one by one, put together as a draft. Arrays and
inline tables nest to a bounded depth.
-/

namespace BuildReplay.Document

/-- Arrays and inline tables nest less deep than this, and a dotted key has fewer parts. -/
def depthLimit : Nat := 80

mutual

/-- A node as a value. -/
def closeNode : Node → Value
  | .value v => v
  | .table _ _ entries => .table (closeEntries entries)
  | .tables items => .array (closeItems items)

def closeEntries : List (String × Node) → Table
  | [] => []
  | (key, n) :: rest => (key, closeNode n) :: closeEntries rest

def closeItems : List (List (String × Node)) → List Value
  | [] => []
  | entries :: rest => .table (closeEntries entries) :: closeItems rest

end

mutual

/-- A value with the date-times that tables carry. A table that starts with the entry of a date-time
is that date-time, whatever else it holds: nothing behind that entry is looked at. -/
def settle : Value → Except SyntaxFault Value
  | .array items => return .array (← settleItems items)
  | .table ((key, v) :: rest) =>
    if key = Value.dateTimeKey then
      match v.asString?.bind dateTime? with
      | some t => return .datetime t
      | none => unexpected [] "a date-time"
    else return .table ((key, ← settle v) :: (← settleEntries rest))
  | v => return v

def settleEntries : Table → Except SyntaxFault Table
  | [] => return []
  | (key, v) :: rest => return (key, ← settle v) :: (← settleEntries rest)

def settleItems : List Value → Except SyntaxFault (List Value)
  | [] => return []
  | v :: rest => return (← settle v) :: (← settleItems rest)

end

/-- One part of a key. -/
def readKeyPart (cs : List Char) : Except SyntaxFault (String × List Char) :=
  match cs with
  | '"' :: rest => do
    let (s, rest) ← readBasic rest
    return (String.ofList s, rest)
  | '\'' :: rest => do
    let (s, rest) ← readLiteral rest
    return (String.ofList s, rest)
  | _ =>
    let bare := cs.takeWhile Value.isBareKeyChar
    if bare.isEmpty then unexpected cs "a key" else return (String.ofList bare, cs.drop bare.length)

/-- The parts of a dotted key, with blanks around each of them. -/
def readKeyParts : Nat → List Char → Except SyntaxFault (List String × List Char)
  | 0, _ => throw .tooDeep
  | fuel + 1, cs => do
    let (part, rest) ← readKeyPart (dropBlanks cs)
    match dropBlanks rest with
    | '.' :: rest => do
      let (parts, rest) ← readKeyParts fuel rest
      return (part :: parts, rest)
    | rest => return ([part], rest)

/-- A dotted key as the parts on the way and the last part. -/
def readKey (cs : List Char) : Except SyntaxFault ((List String × String) × List Char) := do
  let (parts, rest) ← readKeyParts (depthLimit - 1) cs
  return ((parts.dropLast, parts.getLastD ""), rest)

/-- A text without the blanks, newlines and comments at its start. -/
def dropTrivia (inComment : Bool) : List Char → List Char
  | '\n' :: rest => dropTrivia false rest
  | '\r' :: '\n' :: rest => dropTrivia false rest
  | c :: rest =>
    if inComment then if isPrintable c then dropTrivia true rest else c :: rest
    else if c == ' ' || c == '\t' then dropTrivia false rest
    else if c == '#' then dropTrivia true rest
    else c :: rest
  | [] => []

/-- The text after a newline or the end of the text. -/
def endLine : List Char → Except SyntaxFault (List Char)
  | [] => return []
  | '\n' :: rest => return rest
  | '\r' :: '\n' :: rest => return rest
  | cs => unexpected cs "a newline"

/-- The text after the end of a line, which may hold a comment. -/
def readLineEnd (cs : List Char) : Except SyntaxFault (List Char) :=
  match dropBlanks cs with
  | '#' :: rest => endLine (rest.dropWhile isPrintable)
  | rest => endLine rest

mutual

/-- A value; `depth` counts the arrays and inline tables around it. -/
def readValue (fuel depth : Nat) (cs : List Char) : Except SyntaxFault (Value × List Char) :=
  match fuel with
  | 0 => throw .tooDeep
  | fuel + 1 =>
    match cs with
    | '"' :: _ => do let (s, rest) ← readString cs; return (.string s, rest)
    | '\'' :: _ => do let (s, rest) ← readString cs; return (.string s, rest)
    | 't' :: 'r' :: 'u' :: 'e' :: rest => return (.boolean true, rest)
    | 'f' :: 'a' :: 'l' :: 's' :: 'e' :: rest => return (.boolean false, rest)
    | '[' :: rest =>
      if depthLimit ≤ depth + 1 then throw .tooDeep
      else do
        let (items, rest) ← readItems fuel (depth + 1) rest
        return (.array items, rest)
    | '\x7b' :: rest =>
      if depthLimit ≤ depth + 1 then throw .tooDeep
      else match dropBlanks rest with
        | '\x7d' :: rest => return (.table [], rest)
        | rest => do
          let (t, rest) ← readInline fuel (depth + 1) .empty rest
          return (.table (closeEntries t.entries), rest)
    | _ => readNumber cs

/-- The items of an array and its closing bracket; a comma may follow the last item. -/
def readItems (fuel depth : Nat) (cs : List Char) : Except SyntaxFault (List Value × List Char) :=
  match fuel with
  | 0 => throw .tooDeep
  | fuel + 1 =>
    match dropTrivia false cs with
    | ']' :: rest => return ([], rest)
    | cs => do
      let (v, rest) ← readValue fuel depth cs
      match dropTrivia false rest with
      | ',' :: rest => do
        let (items, rest) ← readItems fuel depth rest
        return (v :: items, rest)
      | ']' :: rest => return ([v], rest)
      | rest => unexpected rest "a comma or a closing bracket"

/-- The entries of an inline table and its closing brace. -/
def readInline (fuel depth : Nat) (t : Layer) (cs : List Char) :
    Except SyntaxFault (Layer × List Char) :=
  match fuel with
  | 0 => throw .tooDeep
  | fuel + 1 => do
    let ((path, key), rest) ← readKey cs
    let rest ← readChar '=' rest
    let (v, rest) ← readValue fuel depth (dropBlanks rest)
    let t ← insertValue path key v t
    match dropBlanks rest with
    | ',' :: rest => readInline fuel depth t rest
    | '\x7d' :: rest => return (t, rest)
    | rest => unexpected rest "a comma or a closing brace"

end

/-- The statement at the front of a text, with the line it ends on. -/
def readStatement (cs : List Char) : Except SyntaxFault (Statement × List Char) :=
  match cs with
  | '[' :: '[' :: rest => do
    let ((path, key), rest) ← readKey rest
    let rest ← readLineEnd (← readChar ']' (← readChar ']' rest))
    return (.elementHeader path key, rest)
  | '[' :: rest => do
    let ((path, key), rest) ← readKey rest
    let rest ← readLineEnd (← readChar ']' rest)
    return (.header path key, rest)
  | _ => do
    let ((path, key), rest) ← readKey cs
    let rest ← readChar '=' rest
    let (v, rest) ← readValue (rest.length + 1) 0 (dropBlanks rest)
    return (.entry path key v, ← readLineEnd rest)

/-- All statements of a text, added to a draft one by one. -/
def readStatements : Nat → List Char → Draft → Except SyntaxFault Draft
  | 0, _, _ => throw .tooDeep
  | fuel + 1, cs, d =>
    match dropBlanks cs with
    | [] => return d
    | '#' :: rest => do readStatements fuel (← readLineEnd ('#' :: rest)) d
    | '\n' :: rest => readStatements fuel rest d
    | '\r' :: '\n' :: rest => readStatements fuel rest d
    | cs => do
      let (s, rest) ← readStatement cs
      readStatements fuel rest (← d.add s)

/-- A text without the byte order mark at its start. -/
def dropMark : List Char → List Char
  | '\ufeff' :: rest => rest
  | cs => cs

/-- The table that a text spells. It is a table itself, whatever its first key. -/
def read (text : String) : Except SyntaxFault Table := do
  let cs := dropMark text.toList
  let d ← readStatements (cs.length + 1) cs .empty
  settleEntries (closeEntries (← d.close).entries)

/-- The document at `location`. -/
def parse (location text : String) : Except Error Table :=
  match read text with
  | .ok t => .ok t
  | .error fault => .error (.parse location fault.message)

end BuildReplay.Document
