import BuildReplay.Document.Quote
import BuildReplay.Json.Basic

/-!
# Reading JSON

From a text to a tree. A string may escape halves of a surrogate pair on their own; such a string is
well-formed JSON, but stands for no text.
-/

namespace BuildReplay.Json

/-- A tree as it is read: a string that stands for no text is `none`. -/
abbrev Source := Json (Option String)

/-- A text without the blanks at its start. -/
def dropBlanks : List Char → List Char
  | c :: rest =>
    if c == ' ' || c == '\t' || c == '\n' || c == '\r' then dropBlanks rest else c :: rest
  | [] => []

/-- The code points of a string as written, up to the closing quote; an escape by number gives one
16-bit unit. -/
def readUnits : List Char → Option (List Nat × List Char)
  | '"' :: rest => some ([], rest)
  | '\\' :: 'u' :: a :: b :: c :: d :: rest => do
    let digits ← [a, b, c, d].mapM Document.hexDigit?
    let (units, rest) ← readUnits rest
    return (Document.numberOf 16 digits :: units, rest)
  | '\\' :: e :: rest => do
    let c ← escaped? e
    let (units, rest) ← readUnits rest
    return (c.toNat :: units, rest)
  | c :: rest =>
    if c.toNat < 0x20 || c == '\\' then none
    else do
      let (units, rest) ← readUnits rest
      return (c.toNat :: units, rest)
  | [] => none
where
  escaped? : Char → Option Char
    | '"' => some '"'
    | '\\' => some '\\'
    | '/' => some '/'
    | 'b' => some '\x08'
    | 'f' => some '\x0c'
    | 'n' => some '\n'
    | 'r' => some '\r'
    | 't' => some '\t'
    | _ => none

def isHighSurrogate (n : Nat) : Bool := 0xD800 ≤ n && n < 0xDC00

def isLowSurrogate (n : Nat) : Bool := 0xDC00 ≤ n && n < 0xE000

/-- The text of units; a high surrogate has to be followed by a low one, which stands nowhere else.
-/
def charsOfUnits? : List Nat → Option (List Char)
  | [] => some []
  | [n] => do return [← Document.charOf? n]
  | high :: low :: rest =>
    if isHighSurrogate high then
      if isLowSurrogate low then do
        let c ← Document.charOf? (0x10000 + (high - 0xD800) * 0x400 + (low - 0xDC00))
        return c :: (← charsOfUnits? rest)
      else none
    else do return (← Document.charOf? high) :: (← charsOfUnits? (low :: rest))

/-- The rest of a string. -/
def readString (cs : List Char) : Option (Option String × List Char) := do
  let (units, rest) ← readUnits cs
  return ((charsOfUnits? units).map String.ofList, rest)

/-- One digit at least. -/
def readDigits (cs : List Char) : Option (List Char × List Char) :=
  let digits := cs.takeWhile Char.isDigit
  if digits.isEmpty then none else some (digits, cs.drop digits.length)

/-- The digits in front of the point: a zero alone, or digits that start with another one. -/
def readWhole : List Char → Option (List Char × List Char)
  | '0' :: rest => if (rest.head?.map Char.isDigit).getD false then none else some (['0'], rest)
  | cs => readDigits cs

def readFraction : List Char → Option (List Char × List Char)
  | '.' :: rest => do
    let (digits, rest) ← readDigits rest
    return ('.' :: digits, rest)
  | cs => some ([], cs)

def readExponent (cs : List Char) : Option (List Char × List Char) :=
  match cs with
  | e :: rest =>
    if e == 'e' || e == 'E' then do
      let sign := rest.takeWhile (fun c => c == '+' || c == '-') |>.take 1
      let (digits, rest) ← readDigits (rest.drop sign.length)
      return (e :: sign ++ digits, rest)
    else some ([], cs)
  | [] => some ([], [])

/-- A number, taken as it is written. -/
def readNumber (cs : List Char) : Option (String × List Char) := do
  let sign := cs.takeWhile (· == '-') |>.take 1
  let (whole, rest) ← readWhole (cs.drop sign.length)
  let (fraction, rest) ← readFraction rest
  let (exponent, rest) ← readExponent rest
  return (String.ofList (sign ++ whole ++ fraction ++ exponent), rest)

mutual

def readTree (fuel : Nat) (cs : List Char) : Option (Source × List Char) :=
  match fuel with
  | 0 => none
  | fuel + 1 =>
    match dropBlanks cs with
    | 'n' :: 'u' :: 'l' :: 'l' :: rest => some (.null, rest)
    | 't' :: 'r' :: 'u' :: 'e' :: rest => some (.boolean true, rest)
    | 'f' :: 'a' :: 'l' :: 's' :: 'e' :: rest => some (.boolean false, rest)
    | '"' :: rest => do
      let (s, rest) ← readString rest
      return (.string s, rest)
    | '[' :: rest =>
      match dropBlanks rest with
      | ']' :: rest => some (.array [], rest)
      | rest => do
        let (items, rest) ← readItems fuel rest
        return (.array items, rest)
    | '\x7b' :: rest =>
      match dropBlanks rest with
      | '\x7d' :: rest => some (.object [], rest)
      | rest => do
        let (entries, rest) ← readEntries fuel rest
        return (.object entries, rest)
    | cs => do
      let (literal, rest) ← readNumber cs
      return (.number literal, rest)

/-- The items of an array that is not empty, and its closing bracket. -/
def readItems (fuel : Nat) (cs : List Char) : Option (List Source × List Char) :=
  match fuel with
  | 0 => none
  | fuel + 1 => do
    let (j, rest) ← readTree fuel cs
    match dropBlanks rest with
    | ',' :: rest =>
      let (items, rest) ← readItems fuel rest
      return (j :: items, rest)
    | ']' :: rest => return ([j], rest)
    | _ => none

/-- The entries of an object that is not empty, and its closing brace. -/
def readEntries (fuel : Nat) (cs : List Char) :
    Option (List (Option String × Source) × List Char) :=
  match fuel with
  | 0 => none
  | fuel + 1 =>
    match dropBlanks cs with
    | '"' :: rest => do
      let (key, rest) ← readString rest
      match dropBlanks rest with
      | ':' :: rest =>
        let (j, rest) ← readTree fuel rest
        match dropBlanks rest with
        | ',' :: rest =>
          let (entries, rest) ← readEntries fuel rest
          return ((key, j) :: entries, rest)
        | '\x7d' :: rest => return ([(key, j)], rest)
        | _ => none
      | _ => none
    | _ => none

end

/-- The tree that a whole text spells. -/
def read? (text : String) : Option Source := do
  let cs := text.toList
  let (j, rest) ← readTree (2 * cs.length + 2) cs
  if (dropBlanks rest).isEmpty then some j else none

end BuildReplay.Json
