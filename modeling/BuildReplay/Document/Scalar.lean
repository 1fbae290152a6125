import BuildReplay.Document.Quote

/-!
# Reading numbers and date-times

Integers in four bases, floats, dates and times of day.
-/

namespace BuildReplay.Document

def digit? (c : Char) : Option Nat := if c.isDigit then some (c.toNat - '0'.toNat) else none

/-- More digits, each alone or after an underscore. -/
def moreDigits (digit : Char → Option Nat) : List Char → List Nat × List Char
  | '_' :: c :: rest =>
    match digit c with
    | some d => let (ds, rest) := moreDigits digit rest; (d :: ds, rest)
    | none => ([], '_' :: c :: rest)
  | c :: rest =>
    match digit c with
    | some d => let (ds, rest) := moreDigits digit rest; (d :: ds, rest)
    | none => ([], c :: rest)
  | [] => ([], [])

/-- One digit at least, with single underscores between digits. -/
def readDigits (digit : Char → Option Nat) (cs : List Char) :
    Except SyntaxFault (List Nat × List Char) :=
  match cs with
  | c :: rest => match digit c with
    | some d => let (ds, rest) := moreDigits digit rest; return (d :: ds, rest)
    | none => unexpected cs "a digit"
  | [] => unexpected cs "a digit"

/-- A sign in front of a text; `true` for minus. -/
def readSign : List Char → Bool × List Char
  | '-' :: rest => (true, rest)
  | '+' :: rest => (false, rest)
  | cs => (false, cs)

/-- Exactly `n` digits, as a number. -/
def readFixed (n : Nat) (cs : List Char) : Except SyntaxFault (Nat × List Char) :=
  match (cs.take n).mapM digit? with
  | some ds => if ds.length = n then return (numberOf 10 ds, cs.drop n) else unexpected [] "a digit"
  | none => unexpected (cs.dropWhile Char.isDigit) "a digit"

/-- `n` digits that spell a number between `low` and `high`. -/
def readBetween (what : String) (n low high : Nat) (cs : List Char) :
    Except SyntaxFault (Nat × List Char) := do
  let (k, rest) ← readFixed n cs
  if low ≤ k ∧ k ≤ high then return (k, rest) else throw (.outOfRange what)

def readChar (c : Char) : List Char → Except SyntaxFault (List Char)
  | d :: rest => if d = c then return rest else unexpected (d :: rest) (String.singleton c)
  | [] => unexpected [] (String.singleton c)

/-- A calendar date, which has to exist. -/
def readDate (cs : List Char) : Except SyntaxFault (Date × List Char) := do
  let (year, cs) ← readFixed 4 cs
  let cs ← readChar '-' cs
  let (month, cs) ← readBetween "month" 2 1 12 cs
  let cs ← readChar '-' cs
  let (day, cs) ← readBetween "day" 2 1 (Date.daysIn year month) cs
  return (⟨year, month, day⟩, cs)

/-- The fraction of a second in nanoseconds; digits beyond the ninth are dropped. -/
def readFraction (cs : List Char) : Except SyntaxFault (Nat × List Char) :=
  match cs with
  | '.' :: rest =>
    let digits := rest.takeWhile Char.isDigit
    if digits.isEmpty then unexpected rest "a digit"
    else
      let nine := (digits ++ List.replicate 9 '0').take 9
      return (numberOf 10 (nine.filterMap digit?), rest.dropWhile Char.isDigit)
  | _ => return (0, cs)

/-- A time of day; a second may be the sixtieth. -/
def readTime (cs : List Char) : Except SyntaxFault (Time × List Char) := do
  let (hour, cs) ← readBetween "hour" 2 0 23 cs
  let cs ← readChar ':' cs
  let (minute, cs) ← readBetween "minute" 2 0 59 cs
  let cs ← readChar ':' cs
  let (second, cs) ← readBetween "second" 2 0 60 cs
  let (nanosecond, cs) ← readFraction cs
  return (⟨hour, minute, second, nanosecond⟩, cs)

/-- An offset, if there is one. -/
def readOffset (cs : List Char) : Except SyntaxFault (Option Offset × List Char) :=
  match cs with
  | 'Z' :: rest => return (some .universal, rest)
  | 'z' :: rest => return (some .universal, rest)
  | '+' :: rest => minutes 1 rest
  | '-' :: rest => minutes (-1) rest
  | _ => return (none, cs)
where
  minutes (sign : Int) (cs : List Char) : Except SyntaxFault (Option Offset × List Char) := do
    let (hour, cs) ← readBetween "hour" 2 0 23 cs
    let cs ← readChar ':' cs
    let (minute, cs) ← readBetween "minute" 2 0 59 cs
    return (some (.minutes (sign * (hour * 60 + minute : Nat))), cs)

/-- Whether a time of day follows the separator at the front of a text. -/
def timeFollows : List Char → Bool
  | s :: a :: b :: ':' :: _ => (s == 'T' || s == 't' || s == ' ') && a.isDigit && b.isDigit
  | _ => false

/-- A date-time that starts with a date. -/
def readDated (cs : List Char) : Except SyntaxFault (DateTime × List Char) := do
  let (date, cs) ← readDate cs
  if timeFollows cs then
    let (time, cs) ← readTime (cs.drop 1)
    let (offset, cs) ← readOffset cs
    return (match offset with
      | some o => .offset date time o
      | none => .civil date time, cs)
  else return (.date date, cs)

/-- Whether a text starts as a date does. -/
def dateFollows : List Char → Bool
  | a :: b :: c :: d :: '-' :: _ => a.isDigit && b.isDigit && c.isDigit && d.isDigit
  | _ => false

/-- A date, a time of day or both, if the text starts with one. -/
def readDateTime? (cs : List Char) : Except SyntaxFault (Option (DateTime × List Char)) :=
  if dateFollows cs then return some (← readDated cs)
  else if timeFollows (' ' :: cs) then do
    let (t, cs) ← readTime cs
    return some (.time t, cs)
  else return none

/-- The date-time that a whole text spells. -/
def dateTime? (s : String) : Option DateTime :=
  match readDateTime? s.toList with
  | .ok (some (t, [])) => some t
  | _ => none

/-- A whole number that has to fit into 64 bits. -/
def integer (i : Int) : Except SyntaxFault Value :=
  if Int64.minValue.toInt ≤ i ∧ i ≤ Int64.maxValue.toInt then return .integer (.ofInt i)
  else throw (.outOfRange "integer")

/-- A float; only a negative one may be too large for a double. -/
def float (negative : Bool) (digits : List Nat) (exponent : Int) : Except SyntaxFault Value :=
  let x := Double.ofDecimal (numberOf 10 digits) exponent
  if negative then return .float x.negate
  else if x.isInfinite then throw (.outOfRange "float")
  else return .float x

/-- The digits before a decimal point: a lone zero, or digits that do not start with one. -/
def readWhole (cs : List Char) : Except SyntaxFault (List Nat × List Char) :=
  match cs with
  | '0' :: rest => return ([0], rest)
  | _ => readDigits digit? cs

/-- An exponent, if there is one. -/
def readExponent? (cs : List Char) : Except SyntaxFault (Option Int × List Char) :=
  match cs with
  | 'e' :: rest => signed rest
  | 'E' :: rest => signed rest
  | _ => return (none, cs)
where
  signed (cs : List Char) : Except SyntaxFault (Option Int × List Char) := do
    let (negative, cs) := readSign cs
    let (ds, cs) ← readDigits digit? cs
    let n : Int := numberOf 10 ds
    return (some (if negative then -n else n), cs)

/-- A decimal integer or a float after its sign. -/
def readDecimal (negative : Bool) (cs : List Char) : Except SyntaxFault (Value × List Char) := do
  let (whole, cs) ← readWhole cs
  match cs with
  | '.' :: rest =>
    let (fraction, cs) ← readDigits digit? rest
    let (exponent, cs) ← readExponent? cs
    let v ← float negative (whole ++ fraction) (exponent.getD 0 - fraction.length)
    return (v, cs)
  | _ =>
    match ← readExponent? cs with
    | (some exponent, cs) => return (← float negative whole exponent, cs)
    | (none, cs) =>
      let n : Int := numberOf 10 whole
      return (← integer (if negative then -n else n), cs)

/-- A number without a base of its own, after its sign. -/
def readSigned (negative : Bool) (cs : List Char) : Except SyntaxFault (Value × List Char) :=
  match cs with
  | 'i' :: 'n' :: 'f' :: rest =>
    return (.float (if negative then Double.infinity.negate else Double.infinity), rest)
  | 'n' :: 'a' :: 'n' :: rest =>
    return (.float (if negative then Double.nan.negate else Double.nan), rest)
  | _ => readDecimal negative cs

/-- An integer in another base. -/
def readBased (base : Nat) (digit : Char → Option Nat) (cs : List Char) :
    Except SyntaxFault (Value × List Char) := do
  let (ds, rest) ← readDigits digit cs
  return (← integer (numberOf base ds), rest)

/-- A digit below `base`. -/
def digitBelow (base : Nat) (c : Char) : Option Nat := (hexDigit? c).filter (· < base)

/-- A number or a date-time. -/
def readNumber (cs : List Char) : Except SyntaxFault (Value × List Char) := do
  match ← readDateTime? cs with
  | some (t, rest) => return (.datetime t, rest)
  | none =>
    match cs with
    | '0' :: 'x' :: rest => readBased 16 (digitBelow 16) rest
    | '0' :: 'o' :: rest => readBased 8 (digitBelow 8) rest
    | '0' :: 'b' :: rest => readBased 2 (digitBelow 2) rest
    | _ => let (negative, rest) := readSign cs; readSigned negative rest

end BuildReplay.Document
