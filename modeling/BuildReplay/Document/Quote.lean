import BuildReplay.Document.Draft

/-!
# Reading quoted strings

The four string forms of a document. Every reader returns what it read and the characters after it.
-/

namespace BuildReplay.Document

/-- A fault at the first character of a text. -/
def unexpected {α : Type} (cs : List Char) (expected : String) : Except SyntaxFault α :=
  throw (.unexpected cs.head? expected)

/-- Whether a character may stand in comments and strings as it is. -/
def isPrintable (c : Char) : Bool := c == '\t' || (0x20 ≤ c.toNat && c != '\x7f')

def hexDigit? (c : Char) : Option Nat :=
  if c.isDigit then some (c.toNat - '0'.toNat)
  else if 'a' ≤ c ∧ c ≤ 'f' then some (c.toNat - 'a'.toNat + 10)
  else if 'A' ≤ c ∧ c ≤ 'F' then some (c.toNat - 'A'.toNat + 10)
  else none

/-- The number that digits spell in a base. -/
def numberOf (base : Nat) (digits : List Nat) : Nat := digits.foldl (fun n d => n * base + d) 0

/-- The character of a code point; surrogates have none. -/
def charOf? (n : Nat) : Option Char := if h : n.isValidChar then some (Char.ofNatAux n h) else none

/-- The character that hexadecimal digits stand for. -/
def hexChar (digits : List Char) : Except SyntaxFault Char :=
  match digits.mapM hexDigit? with
  | none => unexpected (digits.dropWhile (hexDigit? · |>.isSome)) "a hexadecimal digit"
  | some ds => match charOf? (numberOf 16 ds) with
    | some c => return c
    | none => throw (.outOfRange "code point")

/-- The character escaped by one letter. -/
def letterEscape? : Char → Option Char
  | 'b' => some '\x08'
  | 't' => some '\t'
  | 'n' => some '\n'
  | 'f' => some '\x0c'
  | 'r' => some '\r'
  | '"' => some '"'
  | '\\' => some '\\'
  | _ => none

theorem length_lt_append (c : Char) (s rest : List Char) :
    rest.length < (c :: s ++ rest).length := by
  simp only [List.cons_append, List.length_cons, List.length_append]
  omega

/-- The character after a backslash, and the text after it, which is shorter. -/
def readEscape (cs : List Char) :
    Except SyntaxFault (Char × { rest : List Char // rest.length < cs.length }) :=
  match cs with
  | 'u' :: a :: b :: c :: d :: rest => do
    return (← hexChar [a, b, c, d], ⟨rest, length_lt_append 'u' [a, b, c, d] rest⟩)
  | 'U' :: a :: b :: c :: d :: e :: f :: g :: h :: rest => do
    return (← hexChar [a, b, c, d, e, f, g, h],
      ⟨rest, length_lt_append 'U' [a, b, c, d, e, f, g, h] rest⟩)
  | c :: rest => match letterEscape? c with
    | some e => return (e, ⟨rest, length_lt_append c [] rest⟩)
    | none => unexpected (c :: rest) "an escape"
  | [] => unexpected [] "an escape"

/-- The rest of a string between single double quotes. -/
def readBasic (cs : List Char) : Except SyntaxFault (List Char × List Char) :=
  match cs with
  | '"' :: rest => return ([], rest)
  | '\\' :: rest => do
    let (c, next) ← readEscape rest
    let (s, rest) ← readBasic next.1
    return (c :: s, rest)
  | c :: rest =>
    if isPrintable c then do
      let (s, rest) ← readBasic rest
      return (c :: s, rest)
    else unexpected (c :: rest) "a closing quote"
  | [] => unexpected [] "a closing quote"
termination_by cs.length
decreasing_by
  · have := next.2
    simp only [List.length_cons]; omega
  · simp only [List.length_cons]; omega

/-- The rest of a string between single quotes, taken as it is. -/
def readLiteral : List Char → Except SyntaxFault (List Char × List Char)
  | '\'' :: rest => return ([], rest)
  | c :: rest =>
    if isPrintable c then do
      let (s, rest) ← readLiteral rest
      return (c :: s, rest)
    else unexpected (c :: rest) "a closing quote"
  | [] => unexpected [] "a closing quote"

/-- A text without a newline at its start. -/
def dropNewline : List Char → List Char
  | '\n' :: rest => rest
  | '\r' :: '\n' :: rest => rest
  | cs => cs

/-- A text without the blanks and newlines at its start. -/
def dropSpace : List Char → List Char
  | ' ' :: rest => dropSpace rest
  | '\t' :: rest => dropSpace rest
  | '\n' :: rest => dropSpace rest
  | '\r' :: '\n' :: rest => dropSpace rest
  | cs => cs

def dropBlanks : List Char → List Char
  | ' ' :: rest => dropBlanks rest
  | '\t' :: rest => dropBlanks rest
  | cs => cs

/-- Whether a line ends here, or after blanks. -/
def endsLine (cs : List Char) : Bool :=
  match dropBlanks cs with
  | '\n' :: _ => true
  | '\r' :: '\n' :: _ => true
  | _ => false

theorem length_dropSpace_le (cs : List Char) : (dropSpace cs).length ≤ cs.length := by
  fun_induction dropSpace cs <;> simp_all <;> omega

/-- The rest of a string between triple double quotes. Up to two quotes before the closing ones
belong to the string; a backslash at the end of a line takes the space up to the next character
away. -/
def readLongBasic (cs : List Char) : Except SyntaxFault (List Char × List Char) :=
  match cs with
  | '"' :: '"' :: '"' :: '"' :: '"' :: rest => return (['"', '"'], rest)
  | '"' :: '"' :: '"' :: '"' :: rest => return (['"'], rest)
  | '"' :: '"' :: '"' :: rest => return ([], rest)
  | '\\' :: rest =>
    if endsLine rest then readLongBasic (dropSpace rest)
    else do
      let (c, next) ← readEscape rest
      let (s, rest) ← readLongBasic next.1
      return (c :: s, rest)
  | '\r' :: '\n' :: rest => do
    let (s, rest) ← readLongBasic rest
    return ('\n' :: s, rest)
  | c :: rest =>
    if isPrintable c || c == '\n' then do
      let (s, rest) ← readLongBasic rest
      return (c :: s, rest)
    else unexpected (c :: rest) "closing quotes"
  | [] => unexpected [] "closing quotes"
termination_by cs.length
decreasing_by
  · have := length_dropSpace_le rest
    simp only [List.length_cons]; omega
  · have := next.2
    simp only [List.length_cons]; omega
  · simp only [List.length_cons]; omega
  · simp only [List.length_cons]; omega

/-- The rest of a string between triple single quotes. -/
def readLongLiteral : List Char → Except SyntaxFault (List Char × List Char)
  | '\'' :: '\'' :: '\'' :: '\'' :: '\'' :: rest => return (['\'', '\''], rest)
  | '\'' :: '\'' :: '\'' :: '\'' :: rest => return (['\''], rest)
  | '\'' :: '\'' :: '\'' :: rest => return ([], rest)
  | '\r' :: '\n' :: rest => do
    let (s, rest) ← readLongLiteral rest
    return ('\n' :: s, rest)
  | c :: rest =>
    if isPrintable c || c == '\n' then do
      let (s, rest) ← readLongLiteral rest
      return (c :: s, rest)
    else unexpected (c :: rest) "closing quotes"
  | [] => unexpected [] "closing quotes"

/-- A string of any form. A newline right after triple quotes is not part of it. -/
def readString : List Char → Except SyntaxFault (String × List Char)
  | '"' :: '"' :: '"' :: rest => do
    let (s, rest) ← readLongBasic (dropNewline rest)
    return (String.ofList s, rest)
  | '"' :: rest => do
    let (s, rest) ← readBasic rest
    return (String.ofList s, rest)
  | '\'' :: '\'' :: '\'' :: rest => do
    let (s, rest) ← readLongLiteral (dropNewline rest)
    return (String.ofList s, rest)
  | '\'' :: rest => do
    let (s, rest) ← readLiteral rest
    return (String.ofList s, rest)
  | cs => unexpected cs "a string"

end BuildReplay.Document
