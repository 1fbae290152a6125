import BuildReplay.Path

/-!
# Arguments of the command line

The words of a command line as a command. Words are read from left to right; an option that waits
for its value and a positional word are taken in only when the next one is recognised, so an unknown
word is reported before a bad value in front of it.
-/

namespace BuildReplay.Cli

/-- What a command line asks for. -/
inductive Command where
  /-- Apply a build file and show the project. -/
  | apply (path : Path) (strict : Bool) (projectRoot : Option Path) (variants : Bool)
  /-- Apply every build file under a root and count the failures. -/
  | check (root : Path) (strict : Bool)
  /-- Show the shape of one type, or of all. -/
  | shape (typeName : Option String)
deriving DecidableEq, Repr

/-- Why a command line is no command. The first two are requests to show a text. -/
inductive UsageFault where
  | displayHelp
  | displayVersion
  | displayHelpOnMissingArgumentOrSubcommand
  | unknownArgument
  | invalidSubcommand
  | invalidValue
  | tooManyValues
  | argumentConflict
  | missingRequiredArgument
deriving DecidableEq, Repr

/-- How the commands are written. -/
def usage : String := "\n".intercalate [
  "Usage:",
  "  declarative apply [--strict] [--project-root DIR] [--no-variants] PATH",
  "  declarative check [--strict] [ROOT]",
  "  declarative shape [TYPE]"]

def UsageFault.exitCode : UsageFault → Nat
  | displayHelp | displayVersion => 0
  | _ => 2

/-- An option of a command. -/
inductive Switch where
  | strict
  | projectRoot
  | noVariants
  | help
  | version
deriving DecidableEq, Repr

def Switch.takesValue : Switch → Bool
  | projectRoot => true
  | _ => false

/-- The words that a command understands. -/
structure Grammar where
  long? : String → Option Switch
  short? : Char → Option Switch
  /-- Whether the positional word may be empty. -/
  emptyAllowed : Bool

namespace Grammar

def applyWords : Grammar where
  long?
    | "strict" => some .strict
    | "project-root" => some .projectRoot
    | "no-variants" => some .noVariants
    | "help" => some .help
    | _ => none
  short?
    | 's' => some .strict
    | 'h' => some .help
    | _ => none
  emptyAllowed := false

def checkWords : Grammar where
  long?
    | "strict" => some .strict
    | "help" => some .help
    | _ => none
  short?
    | 's' => some .strict
    | 'h' => some .help
    | _ => none
  emptyAllowed := false

def shapeWords : Grammar where
  long?
    | "help" => some .help
    | _ => none
  short?
    | 'h' => some .help
    | _ => none
  emptyAllowed := true

end Grammar

/-- What a word is taken for. -/
inductive Word where
  /-- Two dashes: only positional words follow. -/
  | escape
  | long (name : String) (value : Option String)
  | short (letters : List Char)
  | plain
deriving DecidableEq, Repr

/-- What a word is taken for. A single dash is a plain word. -/
def Word.ofString (s : String) : Word :=
  match s.toList with
  | ['-', '-'] => .escape
  | '-' :: '-' :: rest =>
    let name := rest.takeWhile (· != '=')
    let value := match rest.drop name.length with
      | _ :: value => some (String.ofList value)
      | [] => none
    .long (String.ofList name) value
  | '-' :: c :: rest => .short (c :: rest)
  | _ => .plain

/-- A word that was read and is not taken in yet. -/
inductive Pending where
  | positional (value : String)
  /-- The option for a root, with its value once that was read. -/
  | projectRoot (value : Option String)
deriving DecidableEq, Repr

/-- What the words of a command said so far. -/
structure Reading where
  strict : Bool
  noVariants : Bool
  projectRoot : Option String
  positional : Option String
  pending : Option Pending
deriving DecidableEq, Repr

namespace Reading

def empty : Reading := ⟨false, false, none, none, none⟩

/-- Whether a positional word was read. -/
def hasPositional (r : Reading) : Bool :=
  match r.pending with
  | some (.positional _) => true
  | _ => r.positional.isSome

/-- Takes in the value of the option for a root, which is given once at most and is not empty. -/
def takeRoot (value : String) (r : Reading) : Except UsageFault Reading :=
  if r.projectRoot.isSome then throw .argumentConflict
  else if value.isEmpty then throw .invalidValue
  else return { r with projectRoot := some value, pending := none }

/-- Takes in the word that waits. -/
def settle (g : Grammar) (r : Reading) : Except UsageFault Reading :=
  match r.pending with
  | none => return r
  | some (.positional value) =>
    if value.isEmpty && !g.emptyAllowed then throw .invalidValue
    else return { r with positional := some value, pending := none }
  | some (.projectRoot none) => throw .invalidValue
  | some (.projectRoot (some value)) => r.takeRoot value

/-- Takes in an option without a value; each is given once at most. -/
def take (g : Grammar) (s : Switch) (r : Reading) : Except UsageFault Reading := do
  let r ← r.settle g
  match s with
  | .strict => if r.strict then throw .argumentConflict else return { r with strict := true }
  | .noVariants =>
    if r.noVariants then throw .argumentConflict else return { r with noVariants := true }
  | .help => throw .displayHelp
  | .version => throw .displayVersion
  | .projectRoot => throw .invalidValue

/-- Takes in the letters behind a dash. -/
def takeLetters (g : Grammar) : List Char → Reading → Except UsageFault Reading
  | [], r => return r
  | c :: rest, r => match g.short? c with
    | some s => do takeLetters g rest (← r.take g s)
    | none => throw .unknownArgument

/-- Takes in an option with its value behind an equals sign, or lets it wait for the next word. -/
def takeLong (g : Grammar) (name : String) (value : Option String) (r : Reading) :
    Except UsageFault Reading :=
  match g.long? name, value with
  | none, _ => throw .unknownArgument
  | some .projectRoot, some value => do (← r.settle g).takeRoot value
  | some .projectRoot, none => do return { ← r.settle g with pending := some (.projectRoot none) }
  | some _, some _ => throw .tooManyValues
  | some s, none => r.take g s

/-- Lets a positional word wait; there is one at most. -/
def takePlain (g : Grammar) (word : String) (r : Reading) : Except UsageFault Reading :=
  if r.hasPositional then throw .unknownArgument
  else do return { ← r.settle g with pending := some (.positional word) }

/-- Takes in one word. -/
def takeWord (g : Grammar) (word : String) (r : Reading) : Except UsageFault Reading :=
  match Word.ofString word with
  | .escape => return r
  | .long name value => r.takeLong g name value
  | .short letters => r.takeLetters g letters
  | .plain => match r.pending with
    | some (.projectRoot none) => return { r with pending := some (.projectRoot (some word)) }
    | _ => r.takePlain g word

/-- Reads the words of a command; behind an escape all words are positional. -/
def ofWords (g : Grammar) : Bool → List String → Reading → Except UsageFault Reading
  | _, [], r => r.settle g
  | true, word :: rest, r => do ofWords g true rest (← r.takePlain g word)
  | false, word :: rest, r => do
    ofWords g (Word.ofString word == .escape) rest (← r.takeWord g word)

end Reading

/-! ## Commands -/

/-- The word that names a command. -/
inductive Verb where
  | apply
  | check
  | shape
  | help
deriving DecidableEq, Repr

def Verb.ofString? : String → Option Verb
  | "apply" | "a" => some apply
  | "check" | "c" => some check
  | "shape" => some shape
  | "help" => some help
  | _ => none

namespace Command

def readApply (words : List String) : Except UsageFault Command := do
  let r ← Reading.ofWords .applyWords false words .empty
  match r.positional with
  | some path => return .apply ⟨path⟩ r.strict (r.projectRoot.map Path.mk) !r.noVariants
  | none => throw .missingRequiredArgument

def readCheck (words : List String) : Except UsageFault Command := do
  let r ← Reading.ofWords .checkWords false words .empty
  return .check ⟨r.positional.getD "."⟩ r.strict

def readShape (words : List String) : Except UsageFault Command := do
  let r ← Reading.ofWords .shapeWords false words .empty
  return .shape r.positional

/-- Help is there for every command, and for nothing below one. -/
def readHelp : List String → UsageFault
  | [] => .displayHelp
  | [word] => if (Verb.ofString? word).isSome then .displayHelp else .invalidSubcommand
  | _ => .invalidSubcommand

/-- What the first word says when it names no command. -/
def topFault (word : String) (rest : List String) : UsageFault :=
  match Word.ofString word, rest with
  | .escape, [] => .displayHelpOnMissingArgumentOrSubcommand
  | .escape, next :: _ =>
    if (Verb.ofString? next).isSome then .unknownArgument else .invalidSubcommand
  | .long "help" value, _ => if value.isSome then .tooManyValues else .displayHelp
  | .long "version" value, _ => if value.isSome then .tooManyValues else .displayVersion
  | .short ('h' :: _), _ => .displayHelp
  | .short ('V' :: _), _ => .displayVersion
  | .plain, _ => .invalidSubcommand
  | _, _ => .unknownArgument

/-- The command of a command line. -/
def ofWords : List String → Except UsageFault Command
  | [] => throw .displayHelpOnMissingArgumentOrSubcommand
  | word :: rest => match Verb.ofString? word with
    | some .apply => readApply rest
    | some .check => readCheck rest
    | some .shape => readShape rest
    | some .help => throw (readHelp rest)
    | none => throw (topFault word rest)

end Command

end BuildReplay.Cli
