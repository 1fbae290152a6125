import BuildReplay.Path

/-!
# Files

A tree of directories and files, seen from a working directory. Paths are walked step by step: a dot
stays, two dots go up, and every step needs a directory to go from.
-/

namespace BuildReplay

/-- Why a file cannot be had. -/
inductive Fault where
  | missing
  | notDirectory
  | isDirectory
  | nameTooLong
  | zeroInName
  /-- The content is no UTF-8. -/
  | noText
  | other (message : String)
deriving DecidableEq, Repr

def Fault.text : Fault → String
  | missing => "No such file or directory (os error 2)"
  | notDirectory => "Not a directory (os error 20)"
  | isDirectory => "Is a directory (os error 21)"
  | nameTooLong => "File name too long (os error 36)"
  | zeroInName => "file name contained an unexpected NUL byte"
  | noText => "stream did not contain valid UTF-8"
  | other message => message

/-- A file or a directory. -/
inductive FileNode where
  | file (bytes : ByteArray)
  | directory (entries : List (String × FileNode))
deriving Inhabited

/-- What stands at a path. -/
inductive FileKind where
  | file
  | directory
deriving DecidableEq, Repr

namespace FileNode

def kind : FileNode → FileKind
  | file _ => .file
  | directory _ => .directory

/-- The entry of a name. -/
def find? (name : String) : List (String × FileNode) → Option FileNode
  | [] => none
  | (key, n) :: rest => if key = name then some n else find? name rest

/-- Puts an entry in the place of the one of its name, or at the end. -/
def put (name : String) (n : FileNode) : List (String × FileNode) → List (String × FileNode)
  | [] => [(name, n)]
  | e :: rest => if e.1 = name then (name, n) :: rest else e :: put name n rest

/-- Makes a file or a directory below a directory, with the directories on the way. -/
def make (n : FileNode) : List String → FileNode → FileNode
  | [], _ => n
  | name :: path, .directory entries =>
    .directory (put name (make n path ((find? name entries).getD (.directory []))) entries)
  | name :: path, .file _ => .directory [(name, make n path (.directory []))]

/-- The content of a file as a text. -/
def text : FileNode → Except Fault String
  | .file bytes => match String.fromUTF8? bytes with
    | some s => .ok s
    | none => .error .noText
  | .directory _ => .error .isDirectory

end FileNode

/-- A file system with a working directory, given by the names from the top down. -/
structure FileSystem where
  top : FileNode
  workingDir : List String

namespace FileSystem

/-- The longest name of a file, in bytes. -/
def nameLimit : Nat := 255

/-- The longest path, in bytes. -/
def pathLimit : Nat := 4095

/-- One step from a node; `stack` holds the node and what is above it, innermost first. -/
def step (name : String) : List FileNode → Except Fault (List FileNode)
  | .directory entries :: outer =>
    if name = "" || name = "." then .ok (.directory entries :: outer)
    else if name = ".." then .ok (if outer.isEmpty then [.directory entries] else outer)
    else if nameLimit < name.utf8ByteSize then .error .nameTooLong
    else match FileNode.find? name entries with
      | some n => .ok (n :: .directory entries :: outer)
      | none => .error .missing
  | .file _ :: _ => .error .notDirectory
  | [] => .error .missing

/-- Several steps from a node. -/
def walk : List String → List FileNode → Except Fault (List FileNode)
  | [], stack => .ok stack
  | name :: path, stack => match step name stack with
    | .ok stack => walk path stack
    | .error fault => .error fault

/-- The node at a path. -/
def resolve (fs : FileSystem) (p : Path) : Except Fault FileNode :=
  if p.text.isEmpty then .error .missing
  else if p.text.toList.contains '\x00' then .error .zeroInName
  else if pathLimit < p.text.utf8ByteSize then .error .nameTooLong
  else
    let steps := (Path.segments p.text.toList).map String.ofList
    match walk (if p.isAbsolute then steps else fs.workingDir ++ steps) [fs.top] with
    | .ok (n :: _) => .ok n
    | .ok [] => .error .missing
    | .error fault => .error fault

end FileSystem

/-- How files are looked at. -/
structure Files (m : Type → Type) where
  /-- What stands at a path, if it can be had. -/
  kind? : Path → m (Option FileKind)
  /-- The text of the file at a path. -/
  read : Path → m (Except Fault String)
  /-- What stands at a path, with everything below it; the files may be given as empty. -/
  tree? : Path → m (Option FileNode)

/-- A file system that is at hand as a value. -/
def FileSystem.files (fs : FileSystem) : Files Id where
  kind? p := (fs.resolve p).toOption.map FileNode.kind
  read p := match fs.resolve p with
    | .ok n => n.text
    | .error fault => .error fault
  tree? p := (fs.resolve p).toOption

end BuildReplay
