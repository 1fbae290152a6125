import BuildReplay.Document.Reader
import BuildReplay.FileTree

/-!
# Build files

The build file that a path means, the build files below a directory, and their documents.
-/

namespace BuildReplay

variable {m : Type → Type} [Monad m]

/-- Directories that are not searched. -/
def skippedDirectories : List String := ["build", ".gradle", ".git", "target", "node_modules"]

/-- A build file and the directory of its project. -/
structure BuildLocation where
  projectDir : Path
  buildFile : Path
deriving DecidableEq, Repr

/-- The project directory of a build file. -/
def projectDirOf (file : Path) : Path :=
  match file.parent? with
  | some dir => if dir.text.isEmpty then ⟨"."⟩ else dir
  | none => ⟨"."⟩

/-- The build file that a path means: the path itself, or the file of that name in a directory. -/
def locateBuildFile (files : Files m) (path : Path) (name : String) :
    ExceptT String m BuildLocation := do
  match ← files.kind? path with
  | none => throw ("Path not found: " ++ path.text)
  | some .file => return ⟨projectDirOf path, path⟩
  | some .directory =>
    let file := path.join ⟨name⟩
    match ← files.kind? file with
    | some .file => return ⟨path, file⟩
    | _ => throw ("No " ++ name ++ " found in " ++ path.text)

mutual

/-- The files of a name at or below a node, whose own name is `entry`. -/
def filesNamed (name : String) (path : Path) (entry : String) : FileNode → List Path
  | .file _ => if entry = name then [path] else []
  | .directory entries =>
    if entry ∈ skippedDirectories then [] else filesBelow name path entries

/-- The files of a name below a directory. -/
def filesBelow (name : String) (dir : Path) : List (String × FileNode) → List Path
  | [] => []
  | (entry, n) :: rest =>
    filesNamed name (dir.join ⟨entry⟩) entry n ++ filesBelow name dir rest

end

/-- The files of a name at or below a root; the root is searched whatever its own name. -/
def filesUnder (name : String) (root : Path) : FileNode → List Path
  | .file _ => if root.fileName?.getD root.text = name then [root] else []
  | .directory entries => filesBelow name root entries

/-- The build files at or below a root in the order of their paths. -/
def findBuildFiles (files : Files m) (root : Path) (name : String) : m (List Path) := do
  match ← files.tree? root with
  | some n => return (filesUnder name root n).mergeSort Path.le
  | none => return []

/-- The document in a file. -/
def loadFile (files : Files m) (path : Path) : ExceptT Error m Table := do
  match ← files.read path with
  | .error fault => throw (.io (path.text ++ ": " ++ fault.text))
  | .ok text => Document.parse path.text text

/-- The document in the file of a name in a directory. -/
def loadFromDir (files : Files m) (dir : Path) (name : String) : ExceptT Error m Table :=
  loadFile files (dir.join ⟨name⟩)

end BuildReplay
