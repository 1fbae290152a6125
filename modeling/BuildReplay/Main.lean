import BuildReplay.Cli.Run

/-!
# The program

The commands on the files of the system. The output of a command goes to the standard output, what
went wrong to the error stream.
-/

namespace BuildReplay

/-- What the system says when it refuses a file. -/
def Fault.ofSystem : IO.Error → Fault
  | .noFileOrDirectory _ _ _ => .missing
  | .inappropriateType _ 20 _ => .notDirectory
  | .inappropriateType _ 21 _ => .isDirectory
  | .invalidArgument _ 36 _ => .nameTooLong
  | .permissionDenied _ code details | .resourceExhausted _ code details
  | .inappropriateType _ code details | .invalidArgument _ code details =>
    .other (details ++ " (os error " ++ toString code ++ ")")
  | e => .other (toString e)

/-- A path as an entry of the working directory. -/
def Path.entry (p : Path) : IO.FS.DirEntry := ⟨".", p.text⟩

def FileKind.ofType? : IO.FS.FileType → Option FileKind
  | .file => some .file
  | .dir => some .directory
  | .symlink | .other => none

/-- What stands at an entry of a known kind, down to a depth. Links below it are left out, and files
are taken as empty. -/
def FileNode.ofEntry : Nat → FileKind → IO.FS.DirEntry → IO FileNode
  | _, .file, _ => return .file .empty
  | 0, .directory, _ => return .directory []
  | depth + 1, .directory, e => do
    let .ok found ← e.path.readDir.toBaseIO | return .directory []
    let entries ← found.toList.filterMapM fun e => do
      let .ok metadata ← e.path.symlinkMetadata.toBaseIO | return none
      match FileKind.ofType? metadata.type with
      | some kind => return some (e.fileName, ← FileNode.ofEntry depth kind e)
      | none => return none
    return .directory entries

/-- What stands at a path; links are followed, and no path is empty. -/
def FileKind.ofPath? (p : Path) : IO (Option FileKind) := do
  if p.text.isEmpty then return none
  let .ok found ← p.entry.path.metadata.toBaseIO | return none
  return FileKind.ofType? found.type

/-- The files of the system, seen from the working directory. No path is longer than the limit, so
no tree is deeper. -/
def systemFiles : Files IO where
  kind? := FileKind.ofPath?
  read p := do
    if p.text.isEmpty then return .error .missing
    match ← (IO.FS.readBinFile p.entry.path).toBaseIO with
    | .ok bytes => return (FileNode.file bytes).text
    | .error e => return .error (.ofSystem e)
  tree? p := do
    match ← FileKind.ofPath? p with
    | some kind => return some (← FileNode.ofEntry FileSystem.pathLimit kind p.entry)
    | none => return none

/-- Runs the command of a command line and ends with its exit code. -/
def runProgram (words : List String) : IO UInt32 := do
  match Cli.Command.ofWords words with
  | .error fault =>
    if fault.exitCode = 0 then IO.println Cli.usage else IO.eprintln Cli.usage
    return .ofNat fault.exitCode
  | .ok command =>
    let outcome ← command.run systemFiles (← IO.getEnv strictVariable)
    IO.print outcome.output
    match outcome.result with
    | .ok () => return 0
    | .error failure =>
      IO.eprintln ("Error: " ++ failure.text)
      return 1

end BuildReplay

def main (words : List String) : IO UInt32 := BuildReplay.runProgram words
