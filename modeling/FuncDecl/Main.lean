import FuncDecl.CommandLine.Run

/-!
# The program

The program looks at the files that its arguments ask about, and leaves the rest to
`CommandLine.execute`.

* `glance`, `inspect`: look at a path, and at all that a request asks about.
* `Findings.disk`: what was found, as a disk.
* `main`: the program.
-/

namespace FuncDecl

/-- What was found at the paths that were looked at. -/
abbrev Findings := List (String × Except ReadFault FileTree)

/-- A path as the file system takes it. -/
def place (path : String) : IO.FS.DirEntry :=
  ⟨path, ""⟩

/-- The fault that an error of the file system stands for. -/
def ReadFault.ofError : IO.Error → ReadFault
  | .inappropriateType .. => .notDirectory
  | .invalidArgument _ 36 _ => .tooLong
  | _ => .notFound

/-- Look at a path and at everything below it. An entry that cannot be read keeps its place. -/
partial def survey (path : String) : IO Findings := do
  try
    let root := (place path).root
    if ← root.isDir then
      let mut entries : List (String × FileTree) := []
      let mut findings : Findings := []
      for entry in ← root.readDir do
        let inner := Path.join path entry.fileName
        let below ← survey inner
        findings := findings ++ below
        match below.lookup inner with
        | some (.ok tree) => entries := (entry.fileName, tree) :: entries
        | _ => entries := (entry.fileName, .file .empty) :: entries
      return (path, .ok (.directory entries)) :: findings
    else
      return [(path, .ok (.file (← IO.FS.readBinFile path)))]
  catch e =>
    return [(path, .error (.ofError e))]

/-- Look at a path and not below it. -/
def glance (path : String) : IO Findings := do
  if ← (place path).root.isDir then
    return [(path, .ok (.directory []))]
  else
    survey path

/-- What was found, as a disk. -/
def Findings.disk (findings : Findings) : Disk :=
  fun path => (findings.lookup path).getD (.error .notFound)

/-- Look at what a request asks about: its path, and the files that may hold its settings. -/
def inspect : CommandLine.Request → IO Findings
  | .run invocation => do
    let path := invocation.path
    let directory := (Path.parent? path).getD "."
    let settings :=
      invocation.config.toList ++ [Path.join path settingsFile, Path.join directory settingsFile]
    return (← survey path) ++ (← settings.mapM glance).flatten
  | _ => return []

end FuncDecl

/-- The program.
Source: `main`. -/
def main (arguments : List String) : IO UInt32 := do
  let request := FuncDecl.CommandLine.parseArguments arguments
  let findings ← FuncDecl.inspect request
  let outcome := FuncDecl.CommandLine.answer findings.disk request
  IO.print outcome.output
  for note in outcome.notes do
    IO.eprintln note
  return outcome.exitCode.toUInt32
