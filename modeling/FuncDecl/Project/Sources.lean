import FuncDecl.Project.FileTree
import FuncDecl.Settings.Decode
import FuncDecl.Source.Compilation

/-!
# Projects

A project is a directory with source files and perhaps a file of settings.

* `Disk.settingsAt`, `Disk.settingsIn`: the settings in a file, and those of the project in a
  directory. How a text is decoded is given as a function (`SettingsDecoder`); the usual one is
  `Settings.read?`.
* `FileTree.visits`: the walk through a tree, directory by directory, in the order of the names.
* `FileTree.barrier?`: the first directory that cannot be entered.
* `Disk.sources`: the source files below a directory, found by their extension.
* `Disk.compile`: compiles a source file.
-/

namespace FuncDecl

/-- Why a project cannot be handled.
Source: `DriverError`. -/
inductive ProjectError where
  /-- A file cannot be read. -/
  | read (path : String) (fault : ReadFault)
  /-- A file of settings is invalid. -/
  | settings (path : String)
  /-- A directory cannot be searched, because of what is at a place in it. -/
  | scan (root place : String) (fault : ReadFault)
deriving DecidableEq, Repr

/-- The wording of an error.
Source: the display of `DriverError`. -/
def ProjectError.message : ProjectError → String
  | read path fault => "failed to read " ++ path ++ ": " ++ fault.message
  | settings path => "invalid configuration in " ++ path
  | scan root place fault =>
    "failed to scan " ++ root ++ ": IO error for operation on " ++ place ++ ": " ++ fault.message

/-! ## Reading -/

/-- The text of a file. -/
def Disk.readText (disk : Disk) (path : String) : Except ProjectError String :=
  match disk path with
  | .error fault => .error (.read path fault)
  | .ok (.directory _) => .error (.read path .isDirectory)
  | .ok (.file bytes) =>
    match String.fromUTF8? bytes with
    | some text => .ok text
    | none => .error (.read path .notText)

/-- Whether a path names a file. -/
def Disk.isFile (disk : Disk) (path : String) : Bool :=
  match disk path with
  | .ok (.file _) => true
  | _ => false

/-- Whether a path names a directory. -/
def Disk.isDirectory (disk : Disk) (path : String) : Bool :=
  match disk path with
  | .ok (.directory _) => true
  | _ => false

/-! ## Settings -/

/-- The name of the file of settings of a project.
Source: `CONFIG_FILE_NAME`. -/
def settingsFile : String :=
  "helix.toml"

/-- A way of decoding the text of a file of settings; some texts are invalid. -/
abbrev SettingsDecoder := String → Option Settings

/-- The settings in a file.
Source: `load` of `HelixConfig`. -/
def Disk.settingsAt (disk : Disk) (path : String) (decode : SettingsDecoder := Settings.read?) :
    Except ProjectError Settings :=
  match disk.readText path with
  | .error e => .error e
  | .ok text =>
    match decode text with
    | some settings => .ok settings
    | none => .error (.settings path)

/-- The settings of the project in a directory; without a file of settings, the default ones.
Source: `discover` of `HelixConfig`. -/
def Disk.settingsIn (disk : Disk) (directory : String)
    (decode : SettingsDecoder := Settings.read?) : Except ProjectError Settings :=
  let path := Path.join directory settingsFile
  if disk.isFile path then disk.settingsAt path decode else .ok {}

/-! ## Source files -/

/-- A file or a directory that a walk through a tree comes to. -/
structure Visit where
  path : String
  isFile : Bool
deriving DecidableEq, Repr

mutual

/-- The walk through a tree that is at the given path: a directory comes before its entries, and
these come in the order of their names.
Source: the walk of `discover_sources`. -/
def FileTree.visits (path : String) : FileTree → List Visit
  | .file _ => [⟨path, true⟩]
  | .directory entries =>
    ⟨path, false⟩ ::
      ((visitsOf path entries).mergeSort fun a b => decide (a.1 ≤ b.1)).flatMap Prod.snd

/-- The walk through each entry of a directory that is at the given path. -/
def FileTree.visitsOf (path : String) : List (String × FileTree) → List (String × List Visit)
  | [] => []
  | (name, tree) :: rest =>
    (name, FileTree.visits (Path.join path name) tree) :: visitsOf path rest

end

/-- The source files of a tree that is at the given path. -/
def FileTree.sources (path : String) (tree : FileTree) : List String :=
  ((tree.visits path).filter fun v => v.isFile && Path.isSource v.path).map Visit.path

/-- The first directory of a walk that cannot be entered, because its path is too long. -/
def FileTree.barrier? (path : String) (tree : FileTree) : Option String :=
  ((tree.visits path).find? fun v =>
    !v.isFile && decide (pathLimit < Text.byteLength v.path.toList)).map Visit.path

/-- The source files below a directory. A file is taken as it is, whatever its name.
Source: `discover_sources`. -/
def Disk.sources (disk : Disk) (root : String) : Except ProjectError (List String) :=
  match disk root with
  | .error fault => .error (.scan root root fault)
  | .ok (.file _) => .ok [root]
  | .ok (.directory entries) =>
    match FileTree.barrier? root (.directory entries) with
    | some place => .error (.scan root place .tooLong)
    | none => .ok (FileTree.sources root (.directory entries))

/-- A source file with what it was compiled to.
Source: `SourceFile`. -/
structure CompiledFile where
  path : String
  source : String
  result : Compilation

/-- Compile a source file.
Source: `compile_file`. -/
def Disk.compile (disk : Disk) (settings : Settings) (path : String) :
    Except ProjectError CompiledFile :=
  match disk.readText path with
  | .error e => .error e
  | .ok source => .ok ⟨path, source, settings.compile path source⟩

end FuncDecl
