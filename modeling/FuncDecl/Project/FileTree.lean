import FuncDecl.Project.Path
import FuncDecl.Text.Span

/-!
# Trees of files

A directory holds files and directories by name. Names are texts. A name whose bytes are no UTF-8 is
left out: no path that is given as a text leads to it. Where names are ordered, they are ordered by
their bytes.

* `FileTree`: a file with its bytes, or a directory with its entries.
* `ReadFault`: why a path cannot be read.
* `Disk`: what every path names. `FileTree.lookup` follows a path from a directory.
* `FileTree.ofList`: the tree of a list of paths.
-/

namespace FuncDecl

/-- A file with its bytes, or a directory with its entries. -/
inductive FileTree where
  | file (bytes : ByteArray)
  | directory (entries : List (String × FileTree))

/-- Why a path cannot be read. -/
inductive ReadFault where
  /-- Nothing has that name. -/
  | notFound
  /-- The path goes on behind a file. -/
  | notDirectory
  /-- A directory has no text. -/
  | isDirectory
  /-- A null character ends a path, so none can stand inside. -/
  | nullInPath
  /-- The path, or a name in it, is longer than the file system allows. -/
  | tooLong
  /-- The bytes of the file are no UTF-8 text. -/
  | notText
deriving DecidableEq, Repr

/-- The wording of a fault. -/
def ReadFault.message : ReadFault → String
  | notFound => "No such file or directory (os error 2)"
  | notDirectory => "Not a directory (os error 20)"
  | isDirectory => "Is a directory (os error 21)"
  | nullInPath => "file name contained an unexpected NUL byte"
  | tooLong => "File name too long (os error 36)"
  | notText => "stream did not contain valid UTF-8"

/-- What a path names, or why it names nothing. -/
abbrev Disk := String → Except ReadFault FileTree

/-- The number of bytes that a name in a directory can have at most. -/
def nameLimit : Nat :=
  255

/-- The number of bytes that a path can have at most. -/
def pathLimit : Nat :=
  4095

namespace FileTree

/-- Why a directory has no entry of a name. -/
def missing (name : String) : ReadFault :=
  if nameLimit < Text.byteLength name.toList then .tooLong else .notFound

/-- The directories around the one that paths start from: nothing is found in them. -/
def outside : FileTree :=
  .directory []

/-- Follow the parts of a path. The way back up is the list of directories that were passed. -/
def follow (passed : List FileTree) (here : FileTree) : List String → Except ReadFault FileTree
  | [] => .ok here
  | part :: rest =>
    match here with
    | .file _ => .error .notDirectory
    | .directory entries =>
      if part = "" ∨ part = "." then follow passed here rest
      else if part = ".." then
        match passed with
        | above :: passed => follow passed above rest
        | [] => follow [] outside rest
      else
        match entries.lookup part with
        | some inner => follow (here :: passed) inner rest
        | none => .error (missing part)

/-- What a path from the directory names. The empty path names nothing, and a path that begins with
a slash leads outside. The form of a path is judged before any part of it is followed. -/
def lookup (tree : FileTree) : Disk :=
  fun path =>
    if path.toList.contains '\x00' then .error .nullInPath
    else if pathLimit < Text.byteLength path.toList then .error .tooLong
    else
      match Path.parts path with
      | [""] => .error .notFound
      | "" :: parts => follow [] outside parts
      | parts => follow [] tree parts

/-! ## Building a tree -/

/-- The entries with something at a name, in place of what was there. -/
def setEntry (name : String) (tree : FileTree) :
    List (String × FileTree) → List (String × FileTree)
  | [] => [(name, tree)]
  | (other, old) :: rest =>
    if other = name then (other, tree) :: rest else (other, old) :: setEntry name tree rest

/-- The tree with something at the end of a way; directories on the way come about. A directory
that is put where one is already leaves it as it is. -/
def put (leaf : FileTree) : List String → FileTree → FileTree
  | [], here =>
    match leaf, here with
    | .directory [], .directory _ => here
    | _, _ => leaf
  | name :: rest, here =>
    let entries := match here with
      | .directory entries => entries
      | .file _ => []
    let inner := (entries.lookup name).getD (.directory [])
    .directory (setEntry name (put leaf rest inner) entries)

/-- The tree with something at the end of a path from the directory at `way`. A directory that the
path leaves again comes about too; a path that leads outside changes nothing. -/
def putPath (leaf : FileTree) (way : List String) : List String → FileTree → FileTree
  | [], tree => put leaf way tree
  | name :: rest, tree =>
    if name = ".." then
      if way = [] then tree
      else putPath leaf way.dropLast rest (put (.directory []) way tree)
    else putPath leaf (way ++ [name]) rest tree

/-- The tree of a list of paths, each with a file or a directory. -/
def ofList (items : List (String × FileTree)) : FileTree :=
  items.foldl
    (fun tree (path, leaf) => putPath leaf [] ((Path.parts path).filter Path.isNamed) tree)
    (.directory [])

end FileTree

end FuncDecl
