/-!
# Paths

A path is a text whose parts are separated by slashes. Empty parts and parts that are a single dot
say nothing, except that a path may begin with a dot.

* `parts`: the texts between the slashes.
* `fileName?`, `extension?`: the last name in a path, and the text behind its last dot.
* `isSource`: whether a path has the extension of source files.
* `join`, `parent?`: the path of a name inside a directory, and the path without its last part.
-/

namespace FuncDecl.Path

/-- The pieces of a text between the places where a character stands. -/
def splitAt (separator : Char) : List Char → List (List Char)
  | [] => [[]]
  | c :: cs =>
    if c = separator then [] :: splitAt separator cs
    else
      match splitAt separator cs with
      | [] => [[c]]
      | piece :: pieces => (c :: piece) :: pieces

/-- The texts between the slashes of a path. -/
def parts (path : String) : List String :=
  (splitAt '/' path.toList).map String.ofList

/-- Whether a part of a path names something. -/
def isNamed (part : String) : Bool :=
  part != "" && part != "."

/-- The last name in a path, unless the path ends by going up. -/
def fileName? (path : String) : Option String :=
  match ((parts path).filter isNamed).getLast? with
  | some name => if name = ".." then none else some name
  | none => none

/-- The text behind the last dot of a file name. A name whose only dot comes first has none. -/
def extension? (path : String) : Option String :=
  match fileName? path with
  | none => none
  | some name =>
    match (splitAt '.' name.toList).reverse with
    | last :: before :: rest => if before = [] ∧ rest = [] then none else some (String.ofList last)
    | _ => none

/-- The extension of source files.
Source: `SOURCE_EXTENSION`. -/
def sourceExtension : String :=
  "hlx"

/-- Whether a path has the extension of source files.
Source: `is_source_file`. -/
def isSource (path : String) : Bool :=
  extension? path == some sourceExtension

/-- The path of a name inside a directory. -/
def join (directory name : String) : String :=
  match directory.toList.getLast? with
  | none => name
  | some last => if last = '/' then directory ++ name else directory ++ "/" ++ name

/-- The path without its last part. The directory at the top and the empty path have none. -/
def parent? (path : String) : Option String :=
  let named := (parts path).filter isNamed
  let start := match parts path with
    | "" :: _ :: _ => "/"
    | "." :: _ => "."
    | _ => ""
  match named with
  | [] => if start = "." then some "" else none
  | _ => some (named.dropLast.foldl join start)

end FuncDecl.Path
