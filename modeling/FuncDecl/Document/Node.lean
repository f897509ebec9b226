/-!
# Documents

A document is a table: names with values, which may be tables again. Settings do not use numbers
with a fraction or dates; a document knows that such a value is there and not what it is.

* `Form`: how a table came about, which decides what may still be added to it.
* `Node`, `Entries`: a value, and the names of a table with their values.
* `Entries.assign`: gives a value to a key with dots.
* `Entries.openTable`, `Entries.openNextTable`: open a table by its header.
-/

namespace FuncDecl.Document

/-- How a table of a document came about. -/
inductive Form where
  /-- It has a header of its own, or is the document itself. -/
  | header
  /-- It is named on the way to the header of a table inside it. -/
  | implied
  /-- It is named on the way to a key with dots. -/
  | dotted
deriving DecidableEq, Repr

/-- A value in a document. -/
inductive Node where
  | string (text : String)
  | integer (value : Int)
  | float
  | bool (value : Bool)
  | datetime
  | array (items : List Node)
  /-- A table between braces: nothing can be added to it. -/
  | inline (entries : List (String × Node))
  | table (form : Form) (entries : List (String × Node))
  /-- The tables of one name that each have a header of their own, the latest first. -/
  | tables (latest : List (String × Node)) (earlier : List (List (String × Node)))

/-- The names of a table with their values. -/
abbrev Entries := List (String × Node)

namespace Entries

/-- The entries with another value for a name that is among them. -/
def replace (name : String) (value : Node) : Entries → Entries
  | [] => []
  | (other, old) :: rest =>
    if other = name then (other, value) :: rest else (other, old) :: replace name value rest

/-- The entries with one more name, unless it is among them. -/
def add (name : String) (value : Node) (entries : Entries) : Option Entries :=
  match entries.lookup name with
  | some _ => none
  | none => some (entries ++ [(name, value)])

/-- Change the table at the end of a path, given how it is changed. Tables on the way that are not
there come about in the given form. A path with dots does not lead into a table that has a header of
its own; no path leads into a value that is no table. -/
def descend (via : Form) (change : Form → Entries → Option Entries) :
    List String → Form → Entries → Option Entries
  | [], form, entries => change form entries
  | name :: path, _, entries =>
    match entries.lookup name with
    | none => do
      let inner ← descend via change path via []
      return entries ++ [(name, .table via inner)]
    | some (.table form inner) =>
      if via = .dotted ∧ form = .header then none
      else do
        let inner ← descend via change path form inner
        return entries.replace name (.table form inner)
    | some (.tables latest earlier) => do
      let latest ← descend via change path .header latest
      return entries.replace name (.tables latest earlier)
    | some _ => none

/-- Give a value to a key with dots. The table that gets the value must have come about by such keys
if the key has a dot, and must not otherwise. -/
def assign (path : List String) (name : String) (value : Node) (form : Form) (entries : Entries) :
    Option Entries :=
  descend .dotted
    (fun form entries =>
      if form = .dotted ↔ path ≠ [] then entries.add name value else none)
    path form entries

/-- Open a table by its header. A table that was only named on the way to another one gets its
header now; any other value of that name is in the way. -/
def openTable (name : String) (_ : Form) (entries : Entries) : Option Entries :=
  match entries.lookup name with
  | none => some (entries ++ [(name, .table .header [])])
  | some (.table .implied inner) => some (entries.replace name (.table .header inner))
  | some _ => none

/-- Open one more table of a name by its header. -/
def openNextTable (name : String) (_ : Form) (entries : Entries) : Option Entries :=
  match entries.lookup name with
  | none => some (entries ++ [(name, .tables [] [])])
  | some (.tables latest earlier) =>
    some (entries.replace name (.tables [] (latest :: earlier)))
  | some _ => none

end Entries

end FuncDecl.Document
