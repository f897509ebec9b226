/-!
# Tables

A table gives values to names and remembers the order in which the names were first given one. A new
value for a name that is already there takes the place of the old one.

* `Table.find?`, `Table.contains`, `Table.names`: what a table has.
* `Table.insert`, `Table.insertAll`: give values to names.
* `Table.ofList`: the table of a list, in which a name that comes again takes its last value.
-/

namespace FuncDecl

/-- Names with values, in the order of their first appearance. -/
structure Table (α : Type) where
  entries : List (String × α)
deriving DecidableEq, Repr

namespace Table

variable {α : Type}

/-- The table without names. -/
def empty : Table α :=
  ⟨[]⟩

instance : Inhabited (Table α) :=
  ⟨empty⟩

/-- The value of a name. -/
def find? (t : Table α) (name : String) : Option α :=
  t.entries.lookup name

/-- Whether the name has a value. -/
def contains (t : Table α) (name : String) : Bool :=
  (t.find? name).isSome

/-- The names, in order. -/
def names (t : Table α) : List String :=
  t.entries.map Prod.fst

/-- The number of names. -/
def size (t : Table α) : Nat :=
  t.entries.length

/-- The entries with a value for a name: in place if the name is there, at the end otherwise. -/
def put (name : String) (value : α) : List (String × α) → List (String × α)
  | [] => [(name, value)]
  | (other, old) :: rest =>
    if other = name then (other, value) :: rest else (other, old) :: put name value rest

/-- Give a value to a name. -/
def insert (t : Table α) (name : String) (value : α) : Table α :=
  ⟨put name value t.entries⟩

/-- Give values to names one after the other. -/
def insertAll (t : Table α) (entries : List (String × α)) : Table α :=
  entries.foldl (fun t entry => t.insert entry.1 entry.2) t

/-- The table of a list of names and values; a name that comes again takes its last value. -/
def ofList (entries : List (String × α)) : Table α :=
  empty.insertAll entries

end Table

end FuncDecl
