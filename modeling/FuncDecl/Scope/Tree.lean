import FuncDecl.Declaration.Flags
import FuncDecl.Declaration.Parameter

/-!
# Scopes

Functions are registered in scopes: the file, the classes in it, the bodies of functions. The scopes
of a file are kept in one array and named by their index; each but the first knows which scope it is
nested in. Scopes are only ever added, below one that is already there.

* `Scope.Kind`: what a scope is the inside of.
* `Signature`: what is known of a registered function.
* `Scope`, `Scope.Tree`: a scope with its functions and variables, and all scopes of a file.
* `Chain`: the three scopes that a declaration has to do with.
* `Scope.Tree.nest`: opens a scope.
* `Scope.Tree.nearest?`: the nearest definition of a name.
-/

namespace FuncDecl

/-! ## One scope -/

/-- What a scope is the inside of.
Source: `ScopeKind`. -/
inductive Scope.Kind where
  | root
  | function
  | classType
  | interfaceType
  | structType
  | unionType
  | enumType
  | abstractType
deriving DecidableEq, Repr

namespace Scope.Kind

/-- Whether the functions in the scope are methods.
Source: `is_class_like`. -/
def hasMethods : Scope.Kind → Bool
  | root | function => false
  | _ => true

/-- Whether the methods in the scope are abstract.
Source: `is_abstract`. -/
def hasAbstractMethods : Scope.Kind → Bool
  | interfaceType | abstractType => true
  | _ => false

/-- The words that open a type, each with the kind of scope it opens. -/
def keywords : List (String × Scope.Kind) :=
  [("class", classType), ("interface", interfaceType), ("struct", structType),
    ("union", unionType), ("enum", enumType), ("abstract", abstractType)]

/-- The kind of scope that a word opens.
Source: `from_keyword`. -/
def ofKeyword? (text : String) : Option Scope.Kind :=
  keywords.lookup text

end Scope.Kind

/-- What is known of a registered function.
Source: `FunctionMeta`. -/
structure Signature where
  params : ParamTable
  returnType : Option String
  flags : Flags
  /-- The place of the function's name in its declaration. -/
  span : Span
deriving DecidableEq, Repr

/-- The index of a scope in its tree.
Source: `ScopeId`. -/
abbrev Scope.Id := Nat

/-- A scope with the functions and variables registered in it.
Source: `Scope`. -/
structure Scope where
  kind : Scope.Kind
  name : String
  /-- How many scopes enclose it. -/
  indent : Nat
  parent : Option Scope.Id
  functions : Table Signature := .empty
  /-- The types of the variables. -/
  bindings : Table String := .empty
deriving DecidableEq, Repr

instance : Inhabited Scope :=
  ⟨{ kind := .root, name := "", indent := 0, parent := none }⟩

/-- The three scopes that a declaration has to do with.
Source: `ScopeChain`. -/
structure Chain where
  /-- The scope of its own body. -/
  current : Scope.Id
  /-- The scope it is registered in. -/
  parent : Scope.Id
  /-- The scope of the file. -/
  root : Scope.Id
deriving DecidableEq, Repr

/-! ## All scopes of a file -/

/-- The scopes of a file, of which the first is the file itself, and the spellings that the
declarations in it are read by.
Source: `ScopeTree`. -/
structure Scope.Tree where
  keywords : Keywords
  scopes : Array Scope
deriving DecidableEq, Repr

namespace Scope.Tree

/-- The tree of a file with no scope inside it.
Source: `new` of `ScopeTree`. -/
def new (name : String) (keywords : Keywords) : Scope.Tree :=
  ⟨keywords, #[{ kind := .root, name, indent := 0, parent := none }]⟩

/-- The index of the file's own scope.
Source: `root`. -/
def root : Scope.Id :=
  0

/-- The number of scopes.
Source: `len` of `ScopeTree`. -/
def size (tree : Scope.Tree) : Nat :=
  tree.scopes.size

/-- The scope with the given index. An index that is not in the tree stands for an empty file.
Source: `index` of `ScopeTree`. -/
def get (tree : Scope.Tree) (id : Scope.Id) : Scope :=
  tree.scopes.getD id default

/-- The tree with one of its scopes changed.
Source: `index_mut` of `ScopeTree`. -/
def modify (tree : Scope.Tree) (id : Scope.Id) (f : Scope → Scope) : Scope.Tree :=
  { tree with scopes := tree.scopes.modify id f }

/-- The tree with one more scope, nested in `parent`; its index is the old size.
Source: `push_child`. -/
def nest (tree : Scope.Tree) (parent : Scope.Id) (kind : Scope.Kind) (name : String) :
    Scope.Tree :=
  let scope : Scope := { kind, name, indent := (tree.get parent).indent + 1, parent := some parent }
  { tree with scopes := tree.scopes.push scope }

/-- The chain of a declaration whose body is the given scope.
Source: `chain_for`. -/
def chainOf (tree : Scope.Tree) (current : Scope.Id) : Chain :=
  ⟨current, (tree.get current).parent.getD current, root⟩

/-- The nearest definition of a function: in the scope, or else in the first of those around it
that has one. A scope is added after the one it is nested in, so the indices decrease on the way.
Source: `resolve_function`. -/
def nearest? (tree : Scope.Tree) (name : String) (id : Scope.Id) :
    Option (Scope.Id × Signature) :=
  match (tree.get id).functions.find? name with
  | some signature => some (id, signature)
  | none =>
    match (tree.get id).parent with
    | some parent => if parent < id then nearest? tree name parent else none
    | none => none
termination_by id

end Scope.Tree

end FuncDecl
