import FuncDecl.Declaration.Compiler

/-!
# Sessions

The scopes of a file grow by two kinds of steps.

* `Step`: a scope is opened below another one, or a declaration is compiled against three of the
  scopes.
* `Scope.Tree.step`, `Scope.Tree.run`: the tree after a step and after a list of steps, accepted and
  refused declarations alike.
-/

namespace FuncDecl

/-- A step in the life of a tree of scopes. -/
inductive Step where
  /-- Open a scope. -/
  | nest (parent : Scope.Id) (kind : Scope.Kind) (name : String)
  /-- Compile a declaration. -/
  | compile (compiler : Compiler) (tokens : List Token) (chain : Chain)
deriving DecidableEq, Repr

namespace Scope.Tree

/-- The tree after a step. -/
def step (tree : Scope.Tree) : Step → Scope.Tree
  | .nest parent kind name => tree.nest parent kind name
  | .compile compiler tokens chain => (compiler.compile tokens tree chain).2

/-- The tree after a list of steps. -/
def run (tree : Scope.Tree) (steps : List Step) : Scope.Tree :=
  steps.foldl step tree

end Scope.Tree

end FuncDecl
