import FuncDecl.Settings.Basic
import FuncDecl.Source.Pass
import FuncDecl.Token.Lexeme

/-!
# Compiling a source

The text of a file is cut into tokens, the tokens into chunks, and the chunks are passed over from
first to last.

* `Compilation`: the functions, the diagnostics and the scopes that a source is compiled to.
* `PassContext.compile`: compiles the tokens of a file.
* `Settings.compile`: compiles the text of a file. A text that cannot be cut into tokens has that as
  its only diagnostic.
-/

namespace FuncDecl

/-- What a source is compiled to.
Source: `CompilationResult`. -/
structure Compilation where
  functions : List Compiled
  diagnostics : List Diagnostic
  scopes : Scope.Tree
deriving DecidableEq, Repr

namespace Compilation

/-- Whether something in the source was refused.
Source: `has_errors`. -/
def hasErrors (c : Compilation) : Bool :=
  c.diagnostics.any Diagnostic.isError

/-- The printed declarations, with an empty line between them.
Source: `output`. -/
def output (c : Compilation) : String :=
  "\n\n".intercalate (c.functions.map Compiled.output)

end Compilation

/-- Compile the tokens of a file, given the tree that has only the file itself. -/
def PassContext.compile (ctx : PassContext) (tree : Scope.Tree) (ts : List Token) : Compilation :=
  let (pass, report) := Pass.run ctx { tree } (ctx.compiler.dialect.chunks ts)
  let report := report ++ pass.unclosed (endSpan ts)
  ⟨report.functions, report.diagnostics, pass.tree⟩

namespace Settings

/-- The scopes of a file before its first token. -/
def emptyTree (s : Settings) (name : String) : Scope.Tree :=
  .new name s.spellings

/-- What the settings of a project mean for a file. -/
def context (s : Settings) (name source : String) : PassContext where
  compiler := .ofTree (s.emptyTree name) s.indent
  source := source
  warnings := s.report.warnings

/-- Compile the text of a file.
Source: `compile_source`. -/
def compile (s : Settings) (name source : String) : Compilation :=
  match Token.scan source with
  | .error fault => ⟨[], [.error .lexing fault.span fault.message], s.emptyTree name⟩
  | .ok ts => (s.context name source).compile (s.emptyTree name) ts

end Settings

end FuncDecl
