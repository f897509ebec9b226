import FuncDecl.Declaration.Compiler
import FuncDecl.Report.Diagnostic
import FuncDecl.Source.Chunk

/-!
# The pass over a source

A source is compiled in one pass over its chunks. The pass follows the braces: it knows which scope
each open brace belongs to, and compiles a declaration in the scope of the innermost one. A line
that declares a type opens a scope with its brace, which stands on that line or comes first on the
next.

* `Pass`: the state between two tokens. `Report` is what came up.
* `Pass.stepLine`: a line that is no declaration of a function.
* `Pass.stepDeclaration`: a declaration of a function, with `Pass.accepted` and `Pass.refused` for
  what is reported of it.
* `Pass.step`: handles a chunk and gives, besides the new state, what is to be reported of it.
* `Pass.run`: the chunks of the source, one after the other.
* `Pass.unclosed`: the braces that the end of the source leaves open.
-/

namespace FuncDecl

/-- An open brace: the scope inside it, and its place. A brace that opens no scope of its own has
the scope around it.
Source: an entry of `open` in `FilePass`. -/
structure OpenBrace where
  scope : Scope.Id
  span : Span
deriving DecidableEq, Repr

/-- A type declaration whose brace has not come yet.
Source: the content of `pending` in `FilePass`. -/
structure TypeHead where
  kind : Scope.Kind
  name : String
deriving DecidableEq, Repr

/-- The type that a line declares: its first token is a word that opens a type, and its name is the
first name behind that is no such word.
Source: `type_declaration`. -/
def TypeHead.ofLine? : List Token → Option TypeHead
  | [] => none
  | t :: ts =>
    if t.kind = .ident then
      match Scope.Kind.ofKeyword? t.text with
      | some kind =>
        let named := ts.find? fun t => t.kind == .ident && (Scope.Kind.ofKeyword? t.text).isNone
        some ⟨kind, (named.map Token.text).getD ""⟩
      | none => none
    else none

/-- What the pass reports: the declarations that were accepted and the diagnostics, each in the
order in which they came up. -/
structure Report where
  functions : List Compiled := []
  diagnostics : List Diagnostic := []
deriving DecidableEq, Repr

namespace Report

/-- One report behind another. -/
def append (a b : Report) : Report :=
  ⟨a.functions ++ b.functions, a.diagnostics ++ b.diagnostics⟩

instance : Append Report :=
  ⟨append⟩

end Report

/-- What stays the same during a pass. -/
structure PassContext where
  compiler : Compiler
  source : String
  /-- Whether a definition that hides another one is reported. -/
  warnings : Bool

/-- The state of a pass between two tokens.
Source: `FilePass`. -/
structure Pass where
  tree : Scope.Tree
  /-- The open braces, the innermost first. -/
  braces : List OpenBrace := []
  pending : Option TypeHead := none
deriving DecidableEq, Repr

namespace Pass

/-- The scope inside the innermost open brace.
Source: `current_scope`. -/
def scope (p : Pass) : Scope.Id :=
  match p.braces with
  | brace :: _ => brace.scope
  | [] => Scope.Tree.root

/-! ## Lines -/

/-- A brace opens: a type declaration that waits for it gets its scope. -/
def openBrace (p : Pass) (span : Span) : Pass :=
  match p.pending with
  | some head =>
    { tree := p.tree.nest p.scope head.kind head.name
      braces := ⟨p.tree.size, span⟩ :: p.braces
      pending := none }
  | none => { p with braces := ⟨p.scope, span⟩ :: p.braces }

/-- One token of a line: only braces matter.
Source: one token of `scan_line`. -/
def stepToken (p : Pass) (t : Token) : Pass × Report :=
  match t.kind with
  | .openBrace => (p.openBrace t.span, {})
  | .closeBrace =>
    match p.braces with
    | _ :: rest => ({ p with braces := rest }, {})
    | [] => (p, ⟨[], [.error .splitting t.span "unmatched `\x7d`"]⟩)
  | _ => (p, {})

/-- The tokens of a line, one after the other. -/
def stepTokens (p : Pass) : List Token → Pass × Report
  | [] => (p, {})
  | t :: ts =>
    let (p, report) := p.stepToken t
    let (p, rest) := p.stepTokens ts
    (p, report ++ rest)

/-- What a line does to a type declaration that waits for its brace: another one takes its place, a
line that begins with a brace leaves it, any other line ends the wait.
Source: the first part of `scan_line`. -/
def announce (p : Pass) (line : List Token) : Pass :=
  match TypeHead.ofLine? line with
  | some head => { p with pending := some head }
  | none =>
    match line with
    | t :: _ => if t.kind = .openBrace then p else { p with pending := none }
    | [] => { p with pending := none }

/-- A line that is no declaration of a function.
Source: `scan_line`. -/
def stepLine (p : Pass) (line : List Token) : Pass × Report :=
  (p.announce line).stepTokens line

/-! ## Declarations -/

/-- The report of a declaration that was accepted: a warning if it hides another one.
Source: the first branch of `compile_declaration`. -/
def accepted (ctx : PassContext) (c : Compiled) : Report :=
  let shadowing := match c.shadows with
    | some earlier =>
      if ctx.warnings then
        [.warning .registration c.nameSpan <|
          "function `" ++ c.name ++ "` shadows the definition on line " ++
            toString (earlier.line ctx.source)]
      else []
    | none => []
  ⟨[c], shadowing⟩

/-- The report of a declaration that was refused.
Source: the second branch of `compile_declaration`. -/
def refused (ctx : PassContext) (f : Fault) : Report :=
  match f.cause with
  | .duplicateFunction _ previous =>
    ⟨[], [.error .registration f.span <|
      f.message ++ "; first defined on line " ++ toString (previous.line ctx.source)]⟩
  | _ => ⟨[], [.error .compiling f.span f.message]⟩

/-- The brace that a declaration leaves open. -/
def bodyBrace? (scope : Scope.Id) (tokens : List Token) : Option OpenBrace :=
  match tokens.getLast? with
  | some t => if t.kind = .openBrace then some ⟨scope, t.span⟩ else none
  | none => none

/-- A declaration of a function. Its body has a scope of its own, also if it is refused.
Source: `compile_declaration`. -/
def stepDeclaration (ctx : PassContext) (p : Pass) (tokens : List Token) : Pass × Report :=
  let (result, tree, chain) := ctx.compiler.compileBelow tokens p.tree p.scope
  let braces := (bodyBrace? chain.current tokens).toList ++ p.braces
  match result with
  | .ok c =>
    (⟨tree.modify chain.current fun s => { s with name := c.name }, braces, none⟩, accepted ctx c)
  | .error fault => (⟨tree, braces, none⟩, refused ctx fault)

/-! ## The whole source -/

/-- Decorators that belong to no function: they are reported at the first token.
Source: the other branch of the loop of `compile_source`. -/
def stray (tokens : List Token) : Report :=
  match tokens with
  | t :: _ =>
    ⟨[], [.error .splitting t.span "decorators must be followed by a function declaration"]⟩
  | [] => {}

/-- One chunk of the source. -/
def step (ctx : PassContext) (p : Pass) : Chunk → Pass × Report
  | .newline _ => (p, {})
  | .declaration tokens => p.stepDeclaration ctx tokens
  | .stray tokens => (p, stray tokens)
  | .line tokens => p.stepLine tokens

/-- The chunks of the source, one after the other.
Source: the loop of `compile_source`. -/
def run (ctx : PassContext) (p : Pass) : List Chunk → Pass × Report
  | [] => (p, {})
  | chunk :: rest =>
    let (p, report) := p.step ctx chunk
    let (p, later) := run ctx p rest
    (p, report ++ later)

/-- The braces that the end of the source leaves open, the innermost first.
Source: `finish`. -/
def unclosed (p : Pass) (stop : Span) : Report :=
  ⟨[], p.braces.map fun brace => .error .splitting (brace.span.merge stop) "unclosed `\x7b`"⟩

end Pass

end FuncDecl
