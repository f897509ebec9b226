import FuncDecl.Declaration.Header
import FuncDecl.Emission
import FuncDecl.Scope.Tree

/-!
# Compiling a declaration

A declaration is read, checked against the scope it is to be registered in, registered, and printed.
All checks come before the first change, so a declaration that is refused leaves the scopes as they
were.

* `Header.objection?`: the first of the checks that speaks against a header. Each check is a
  definition of its own.
* `Header.pieces`: what is printed of a header.
* `Compiled`: a declaration that was accepted.
* `Compiler.judge`: reads and checks a declaration.
* `Compiler.register`: enters a function in its scope, and its parameters in that of its body.
* `Compiler.compile`: all of this, against the scopes of a chain.
* `Compiler.compileBelow`: the same, with a new scope for the body.
-/

namespace FuncDecl

/-! ## Checks -/

namespace Header

/-- An operator may only be overloaded inside a class. -/
def operatorOutsideClass? (h : Header) (parent : Scope) : Option Fault :=
  match h.name.glyph with
  | some glyph =>
    if parent.kind.hasMethods then none else some ⟨.operatorOutsideClass glyph, h.name.span⟩
  | none => none

/-- A static function may only stand inside a class. -/
def staticOutsideClass? (h : Header) (k : Keywords) (parent : Scope) : Option Fault :=
  if h.flags.static && !parent.kind.hasMethods then
    some ⟨.staticOutsideClass k.static, h.lead⟩
  else none

/-- A private function is not static. -/
def privateStatic? (h : Header) (k : Keywords) : Option Fault :=
  if h.flags.priv && h.flags.static then
    some ⟨.conflictingModifiers k.priv k.static, h.lead⟩
  else none

/-- An asynchronous function does not replace another one. -/
def asyncUnchecked? (h : Header) (k : Keywords) : Option Fault :=
  if h.flags.async && h.flags.unchecked then
    some ⟨.conflictingModifiers k.async k.unchecked, h.lead⟩
  else none

/-- A function at the outermost level has a body. -/
def bodilessGlobal? (h : Header) (parent : Scope) : Option Fault :=
  if h.ending = .bodiless ∧ parent.indent = 0 then some ⟨.bodilessGlobal h.name.text, h.name.span⟩
  else none

/-- A name that the scope has already may only be given again by an unchecked function. -/
def duplicate? (h : Header) (parent : Scope) : Option Fault :=
  match parent.functions.find? h.name.text with
  | some previous =>
    if h.flags.unchecked then none
    else some ⟨.duplicateFunction h.name.text previous.span, h.name.span⟩
  | none => none

/-- What speaks against the header in the scope it is to be registered in: the first objection.
Source: the checks of `compile`. -/
def objection? (h : Header) (k : Keywords) (parent : Scope) : Option Fault :=
  [h.operatorOutsideClass? parent, h.staticOutsideClass? k parent, h.privateStatic? k,
    h.asyncUnchecked? k, h.bodilessGlobal? parent, h.duplicate? parent].findSome? id

/-- What is registered of the header.
Source: the entry that `compile` registers. -/
def signature (h : Header) : Signature :=
  ⟨h.params, h.returnType, h.flags, h.name.span⟩

/-- What is printed of the header inside a scope.
Source: the emission of `compile`. -/
def pieces (h : Header) (parent : Scope) : List Piece :=
  h.decorators.map (Piece.decorator ·.text) ++
    (if h.flags.final then [.decorator "final"] else []) ++
    (if parent.kind.hasAbstractMethods then [.decorator "abstractmethod"] else []) ++
    (if h.flags.static then [.keyword "static"] else []) ++
    (if h.flags.async then [.keyword "async"] else []) ++
    [.name h.name.text, .params (EmitParam.ofTable h.params)] ++
    (h.returnType.map Piece.returnType).toList ++
    [.colon] ++
    (if h.ending = .bodiless then [.stub] else [])

end Header

/-! ## Results -/

/-- A declaration that was accepted.
Source: `CompiledFunction`. -/
structure Compiled where
  /-- The name under which the function is registered. -/
  name : String
  nameSpan : Span
  /-- The printed declaration. -/
  output : String
  params : ParamTable
  returnType : Option String
  /-- The modifiers as written. -/
  modifiers : List Modifier
  decorators : List Decorator
  ending : HeaderEnd
  /-- The place of the nearest definition of the same name around the scope. -/
  shadows : Option Span
deriving DecidableEq, Repr

/-- One level of indentation where a project does not choose its own.
Source: `DEFAULT_INDENT`. -/
def defaultIndent : String :=
  "    "

/-- What the compiler of declarations goes by.
Source: `FunctionCompiler`. -/
structure Compiler where
  dialect : Dialect
  /-- One level of indentation in printed text. -/
  indent : String := defaultIndent
deriving DecidableEq, Repr

namespace Compiler

/-- The compiler for the declarations of a file.
Source: `new` and `with_indent_unit` of `FunctionCompiler`. -/
def ofTree (tree : Scope.Tree) (indent : String) : Compiler :=
  ⟨.ofKeywords tree.keywords, indent⟩

/-- The compiler that reads modifiers by another table.
Source: `with_recognized_modifiers`. -/
def reading (c : Compiler) (modifiers : ModifierTable) : Compiler :=
  { c with dialect := { c.dialect with modifiers } }

/-- The definition that a function of this name hides when it is registered in the scope.
Source: the search for `shadows` in `compile`. -/
def shadowed? (tree : Scope.Tree) (parent : Scope) (name : String) : Option Span :=
  match parent.parent with
  | some outer => (tree.nearest? name outer).map (·.2.span)
  | none => none

/-- Print a header inside a scope. -/
def emit (c : Compiler) (h : Header) (parent : Scope) : String :=
  (⟨c.indent, parent.indent, h.pieces parent⟩ : Emission).text

/-- What a declaration becomes in a scope of the tree, unless it is refused.
Source: `compile` up to `register`. -/
def judge (c : Compiler) (ts : List Token) (tree : Scope.Tree) (parent : Scope) :
    Except Fault (Header × Compiled) :=
  match Header.read c.dialect ts with
  | .error fault => .error fault
  | .ok h =>
    match h.objection? c.dialect.keywords parent with
    | some fault => .error fault
    | none =>
      .ok (h, {
        name := h.name.text
        nameSpan := h.name.span
        output := c.emit h parent
        params := h.params
        returnType := h.returnType
        modifiers := h.modifiers
        decorators := h.decorators
        ending := h.ending
        shadows := shadowed? tree parent h.name.text })

/-- Register a function in its scope, and its parameters in the scope of its body.
Source: `register`. -/
def register (tree : Scope.Tree) (chain : Chain) (name : String) (signature : Signature) :
    Scope.Tree :=
  let locals := signature.params.entries.map fun (param, info) => (param, info.type)
  (tree.modify chain.current fun s => { s with bindings := s.bindings.insertAll locals }).modify
    chain.parent fun s => { s with functions := s.functions.insert name signature }

/-- Compile the declaration that a list of tokens makes up. The tree changes only if it is
accepted.
Source: `compile`. -/
def compile (c : Compiler) (ts : List Token) (tree : Scope.Tree) (chain : Chain) :
    Except Fault Compiled × Scope.Tree :=
  match c.judge ts tree (tree.get chain.parent) with
  | .error fault => (.error fault, tree)
  | .ok (h, compiled) => (.ok compiled, register tree chain h.name.text h.signature)

/-- Open a scope for the body of a function below `parent` and compile the declaration there. The
scope stays even if the declaration is refused.
Source: `push_child` and `compile`, as `compile_declaration` calls them. -/
def compileBelow (c : Compiler) (ts : List Token) (tree : Scope.Tree) (parent : Scope.Id) :
    Except Fault Compiled × Scope.Tree × Chain :=
  let opened := tree.nest parent .function ""
  let chain := opened.chainOf tree.size
  let (result, tree) := c.compile ts opened chain
  (result, tree, chain)

end Compiler

end FuncDecl
