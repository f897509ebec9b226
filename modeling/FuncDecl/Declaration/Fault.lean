import FuncDecl.Text.Span

/-!
# Faults of declarations

A fault is a cause with the place it is about.

* `Flaw`: what is wrong with the shape of a header.
* `Cause`: the tokens do not form a header, a parameter is refused, or the header does not suit the
  scope it stands in.
* `Fault`: a cause with its place.
* `Flaw.message`, `Cause.message`: all the wording.
-/

namespace FuncDecl

/-- What is wrong with the shape of a header. -/
inductive Flaw where
  /-- A parameter has a type or a default value and no name. -/
  | noParameterName
  /-- The token behind the function keyword names no function. -/
  | noFunctionName (found : String)
  /-- Nothing stands behind the arrow. -/
  | noReturnType
  /-- The tokens end behind the parameter list or the return type. -/
  | noBodyMark
  /-- Something other than a brace or a semicolon stands behind the parameter list. -/
  | afterParameters (found : String)
  /-- Something stands behind the brace or semicolon. -/
  | afterHeader (found : String)
deriving DecidableEq, Repr

/-- The wording of a flaw. -/
def Flaw.message : Flaw → String
  | noParameterName => "expected a parameter name"
  | noFunctionName found => "expected a function name, found `" ++ found ++ "`"
  | noReturnType => "expected a return type after `->`"
  | noBodyMark => "expected `\x7b` or `;` after the parameter list"
  | afterParameters found => "unexpected `" ++ found ++ "` after the parameter list"
  | afterHeader found => "unexpected `" ++ found ++ "` after the function header"

/-- Why a declaration is refused.
Source: `FunctionErrorKind`. -/
inductive Cause where
  /-- The tokens end inside the header. -/
  | endOfInput
  /-- Angle brackets do not pair. -/
  | unbalancedGenerics
  /-- Another token stands where the function keyword belongs. -/
  | expectedKeyword (keyword found : String)
  /-- Another token stands where the parameter list begins. -/
  | expectedParameters (found : String)
  /-- The header has the wrong shape. -/
  | malformed (flaw : Flaw)
  /-- The scope has a function of that name, named at `previous`. -/
  | duplicateFunction (name : String) (previous : Span)
  /-- A parameter has no type. -/
  | missingType (parameter : String)
  /-- A parameter has the type without values. -/
  | voidParameter (parameter : String)
  /-- Two parameters have one name. -/
  | duplicateParameter (parameter : String)
  /-- A static function stands outside a class. -/
  | staticOutsideClass (keyword : String)
  /-- Two modifiers exclude each other. -/
  | conflictingModifiers (first second : String)
  /-- An operator is overloaded outside a class. -/
  | operatorOutsideClass (glyph : String)
  /-- A function at the outermost level has no body. -/
  | bodilessGlobal (name : String)
deriving DecidableEq, Repr

/-- The wording of a cause.
Source: the display of `FunctionErrorKind`. -/
def Cause.message : Cause → String
  | endOfInput => "Unexpected end of input"
  | unbalancedGenerics => "Unbalanced generic brackets in parameter list"
  | expectedKeyword keyword found =>
    "Expected the `" ++ keyword ++ "` keyword, found `" ++ found ++ "`"
  | expectedParameters found =>
    "Expected an open parenthesis after the function name, found `" ++ found ++ "`"
  | malformed flaw => "Malformed function header: " ++ flaw.message
  | duplicateFunction name _ => "Function `" ++ name ++ "` is already defined in this scope"
  | missingType parameter => "Expected a colon and a type after parameter `" ++ parameter ++ "`"
  | voidParameter parameter => "The type void is not allowed for parameter `" ++ parameter ++ "`"
  | duplicateParameter parameter => "Parameter `" ++ parameter ++ "` is declared more than once"
  | staticOutsideClass keyword =>
    "The `" ++ keyword ++ "` modifier cannot be used outside a class"
  | conflictingModifiers first second =>
    "The `" ++ first ++ "` and `" ++ second ++ "` modifiers cannot be used together"
  | operatorOutsideClass glyph => "Cannot overload operator `" ++ glyph ++ "` outside a class"
  | bodilessGlobal name =>
    "Function `" ++ name ++ "` has no body; bodiless declarations are only allowed inside a class"

/-- A cause with the place it is about.
Source: `FunctionError`. -/
structure Fault where
  cause : Cause
  span : Span
deriving DecidableEq, Repr

/-- The wording of a fault. -/
def Fault.message (f : Fault) : String :=
  f.cause.message

end FuncDecl
