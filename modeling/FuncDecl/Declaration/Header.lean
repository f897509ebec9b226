import FuncDecl.Declaration.Decorator
import FuncDecl.Declaration.Flags
import FuncDecl.Declaration.Parameter

/-!
# Headers

The header of a declaration is what its tokens say: decorators, modifiers, the function keyword, a
name, parameters, perhaps a return type, and a mark that tells whether a body follows. Whether the
header suits the scope it stands in is not decided here.

* `FunctionName`: a name as it is written, or the method that an operator stands for.
* `TypeScan`: the scan of a return type.
* `readKeyword`, `readName`, `readParamList`, `readReturnType`, `readHeaderEnd`: the readers of the
  parts.
* `Header.read`: accepts a list of tokens that is exactly one header.
-/

namespace FuncDecl

/-- How a header ends.
Source: `BodyMarker`. -/
inductive HeaderEnd where
  /-- An opening brace: a body follows. -/
  | body
  /-- A semicolon: there is no body. -/
  | bodiless
deriving DecidableEq, Repr

/-! ## The name -/

/-- The operators that a method may overload, each with the name of the method.
Source: `OPERATOR_METHODS`. -/
def operatorMethods : List (String × String) :=
  [("==", "__eq__"), ("!=", "__ne__"), ("<", "__lt__"), ("<=", "__le__"), (">", "__gt__"),
    (">=", "__ge__"), ("+", "__add__"), ("-", "__sub__"), ("*", "__mul__"), ("/", "__truediv__"),
    ("//", "__floordiv__"), ("%", "__mod__"), ("**", "__pow__"), ("&", "__and__"),
    ("|", "__or__"), ("^", "__xor__"), ("~", "__invert__"), ("@", "__matmul__")]

/-- The name that a declaration gives to its function. -/
structure FunctionName where
  /-- The name under which the function is registered. -/
  text : String
  span : Span
  /-- The operator that was written in place of a name. -/
  glyph : Option String
deriving DecidableEq, Repr

/-- The name that a token gives: an identifier is taken as it is, an operator by its method.
Source: `operator_method`, and the reading of a name in `compile`. -/
def FunctionName.ofToken? (t : Token) : Option FunctionName :=
  if t.kind = .ident then some ⟨t.text, t.span, none⟩
  else (operatorMethods.lookup t.text).map fun method => ⟨method, t.span, some t.text⟩

/-! ## The return type -/

/-- Whether a token of this kind ends a type that stands outside angle brackets. -/
def Token.Kind.endsType : Token.Kind → Bool
  | openBrace | semicolon | newline => true
  | _ => false

/-- A type that is being read: its text so far, the depth of angle brackets, and the span from the
arrow on.
Source: the variables of `return_type`. -/
structure TypeScan where
  text : String
  angles : Nat
  span : Span
deriving DecidableEq, Repr

namespace TypeScan

/-- Take a token into the type. -/
def push (s : TypeScan) (t : Token) : TypeScan :=
  { s with text := Text.attach .tight s.text t.text, span := s.span.merge t.span }

/-- The finished type: its angle brackets pair and it is not empty. -/
def finish (arrow : Span) (s : TypeScan) : Except Fault String :=
  if s.angles ≠ 0 then .error ⟨.unbalancedGenerics, s.span⟩
  else if s.text = "" then .error ⟨.malformed .noReturnType, arrow⟩
  else .ok s.text

/-- Read on to the end of the type. Line ends count only outside angle brackets.
Source: `return_type`. -/
def run (arrow : Span) (s : TypeScan) : List Token → Except Fault (String × List Token)
  | [] => (s.finish arrow).map (·, [])
  | t :: ts =>
    if s.angles = 0 ∧ t.kind.endsType then (s.finish arrow).map (·, t :: ts)
    else
      match t.kind with
      | .newline => run arrow s ts
      | .less => run arrow { s.push t with angles := s.angles + 1 } ts
      | .greater =>
        if s.angles = 0 then .error ⟨.unbalancedGenerics, t.span⟩
        else run arrow { s.push t with angles := s.angles - 1 } ts
      | _ => run arrow (s.push t) ts

end TypeScan

/-! ## The parts of a header

Each reader takes the tokens from its part on and gives the tokens behind it. The span `stop` is the
place to report where the tokens run out. -/

/-- The function keyword: its span.
Source: the keyword in `compile`. -/
def readKeyword (d : Dialect) (stop : Span) : List Token → Except Fault (Span × List Token)
  | [] => .error ⟨.endOfInput, stop⟩
  | t :: ts =>
    if d.isFunctionKeyword t then .ok (t.span, ts)
    else .error ⟨.expectedKeyword d.keywords.function t.text, t.span⟩

/-- The name of the function.
Source: the name in `compile`. -/
def readName (stop : Span) : List Token → Except Fault (FunctionName × List Token)
  | [] => .error ⟨.endOfInput, stop⟩
  | t :: ts =>
    match FunctionName.ofToken? t with
    | some name => .ok (name, ts)
    | none => .error ⟨.malformed (.noFunctionName t.text), t.span⟩

/-- The parameters with their parentheses.
Source: the parenthesis and `extract` in `compile`. -/
def readParamList (stop : Span) : List Token → Except Fault (ParamTable × List Token)
  | [] => .error ⟨.endOfInput, stop⟩
  | t :: ts =>
    if t.kind = .openParen then
      match readParams stop ts with
      | (.ok params, rest) => .ok (params, rest)
      | (.error fault, _) => .error fault
    else .error ⟨.expectedParameters t.text, t.span⟩

/-- The return type, if an arrow stands directly behind the parameters.
Source: the arrow in `compile`. -/
def readReturnType : List Token → Except Fault (Option String × List Token)
  | [] => .ok (none, [])
  | t :: ts =>
    if t.kind = .arrow then
      (TypeScan.run t.span ⟨"", 0, t.span⟩ ts).map fun (type, rest) => (some type, rest)
    else .ok (none, t :: ts)

/-- How a header ends by a mark of this kind. -/
def HeaderEnd.ofKind? : Token.Kind → Option HeaderEnd
  | .openBrace => some .body
  | .semicolon => some .bodiless
  | _ => none

/-- The mark that ends the header, behind which only line ends may stand.
Source: `body_marker`. -/
def readHeaderEnd (stop : Span) (ts : List Token) : Except Fault HeaderEnd :=
  match skipNewlines ts with
  | [] => .error ⟨.malformed .noBodyMark, stop⟩
  | t :: rest =>
    match HeaderEnd.ofKind? t.kind with
    | none => .error ⟨.malformed (.afterParameters t.text), t.span⟩
    | some ending =>
      match skipNewlines rest with
      | [] => .ok ending
      | extra :: _ => .error ⟨.malformed (.afterHeader extra.text), extra.span⟩

/-! ## The header -/

/-- What the tokens of a declaration say. -/
structure Header where
  decorators : List Decorator
  /-- The modifiers as written. -/
  modifiers : List Modifier
  /-- From the first modifier to the function keyword. -/
  lead : Span
  name : FunctionName
  params : ParamTable
  returnType : Option String
  ending : HeaderEnd
deriving DecidableEq, Repr

namespace Header

/-- Read a list of tokens that is one header.
Source: `compile` up to its checks. -/
def read (d : Dialect) (ts : List Token) : Except Fault Header :=
  let stop := endSpan ts
  let (decorators, ts) := Decorator.readAll (skipNewlines ts)
  let first := match ts with
    | t :: _ => t.span
    | [] => stop
  let (modifiers, ts) := readModifiers d.modifiers ts
  do
    let (keyword, ts) ← readKeyword d stop ts
    let (name, ts) ← readName stop ts
    let (params, ts) ← readParamList stop ts
    let (returnType, ts) ← readReturnType ts
    let ending ← readHeaderEnd stop ts
    return ⟨decorators, modifiers, first.merge keyword, name, params, returnType, ending⟩

/-- Which modifiers the header has. -/
def flags (h : Header) : Flags :=
  Flags.ofModifiers h.modifiers

end Header

end FuncDecl
