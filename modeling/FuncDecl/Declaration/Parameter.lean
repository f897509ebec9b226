import FuncDecl.Declaration.Fault
import FuncDecl.Table
import FuncDecl.Token.Basic

/-!
# Parameter lists

A parameter is a name, a colon and a type, and perhaps an equals sign and a default value. Angle
brackets enclose the arguments of a type, so a comma parts two parameters only outside of them;
inside a default value the brackets of groups do the same and angle brackets mean nothing. The
receivers `self`, `cls` and `super` need no type.

* `ParamInfo`, `ParamTable`: what is known of a parameter, and of all of them by name.
* `Draft`: the parameter that is being read. `Draft.commit` checks it and enters it in the table.
* `ParamScan`: the scan of a list as a machine. `ParamScan.step` takes one token.
* `readParams`: runs it up to the closing parenthesis.
-/

namespace FuncDecl

/-- The type and the default value of a parameter.
Source: `VariableInfo`. -/
structure ParamInfo where
  /-- The type as written, up to spacing. -/
  type : String
  generic : Bool
  /-- The default value as written, up to spacing; empty where nothing follows the equals sign. -/
  default : Option String
  /-- Whether a type was written. -/
  annotated : Bool
deriving DecidableEq, Repr

/-- A parameter of the given type without a default value.
Source: `new` of `VariableInfo`. -/
def ParamInfo.ofType (type : String) : ParamInfo where
  type := type
  generic := type.toList.contains '<'
  default := none
  annotated := true

/-- Parameters by name, in the order in which they are written.
Source: `VariableTable`. -/
abbrev ParamTable := Table ParamInfo

/-- The names that a parameter without a type may have.
Source: `UNTYPED_RECEIVERS`. -/
def receivers : List String :=
  ["self", "cls", "super"]

/-! ## One parameter -/

/-- The parameter that is being read. A colon opens its type, an equals sign its default value.
Source: `Pending`. -/
structure Draft where
  name : String := ""
  type : Option String := none
  default : Option String := none
  generic : Bool := false
  /-- From the first to the last token of the parameter. -/
  span : Option Span := none
deriving DecidableEq, Repr

namespace Draft

/-- Whether nothing was written.
Source: `is_empty` of `Pending`. -/
def isBlank (d : Draft) : Bool :=
  d.name == "" && d.type.isNone && d.default.isNone

/-- Take a token into the part that is being read.
Source: `push` of `Pending`. -/
def push (d : Draft) (t : Token) : Draft :=
  let span := some <| match d.span with
    | some s => s.merge t.span
    | none => t.span
  match d.default, d.type with
  | some text, _ => { d with span, default := some (Text.attach .spaced text t.text) }
  | none, some text => { d with span, type := some (Text.attach .tight text t.text) }
  | none, none => { d with span, name := Text.attach .tight d.name t.text }

/-- What the finished parameter says, unless its type is missing or refused. -/
def info (d : Draft) : Except Cause ParamInfo :=
  match d.type with
  | none =>
    if receivers.contains d.name then .ok ⟨"Any", false, d.default, false⟩
    else .error (.missingType d.name)
  | some type =>
    if type = "" then .error (.missingType d.name)
    else if type = "void" then .error (.voidParameter d.name)
    else .ok ⟨type, d.generic, d.default, true⟩

/-- Enter the finished parameter into the table. Nothing is entered where nothing was written, as
behind a last comma. A fault is placed at the parameter, or at the mark that ends it where the
parameter has no token of its own.
Source: `commit` of `Pending`. -/
def commit (d : Draft) (table : ParamTable) (ending : Span) : Except Fault ParamTable :=
  if d.isBlank then .ok table
  else
    let span := d.span.getD ending
    if d.name = "" then .error ⟨.malformed .noParameterName, span⟩
    else
      match d.info with
      | .error cause => .error ⟨cause, span⟩
      | .ok info =>
        if table.contains d.name then .error ⟨.duplicateParameter d.name, span⟩
        else .ok (table.insert d.name info)

end Draft

/-! ## The list -/

/-- How far the scan of a parameter list has come.
Source: the variables of `extract`. -/
structure ParamScan where
  table : ParamTable := .empty
  draft : Draft := {}
  /-- The depth of angle brackets. -/
  angles : Nat := 0
  /-- The depth of groups inside a default value. -/
  groups : Nat := 0
deriving DecidableEq, Repr

namespace ParamScan

/-- What a token does to the scan: it goes on, or it ends with a table or a fault. -/
inductive Outcome where
  | more (scan : ParamScan)
  | done (result : Except Fault ParamTable)

/-- Take a token into the parameter that is being read. -/
def push (s : ParamScan) (t : Token) : ParamScan :=
  { s with draft := s.draft.push t }

/-- A token inside a default value. -/
def stepDefault (s : ParamScan) (t : Token) : ParamScan :=
  { s.push t with groups := t.kind.groupDepth s.groups }

/-- A token in front of a default value. -/
def stepTyped (s : ParamScan) (t : Token) : Outcome :=
  match t.kind with
  | .less =>
    .more { s with angles := s.angles + 1, draft := { s.draft with generic := true }.push t }
  | .greater =>
    if s.angles = 0 then .done (.error ⟨.unbalancedGenerics, t.span⟩)
    else .more { s.push t with angles := s.angles - 1 }
  | .equals =>
    if s.angles = 0 then .more { s with draft := { s.draft with default := some "" } }
    else .more (s.push t)
  | .colon =>
    if s.draft.type.isNone then .more { s with draft := { s.draft with type := some "" } }
    else .more (s.push t)
  | _ => .more (s.push t)

/-- One token of the list.
Source: the loop of `extract`. -/
def step (s : ParamScan) (t : Token) : Outcome :=
  if t.kind = .newline then .more s
  else if t.kind = .comma ∧ s.angles = 0 ∧ s.groups = 0 then
    match s.draft.commit s.table t.span with
    | .ok table => .more { s with table, draft := {} }
    | .error fault => .done (.error fault)
  else if t.kind = .closeParen ∧ s.groups = 0 then
    if s.angles = 0 then .done (s.draft.commit s.table t.span)
    else .done (.error ⟨.unbalancedGenerics, t.span⟩)
  else if s.draft.default.isSome then .more (s.stepDefault t)
  else s.stepTyped t

/-- Run the scan. Besides the result it gives the tokens behind the one that ended it; where the
tokens run out, the fault is placed at `stop`. -/
def run (stop : Span) (s : ParamScan) : List Token → Except Fault ParamTable × List Token
  | [] => (.error ⟨.endOfInput, stop⟩, [])
  | t :: ts =>
    match s.step t with
    | .more s' => run stop s' ts
    | .done result => (result, ts)

end ParamScan

/-- The parameters up to the closing parenthesis, and the tokens behind it. The tokens start behind
the opening one; `stop` is the place to report if they run out.
Source: `extract`. -/
def readParams (stop : Span) (ts : List Token) : Except Fault ParamTable × List Token :=
  ParamScan.run stop {} ts

end FuncDecl
