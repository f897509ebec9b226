import FuncDecl.Text.Span

/-!
# Diagnostics

A diagnostic is a message about a place in a source text.

* `Severity`, `Phase`: how severe the matter is, and in which part of the work it came up.
* `Diagnostic`: the message with its place.
* `Severity.heading`, `Phase.color`: the heading and the colour by which a report shows it.
-/

namespace FuncDecl

/-- How severe a matter is.
Source: `DiagnosticSeverity`. -/
inductive Severity where
  | error
  | warning
  | info
deriving DecidableEq, Repr

/-- The part of the work in which a matter came up.
Source: `CompilationPhase`. -/
inductive Phase where
  | lexing
  | splitting
  | compiling
  | registration
deriving DecidableEq, Repr

/-- A message about a place in a source text.
Source: `Diagnostic`. -/
structure Diagnostic where
  message : String
  span : Span
  severity : Severity
  phase : Phase
deriving DecidableEq, Repr

namespace Diagnostic

/-- An error.
Source: `error` of `Diagnostic`. -/
def error (phase : Phase) (span : Span) (message : String) : Diagnostic :=
  ⟨message, span, .error, phase⟩

/-- A warning.
Source: `warning` of `Diagnostic`. -/
def warning (phase : Phase) (span : Span) (message : String) : Diagnostic :=
  ⟨message, span, .warning, phase⟩

/-- Whether the matter keeps the source from being clean.
Source: `is_error`. -/
def isError (d : Diagnostic) : Bool :=
  d.severity == .error

end Diagnostic

/-- The heading under which a report shows a matter.
Source: `report_kind`. -/
def Severity.heading : Severity → String
  | error => "Error"
  | warning => "Warning"
  | info => "Advice"

/-- The colour in which a report marks the place of a matter. -/
inductive Color where
  | red
  | magenta
  | yellow
  | cyan
deriving DecidableEq, Repr

/-- The colour of a part of the work.
Source: `phase_color`. -/
def Phase.color : Phase → Color
  | lexing => .red
  | splitting => .magenta
  | compiling => .yellow
  | registration => .cyan

end FuncDecl
