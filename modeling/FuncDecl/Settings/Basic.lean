import FuncDecl.Dialect

/-!
# Settings

A project chooses how printed text is indented, whether warnings are reported, and how keywords are
spelled. All choices have a default. A spelling that is given counts as a choice even if it is the
default one.

* `FormatSettings`, `ReportSettings`, `KeywordSettings`: the three sections.
* `Settings`: all choices of a project.
* `Settings.indent`, `Settings.spellings`: what they mean for the indentation and the keywords.
-/

namespace FuncDecl

/-- How printed text is indented.
Source: `FormatterConfig`. -/
structure FormatSettings where
  indentSize : Nat := 4
  useTabs : Bool := false
deriving DecidableEq, Repr, Inhabited

/-- What is reported.
Source: `TranspilerConfig`. -/
structure ReportSettings where
  warnings : Bool := true
deriving DecidableEq, Repr, Inhabited

/-- The spellings that are given for keywords.
Source: `KeywordConfig`. -/
structure KeywordSettings where
  function : Option String := none
  async : Option String := none
  static : Option String := none
  unchecked : Option String := none
  priv : Option String := none
  prot : Option String := none
  final : Option String := none
deriving DecidableEq, Repr, Inhabited

/-- The choices of a project.
Source: `HelixConfig`. -/
structure Settings where
  format : FormatSettings := {}
  report : ReportSettings := {}
  keywords : KeywordSettings := {}
deriving DecidableEq, Repr, Inhabited

namespace Settings

/-- Whether every choice is left at its default. -/
def isDefault (s : Settings) : Bool :=
  s == {}

/-- One level of indentation.
Source: `indent_unit`. -/
def indent (s : Settings) : String :=
  if s.format.useTabs then "\t" else String.ofList (List.replicate s.format.indentSize ' ')

/-- The spellings of the keywords.
Source: `keyword_table`. -/
def spellings (s : Settings) : Keywords where
  function := s.keywords.function.getD "fn"
  async := s.keywords.async.getD Modifier.async.name
  priv := s.keywords.priv.getD Modifier.priv.name
  prot := s.keywords.prot.getD Modifier.prot.name
  final := s.keywords.final.getD Modifier.final.name
  unchecked := s.keywords.unchecked.getD Modifier.unchecked.name
  static := s.keywords.static.getD Modifier.static.name

end Settings

end FuncDecl
