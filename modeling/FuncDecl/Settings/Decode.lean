import FuncDecl.Settings.Basic
import FuncDecl.Document.Statement

/-!
# Reading settings

Settings are written as a document with the sections `formatter`, `transpiler` and `keywords`. What
is missing keeps its default and what is not known is passed over; a value of the wrong kind makes
the document invalid.

* `Settings.fields`: the fields of a section by name. A section may also be written as an array that
  gives its fields in order.
* `Settings.decodeFormat`, `Settings.decodeReport`, `Settings.decodeKeywords`: the three sections.
* `Settings.ofEntries?`: the settings that a document holds.
* `Settings.read?`: the settings that a text writes.
-/

namespace FuncDecl

open Document (Node Entries)

namespace Settings

/-! ## Fields -/

/-- A number that is not negative. -/
def natural? : Node → Option Nat
  | .integer (.ofNat n) => some n
  | _ => none

/-- A truth value. -/
def truth? : Node → Option Bool
  | .bool b => some b
  | _ => none

/-- A text. -/
def text? : Node → Option String
  | .string s => some s
  | _ => none

/-- A field that may be missing; one that is there must be of the right kind. -/
def fieldOr {α : Type} (fallback : α) (decode : Node → Option α) : Option Node → Option α
  | some node => decode node
  | none => some fallback

/-- The fields of a section by name. An array gives them in the order of the names. A date holds
none of them; any other value is no section. -/
def fields (names : List String) : Node → Option (String → Option Node)
  | .table _ entries | .inline entries => some fun name => entries.lookup name
  | .array items => some fun name => (names.zip items).lookup name
  | .tables latest earlier =>
    let items := (latest :: earlier).reverse.map Node.inline
    some fun name => (names.zip items).lookup name
  | .datetime => some fun _ => none
  | _ => none

/-- A section that may be missing. -/
def sectionOr {α : Type} (fallback : α) (names : List String)
    (decode : (String → Option Node) → Option α) : Option Node → Option α
  | some node => fields names node >>= decode
  | none => some fallback

/-! ## Sections -/

/-- The section on the format of printed text. -/
def decodeFormat : Option Node → Option FormatSettings :=
  sectionOr {} ["indent_size", "use_tabs"] fun field => do
    let indentSize ← fieldOr 4 natural? (field "indent_size")
    let useTabs ← fieldOr false truth? (field "use_tabs")
    return { indentSize, useTabs }

/-- The section on what is reported. -/
def decodeReport : Option Node → Option ReportSettings :=
  sectionOr {} ["warnings"] fun field => do
    let warnings ← fieldOr true truth? (field "warnings")
    return { warnings }

/-- The section on the spelling of keywords. -/
def decodeKeywords : Option Node → Option KeywordSettings :=
  sectionOr {} ["function", "async", "static", "unsafe", "private", "protected", "final"]
    fun field => do
      let spelling (name : String) : Option (Option String) :=
        fieldOr none (fun node => (text? node).map some) (field name)
      return {
        function := ← spelling "function"
        async := ← spelling "async"
        static := ← spelling "static"
        unchecked := ← spelling "unsafe"
        priv := ← spelling "private"
        prot := ← spelling "protected"
        final := ← spelling "final" }

/-- The settings that a document holds. -/
def ofEntries? (entries : Entries) : Option Settings := do
  let format ← decodeFormat (entries.lookup "formatter")
  let report ← decodeReport (entries.lookup "transpiler")
  let keywords ← decodeKeywords (entries.lookup "keywords")
  return { format, report, keywords }

/-- The settings that a text writes, unless it is no valid document of settings.
Source: `from_toml`. -/
def read? (source : String) : Option Settings :=
  Document.read? source >>= ofEntries?

end Settings

end FuncDecl
