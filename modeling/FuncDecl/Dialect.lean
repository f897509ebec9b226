import FuncDecl.Table
import FuncDecl.Token.Basic

/-!
# Dialects

A declaration is introduced by the function keyword, with modifiers in front of it. A project may
spell all of them in its own way.

* `Modifier`: the six modifiers.
* `Keywords`: the spelling of each keyword. `Keywords.reading` is the table by which the spellings
  of modifiers are read back.
* `Dialect`: what declarations are read by. It may leave some modifiers out.
-/

namespace FuncDecl

/-! ## Modifiers -/

/-- What may be said of a function in front of its keyword.
Source: `Modifier`. -/
inductive Modifier where
  | async
  /-- Spelled `private` unless the project chooses otherwise. -/
  | priv
  /-- Spelled `protected` unless the project chooses otherwise. -/
  | prot
  | final
  /-- Spelled `unsafe` unless the project chooses otherwise: the function may replace an earlier
  one of its name. -/
  | unchecked
  | static
deriving DecidableEq, Repr

namespace Modifier

/-- Every modifier, in the order in which spellings are entered.
Source: `ALL` of `Modifier`. -/
def all : List Modifier :=
  [async, priv, prot, final, unchecked, static]

/-- The name of a modifier, which is also its spelling unless the project chooses otherwise.
Source: `default_keyword`. -/
def name : Modifier → String
  | async => "async"
  | priv => "private"
  | prot => "protected"
  | final => "final"
  | unchecked => "unsafe"
  | static => "static"

/-- The modifier with the given name. -/
def ofName? (name : String) : Option Modifier :=
  all.find? fun m => m.name == name

end Modifier

/-- Spellings of modifiers, each with the modifier it stands for.
Source: `RecognizedModifiers`. -/
abbrev ModifierTable := Table Modifier

/-! ## Spellings -/

/-- The spellings of the seven keywords.
Source: `KeywordTable`. -/
structure Keywords where
  function : String := "fn"
  async : String := Modifier.async.name
  priv : String := Modifier.priv.name
  prot : String := Modifier.prot.name
  final : String := Modifier.final.name
  unchecked : String := Modifier.unchecked.name
  static : String := Modifier.static.name
deriving DecidableEq, Repr

instance : Inhabited Keywords :=
  ⟨{}⟩

namespace Keywords

/-- The spelling of a modifier.
Source: `modifier_keyword`. -/
def spelling (k : Keywords) : Modifier → String
  | .async => k.async
  | .priv => k.priv
  | .prot => k.prot
  | .final => k.final
  | .unchecked => k.unchecked
  | .static => k.static

/-- The table that reads back the spellings of the given modifiers. Where two share a spelling it
stands for the later one.
Source: `recognized_subset`. -/
def readingOf (k : Keywords) (modifiers : List Modifier) : ModifierTable :=
  Table.ofList (modifiers.map fun m => (k.spelling m, m))

/-- The table that reads back the spellings of all modifiers.
Source: `recognized_modifiers`. -/
def reading (k : Keywords) : ModifierTable :=
  k.readingOf Modifier.all

end Keywords

/-! ## What declarations are read by -/

/-- The spellings of the keywords, and the table by which modifiers are read.
Source: `Splitter`. -/
structure Dialect where
  keywords : Keywords
  modifiers : ModifierTable
deriving DecidableEq, Repr

namespace Dialect

/-- The dialect in which every modifier is read. -/
def ofKeywords (k : Keywords) : Dialect :=
  ⟨k, k.reading⟩

/-- Whether the token is the function keyword.
Source: `is_function_keyword`. -/
def isFunctionKeyword (d : Dialect) (t : Token) : Bool :=
  t.isName d.keywords.function

/-- Whether the token is a name that spells a modifier. -/
def isModifier (d : Dialect) (t : Token) : Bool :=
  t.kind == .ident && d.modifiers.contains t.text

end Dialect

end FuncDecl
