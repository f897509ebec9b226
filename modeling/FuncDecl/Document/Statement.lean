import FuncDecl.Document.Scalar

/-!
# Reading a document

A document is written in TOML 1.0: a list of statements, which are headers that open tables and keys
with values.

* `key`, `value`: a key with its parts, and a value of a limited depth.
* `Statement`, `statements`: the statements of a text.
* `Draft.step`: carries a statement out. It fails if the statement contradicts an earlier one.
* `read?`: reads the statements of a text and carries them out in order.
-/

namespace FuncDecl.Document

open Reader

/-- How deep values may be nested, and how many parts a key may have. -/
def depthLimit : Nat :=
  79

/-! ## Keys -/

/-- A character of a key without quotes. -/
def isBareKeyChar (c : Char) : Bool :=
  c.isAlphanum || c == '_' || c == '-'

/-- A key without quotes. -/
def bareKey : Reader String := do
  let first ← charOf isBareKeyChar
  let rest ← run isBareKeyChar
  return String.ofList (first :: rest)

/-- One part of a key, with the blanks around it. -/
def keyPart : Reader String := do
  spaces
  let key ← firstOf [basicString, literalString, bareKey]
  spaces
  return key

/-- A key: the parts before the last dot, and the last part. -/
def key : Reader (List String × String) := do
  let first ← keyPart
  let rest ← many do
    text "."
    keyPart
  let parts := first :: rest
  if parts.length > depthLimit then failure
  else return (parts.dropLast, parts.getLastD first)

/-! ## Values -/

/-- The items of an array, up to its closing bracket. A comma may follow the last one. -/
def arrayItems (item : Reader Node) : Reader Node := do
  let spaced : Reader Node := do
    gaps
    let node ← item
    gaps
    return node
  let first ← optional spaced
  let items ← match first with
    | none => pure []
    | some node => do
      let rest ← many do
        text ","
        spaced
      let _ ← optional (text ",")
      pure (node :: rest)
  gaps
  text "]"
  return .array items

/-- The entries of a table between braces, up to the closing one. -/
def inlineEntries (item : Reader Node) : Reader Node := do
  let entry : Reader ((List String × String) × Node) := do
    let key ← key
    text "="
    spaces
    let node ← item
    spaces
    return (key, node)
  let first ← optional entry
  let entries ← match first with
    | none => pure []
    | some e => do
      let rest ← many do
        text ","
        entry
      pure (e :: rest)
  spaces
  text "\x7d"
  let assigned : Option Entries := entries.foldlM
    (fun (acc : Entries) (e : (List String × String) × Node) =>
      acc.assign e.1.1 e.1.2 e.2 .header)
    []
  return .inline (← (assigned : Option Entries))

/-- A value whose nesting is at most the given depth. -/
def value : Nat → Reader Node
  | 0 => firstOf [do return .string (← anyString), scalar]
  | depth + 1 =>
    firstOf [
      do return .string (← anyString),
      do text "["; arrayItems (value depth),
      do text "\x7b"; inlineEntries (value depth),
      scalar]

/-! ## Statements -/

/-- A statement of a document. -/
inductive Statement where
  /-- Open a table. -/
  | header (path : List String) (name : String)
  /-- Open one more table of a name. -/
  | nextHeader (path : List String) (name : String)
  /-- Give a value to a key of the table opened last. -/
  | assign (path : List String) (name : String) (value : Node)

/-- A statement, up to the end of its line. -/
def statement : Reader Statement :=
  fun length cs =>
    match cs with
    | '[' :: '[' :: _ =>
      (do
        text "[["
        let (path, name) ← key
        text "]]"
        lineEnd
        return .nextHeader path name : Reader Statement) length cs
    | '[' :: _ =>
      (do
        text "["
        let (path, name) ← key
        text "]"
        lineEnd
        return .header path name : Reader Statement) length cs
    | _ =>
      (do
        let (path, name) ← key
        text "="
        spaces
        let node ← value depthLimit
        lineEnd
        return .assign path name node : Reader Statement) length cs

/-- The statements of a text. Blank lines and comments may stand between them. -/
def statements : Reader (List Statement) := do
  let _ ← optional (text "\ufeff")
  spaces
  let emptyLine : Reader Unit := firstOf [newline, do comment; firstOf [newline, atEnd]]
  let parts ← many do
    let part ← firstOf [do emptyLine; return none, do return some (← statement)]
    spaces
    return part
  return parts.filterMap id

/-- A document while its statements are carried out: its entries, and the table opened last. -/
structure Draft where
  entries : Entries := []
  opened : List String := []

/-- Carry out a statement. -/
def Draft.step (d : Draft) : Statement → Option Draft
  | .header path name => do
    let entries ← Entries.descend .implied (Entries.openTable name) path .header d.entries
    return ⟨entries, path ++ [name]⟩
  | .nextHeader path name => do
    let entries ← Entries.descend .implied (Entries.openNextTable name) path .header d.entries
    return ⟨entries, path ++ [name]⟩
  | .assign path name node => do
    let change (form : Form) (entries : Entries) : Option Entries :=
      entries.assign path name node form
    let entries ← Entries.descend .implied change d.opened .header d.entries
    return { d with entries }

/-- The entries of a document. -/
def read? (source : String) : Option Entries := do
  let parts ← statements.readWhole source.toList
  let draft ← parts.foldlM Draft.step {}
  return draft.entries

end FuncDecl.Document
