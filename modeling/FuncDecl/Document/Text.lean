import FuncDecl.Document.Reader

/-!
# Strings

A string stands between double quotes, with escapes, or between single quotes, without.

* `escape`: a character that a backslash introduces.
* `basicString`, `literalString`: strings of one line.
* `multilineBasicString`, `multilineLiteralString`: three quotes enclose a string of several lines.
  Up to two quotes may stand directly before the closing three, and belong to the string.
* `anyString`: a string in any of its forms.
-/

namespace FuncDecl.Document

open Reader

/-- The value of a hexadecimal digit. -/
def hexDigit? (c : Char) : Option Nat :=
  if c.isDigit then some (c.toNat - '0'.toNat)
  else if decide ('a' ≤ c) && decide (c ≤ 'f') then some (c.toNat - 'a'.toNat + 10)
  else if decide ('A' ≤ c) && decide (c ≤ 'F') then some (c.toNat - 'A'.toNat + 10)
  else none

/-- The number that a list of hexadecimal digits writes. -/
def hexValue? (digits : List Char) : Option Nat :=
  digits.foldlM (fun n c => (hexDigit? c).map (16 * n + ·)) 0

/-- A character given by a fixed number of hexadecimal digits. -/
def codePoint (digits : Nat) : Reader Char :=
  fun _ cs =>
    if cs.length < digits then none
    else
      match hexValue? (cs.take digits) with
      | some n => if n.isValidChar then some (Char.ofNat n, cs.drop digits) else none
      | none => none

/-- The characters that a backslash and a letter stand for. -/
def letterEscapes : List (Char × Char) :=
  [('b', '\x08'), ('t', '\t'), ('n', '\n'), ('f', '\x0c'), ('r', '\r'), ('"', '"'), ('\\', '\\')]

/-- An escape. -/
def escape : Reader Char := do
  text "\\"
  let c ← charOf fun _ => true
  if c = 'u' then codePoint 4
  else if c = 'U' then codePoint 8
  else (letterEscapes.lookup c : Option Char)

/-- A backslash at the end of a line, with the blanks and line ends that follow it. -/
def lineEscape : Reader Unit := do
  text "\\"
  spaces
  newline
  let blank : Reader Unit := firstOf [newline, do let _ ← charOf isSpace]
  let _ ← blank.many

/-- A string of one line between double quotes. -/
def basicString : Reader String := do
  text "\""
  let cs ← (firstOf [charOf fun c => isTextChar c && c != '"' && c != '\\', escape]).many
  text "\""
  return String.ofList cs

/-- A string of one line between single quotes. -/
def literalString : Reader String := do
  text "'"
  let cs ← run fun c => isTextChar c && c != '\''
  text "'"
  return String.ofList cs

/-- One or two quotes with no third one behind them. -/
def loneQuotes (quote : Char) : Reader (List Char) :=
  fun _ cs =>
    let quotes := cs.takeWhile (· == quote)
    if quotes.length = 1 ∨ quotes.length = 2 then some (quotes, cs.drop quotes.length) else none

/-- The closing quotes of a string of several lines, and what of them still belongs to it. -/
def closingQuotes (quote : Char) : Reader (List Char) :=
  fun _ cs =>
    let count := (cs.takeWhile (· == quote)).length
    if count < 3 then none
    else
      let inside := min (count - 3) 2
      some (List.replicate inside quote, cs.drop (inside + 3))

/-- The inside of a string of several lines and its closing quotes. -/
def linesUpTo (quote : Char) (piece : Reader (List Char)) : Reader String := do
  let _ ← optional newline
  let parts ← (firstOf [piece, do newline; return ['\n'], loneQuotes quote]).many
  let last ← closingQuotes quote
  return String.ofList (parts.flatten ++ last)

/-- A string of several lines between double quotes. -/
def multilineBasicString : Reader String := do
  text "\"\"\""
  linesUpTo '"' <| firstOf [
    do return [← charOf fun c => isTextChar c && c != '"' && c != '\\'],
    do lineEscape; return [],
    do return [← escape]]

/-- A string of several lines between single quotes. -/
def multilineLiteralString : Reader String := do
  text "'''"
  linesUpTo '\'' do return [← charOf fun c => isTextChar c && c != '\'']

/-- A string in any of its forms. Three quotes always begin a string of several lines. -/
def anyString : Reader String :=
  fun length cs =>
    if "\"\"\"".toList.isPrefixOf cs then multilineBasicString length cs
    else if "'''".toList.isPrefixOf cs then multilineLiteralString length cs
    else firstOf [basicString, literalString] length cs

end FuncDecl.Document
