/-!
# Readers

A reader takes what it reads from the front of a text and leaves the rest; it fails where the text
does not have the form it reads.

* `Reader`: such a reader, given the length of the whole text.
* `Reader.firstOf`: what the first reader that can read reads.
* `Reader.many`: all repetition goes through it. It repeats at most as often as the whole text has
  characters; as what is repeated takes at least one character each time, that bound is never what
  ends it.
* `Reader.readWhole`: what a reader makes of a whole text.
* `lineEnd`, `gaps`: what may stand between statements, and between the items of an array.
-/

namespace FuncDecl.Document

/-- A reader of some form of text, given the length of the whole text. -/
abbrev Reader := ReaderT Nat (StateT (List Char) Option)

namespace Reader

variable {α : Type}

/-- The longest run of characters of a class, which may be empty. -/
def run (p : Char → Bool) : Reader (List Char) :=
  fun _ cs => some (cs.takeWhile p, cs.dropWhile p)

/-- One character of a class. -/
def charOf (p : Char → Bool) : Reader Char
  | _, c :: cs => if p c then some (c, cs) else none
  | _, [] => none

/-- A given text. -/
def text (expected : String) : Reader Unit :=
  fun _ cs =>
    let chars := expected.toList
    if chars.isPrefixOf cs then some ((), cs.drop chars.length) else none

/-- What the first reader that can read reads. -/
def firstOf : List (Reader α) → Reader α
  | [] => failure
  | r :: rest =>
    fun length cs =>
      match r length cs with
      | some result => some result
      | none => firstOf rest length cs

/-- Read as often as something can be read, at most `count` times. The results so far are given, the
latest first. -/
def repeated (r : Reader α) (length : Nat) : Nat → List α → List Char → List α × List Char
  | 0, results, cs => (results.reverse, cs)
  | count + 1, results, cs =>
    match r length cs with
    | none => (results.reverse, cs)
    | some (a, rest) => repeated r length count (a :: results) rest

/-- As many as there are. -/
def many (r : Reader α) : Reader (List α) :=
  fun length cs => some (repeated r length length [] cs)

/-- The end of the text. -/
def atEnd : Reader Unit
  | _, [] => some ((), [])
  | _, _ :: _ => none

/-- What the reader makes of a whole text. -/
def readWhole (r : Reader α) (cs : List Char) : Option α :=
  match r cs.length cs with
  | some (a, []) => some a
  | _ => none

end Reader

/-! ## Blanks, line ends and comments -/

/-- A space or a tab. -/
def isSpace (c : Char) : Bool :=
  c == ' ' || c == '\t'

/-- A character that may stand in comments and strings: no control other than the tab. -/
def isTextChar (c : Char) : Bool :=
  c == '\t' || (decide (' ' ≤ c) && c != '\x7f')

/-- Spaces and tabs. -/
def spaces : Reader Unit := do
  let _ ← Reader.run isSpace

/-- A line end, of one or two characters. -/
def newline : Reader Unit :=
  .firstOf [.text "\n", .text "\r\n"]

/-- A comment, up to the end of its line. -/
def comment : Reader Unit := do
  .text "#"
  let _ ← Reader.run isTextChar

/-- What may stand between a statement and the next line. -/
def lineEnd : Reader Unit := do
  spaces
  let _ ← optional comment
  .firstOf [newline, .atEnd]

/-- Blanks, comments and line ends, as they may stand between the items of an array. -/
def gaps : Reader Unit := do
  let line : Reader Unit := do
    spaces
    let _ ← optional comment
    newline
  let _ ← line.many
  spaces

end FuncDecl.Document
