import FuncDecl.Text.CharClass

/-!
# Words

Names are runs of letters, numerals and underscores. Text that is put together from tokens keeps
neighbouring words apart by one space, and puts a space after a comma where the text is an argument
list.

* `isNameStart`, `isNameChar`: the characters of names.
* `isWordChar`: the characters that would run together.
* `attach`: puts the text of one more token behind what is already written.
-/

namespace FuncDecl.Text

/-- A character that a name may begin with. -/
def isNameStart (c : Char) : Bool :=
  isLetter c || c == '_'

/-- A character that a name may go on with.
Source: `is_ident_char`. -/
def isNameChar (c : Char) : Bool :=
  isLetter c || isNumeral c || c == '_'

/-- A character of a name or a quotation mark: two of them in a row would run together.
Source: `is_word`. -/
def isWordChar (c : Char) : Bool :=
  isNameChar c || c == '"' || c == '\''

/-- Whether a comma is followed by a space. -/
inductive CommaStyle where
  /-- `Map<K,V>`: types stay tight. -/
  | tight
  /-- `route(path, method)`: arguments and default values are spaced. -/
  | spaced
deriving DecidableEq, Repr

/-- Whether a space goes between the last character written and the first one to come. -/
def wantsSpace (style : CommaStyle) : Option Char → Option Char → Bool
  | some last, some first =>
    if last = ',' then style = .spaced else isWordChar last && isWordChar first
  | _, _ => false

/-- Put the text of one more token behind what is already written.
Source: `append_token`. -/
def attach (style : CommaStyle) (written text : String) : String :=
  if wantsSpace style written.back? text.toList.head? then
    written ++ " " ++ text
  else
    written ++ text

/-- How two texts are joined depends only on the last character of the one and the first of the
other. -/
theorem attach_eq (style : CommaStyle) (written text : String) :
    attach style written text =
      if wantsSpace style written.toList.getLast? text.toList.head? then written ++ " " ++ text
      else written ++ text := by
  rw [attach, String.back?_eq]

end FuncDecl.Text
