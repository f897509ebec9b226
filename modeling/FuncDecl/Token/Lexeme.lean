import FuncDecl.Token.Basic

/-!
# Cutting a text into tokens

A text is cut from its front. Every lexeme takes at least one character, so the work ends.

* `Text.charLiteral`: a character as a message quotes it.
* `LexFault`: why a text cannot be cut, and where.
* `Lexeme.next`: what stands at the front of a text: blanks and comments, which are dropped, a
  token, or something that is neither.
* `Token.scan`: repeats this to the end of the text or to the first fault.
-/

namespace FuncDecl

/-! ## Character literals -/

namespace Text

/-- The escape that names a character by its code point. -/
def codePointEscape (c : Char) : String :=
  "\\u\x7b" ++ String.ofList (Nat.toDigits 16 c.toNat) ++ "\x7d"

/-- A character as it stands inside a literal. -/
def escaped (c : Char) : String :=
  if c = '\x00' then "\\0"
  else if c = '\t' then "\\t"
  else if c = '\r' then "\\r"
  else if c = '\n' then "\\n"
  else if c = '\'' then "\\'"
  else if c = '\\' then "\\\\"
  else if isExtender c || isHidden c then codePointEscape c
  else String.singleton c

/-- A character between single quotes. -/
def charLiteral (c : Char) : String :=
  "'" ++ escaped c ++ "'"

end Text

/-! ## Faults -/

/-- Why a text cannot be cut into tokens.
Source: `LexError`. -/
inductive LexCause where
  /-- The line or the text ends before the closing quotation mark. -/
  | unterminatedString
  /-- The character begins no token. -/
  | unexpectedCharacter (c : Char)
deriving DecidableEq, Repr

/-- A fault in a text with its place. -/
structure LexFault where
  cause : LexCause
  span : Span
deriving DecidableEq, Repr

/-- The wording of a fault. -/
def LexFault.message (e : LexFault) : String :=
  match e.cause with
  | .unterminatedString => "unterminated string literal"
  | .unexpectedCharacter c => "unexpected character " ++ Text.charLiteral c

/-! ## Marks -/

/-- The marks of two characters.
Source: the arrow and `TWO_CHAR_OPERATORS`. -/
def pairMarks : List ((Char × Char) × Token.Kind) :=
  [(('-', '>'), .arrow), (('=', '='), .operator), (('!', '='), .operator), (('<', '='), .operator),
    (('>', '='), .operator), (('*', '*'), .operator), (('/', '/'), .operator)]

/-- The marks of one character.
Source: the last match of `glyph`. -/
def singleMarks : List (Char × Token.Kind) :=
  [(',', .comma), ('(', .openParen), (')', .closeParen), ('<', .less), ('>', .greater),
    ('=', .equals), (':', .colon), ('@', .atSign), ('\x7b', .openBrace), ('\x7d', .closeBrace),
    ('[', .openBracket), (']', .closeBracket), (';', .semicolon), ('+', .operator),
    ('-', .operator), ('*', .operator), ('/', .operator), ('%', .operator), ('&', .operator),
    ('|', .operator), ('^', .operator), ('~', .operator), ('!', .operator), ('.', .operator),
    ('?', .operator)]

/-! ## The piece at the front of a text -/

/-- A character that a number goes on with: numbers are not read any further. -/
def isNumberChar (c : Char) : Bool :=
  c.isAlphanum || c == '.' || c == '_'

/-- A character that does not end the line. -/
def isInLine (c : Char) : Bool :=
  c != '\n'

/-- The text of a string up to its closing quotation mark, and what follows it. A backslash takes
away the meaning of the next character; a string does not reach past its line.
Source: `string`. -/
def closeString (quote : Char) (escaped : Bool) : List Char → Option (List Char × List Char)
  | [] => none
  | c :: cs =>
    if c = '\n' then none
    else if !escaped && c == quote then some ([c], cs)
    else
      match closeString quote (!escaped && c == '\\') cs with
      | some (body, rest) => some (c :: body, rest)
      | none => none

/-- What stands at the front of a text. -/
inductive Lexeme where
  /-- Blanks or a comment, and the text behind them. -/
  | skipped (text rest : List Char)
  /-- A token, and the text behind it. -/
  | token (kind : Token.Kind) (text rest : List Char)
  /-- A string that its line does not close. -/
  | openString (text : List Char)
  /-- A character that begins no token. -/
  | stray (c : Char)
deriving DecidableEq, Repr

namespace Lexeme

/-- The mark of one character at the front of a text. -/
def singleMark (c : Char) (cs : List Char) : Lexeme :=
  match singleMarks.lookup c with
  | some kind => token kind [c] cs
  | none => stray c

/-- The mark at the front of a text, of two characters where they fit.
Source: `glyph`. -/
def mark (c : Char) (cs : List Char) : Lexeme :=
  match cs with
  | d :: rest =>
    match pairMarks.lookup (c, d) with
    | some kind => token kind [c, d] rest
    | none => singleMark c cs
  | [] => singleMark c cs

/-- What stands at the front of the text `c :: cs`.
Source: one round of `run` of `Lexer`. -/
def next (c : Char) (cs : List Char) : Lexeme :=
  if c = '\n' then
    token .newline [c] cs
  else if Text.isBlank c then
    skipped [c] cs
  else if c = '~' ∧ cs.head? = some '~' then
    skipped (c :: cs.takeWhile isInLine) (cs.dropWhile isInLine)
  else if Text.isNameStart c then
    token .ident (c :: cs.takeWhile Text.isNameChar) (cs.dropWhile Text.isNameChar)
  else if c.isDigit then
    token .number (c :: cs.takeWhile isNumberChar) (cs.dropWhile isNumberChar)
  else if c = '"' ∨ c = '\'' then
    match closeString c false cs with
    | some (body, rest) => token .str (c :: body) rest
    | none => openString (c :: cs.takeWhile isInLine)
  else
    mark c cs

end Lexeme

/-! ## Nothing is lost -/

/-- The text of a string and what follows it are the text that was looked at. -/
theorem closeString_append {quote : Char} {escaped : Bool} {cs body rest : List Char}
    (h : closeString quote escaped cs = some (body, rest)) : body ++ rest = cs := by
  induction cs generalizing escaped body with
  | nil => simp [closeString] at h
  | cons c cs ih =>
    rw [closeString] at h
    split at h
    · simp at h
    · split at h
      · simp at h
        obtain ⟨rfl, rfl⟩ := h
        rfl
      · split at h
        · next body' rest' h' =>
          simp at h
          obtain ⟨rfl, rfl⟩ := h
          simp [ih h']
        · simp at h

/-- The text of a lexeme is what the text begins with. -/
def Lexeme.Splits (input : List Char) : Lexeme → Prop
  | skipped text rest => text ≠ [] ∧ text ++ rest = input
  | token _ text rest => text ≠ [] ∧ text ++ rest = input
  | openString _ => True
  | stray _ => True

/-- A mark of one character is that character at the front of the text. -/
theorem Lexeme.splits_singleMark (c : Char) (cs : List Char) :
    (singleMark c cs).Splits (c :: cs) := by
  unfold singleMark
  split <;> simp [Splits]

/-- A mark of one or two characters stands at the front of the text. -/
theorem Lexeme.splits_mark (c : Char) (cs : List Char) : (mark c cs).Splits (c :: cs) := by
  unfold mark
  split
  · split
    · simp [Splits]
    · exact splits_singleMark c _
  · exact splits_singleMark c _

/-- Whatever is found at the front of a text is a part of it, and what follows is the rest. -/
theorem Lexeme.splits_next (c : Char) (cs : List Char) : (next c cs).Splits (c :: cs) := by
  unfold next
  split
  · simp [Splits]
  · split
    · simp [Splits]
    · split
      · simp [Splits, List.takeWhile_append_dropWhile]
      · split
        · simp [Splits, List.takeWhile_append_dropWhile]
        · split
          · simp [Splits, List.takeWhile_append_dropWhile]
          · split
            · split
              · next body rest h => simp [Splits, closeString_append h]
              · simp [Splits]
            · exact splits_mark c cs

/-- Behind a lexeme that has characters, the text is shorter. -/
theorem Lexeme.length_lt_of_splits {input text rest : List Char} (hne : text ≠ [])
    (h : text ++ rest = input) : rest.length < input.length := by
  have := List.length_pos_iff.2 hne
  rw [← h, List.length_append]
  omega

/-! ## The whole text -/

/-- The tokens of a text that begins at the byte offset `offset`.
Source: `run` of `Lexer`. -/
def Token.scanFrom (offset : Nat) : List Char → Except LexFault (List Token)
  | [] => .ok []
  | c :: cs =>
    match _h : Lexeme.next c cs with
    | .skipped text rest =>
      scanFrom (offset + Text.byteLength text) rest
    | .token kind text rest =>
      let stop := offset + Text.byteLength text
      (scanFrom stop rest).map (⟨kind, String.ofList text, ⟨offset, stop⟩⟩ :: ·)
    | .openString text =>
      .error ⟨.unterminatedString, ⟨offset, offset + Text.byteLength text⟩⟩
    | .stray d =>
      .error ⟨.unexpectedCharacter d, ⟨offset, offset + d.utf8Size⟩⟩
termination_by cs => cs.length
decreasing_by
  all_goals
    have hs := Lexeme.splits_next c cs
    rw [_h] at hs
    exact Lexeme.length_lt_of_splits hs.1 hs.2

/-- The tokens of a source text, or the first fault in it.
Source: `lex`. -/
def Token.scan (source : String) : Except LexFault (List Token) :=
  scanFrom 0 source.toList

end FuncDecl
