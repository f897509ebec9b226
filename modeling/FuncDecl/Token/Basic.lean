import FuncDecl.Text.Span
import FuncDecl.Text.Word

/-!
# Tokens

A token is a piece of source text with its kind and its place. The marks that function headers are
made of have kinds of their own; all others are operators.

* `Token.Kind`: what a token is. `Token.Kind.description` is how a message names it.
* `Token.Kind.groupDepth`: the depth of bracketed groups after a mark.
* `Token`: a piece of text.
* `skipNewlines`, `endSpan`: the tokens without the line ends at their front, and the place behind
  the last one.
-/

namespace FuncDecl

/-- What a token is.
Source: `TokenKind`. -/
inductive Token.Kind where
  | ident
  | number
  | str
  | comma
  | openParen
  | closeParen
  | less
  | greater
  | equals
  | colon
  | atSign
  | arrow
  | openBrace
  | closeBrace
  | openBracket
  | closeBracket
  | semicolon
  | operator
  | newline
deriving DecidableEq, Repr

namespace Token.Kind

/-- How a message names the kind. -/
def description : Kind → String
  | ident => "identifier"
  | number => "number"
  | str => "string"
  | comma => "','"
  | openParen => "'('"
  | closeParen => "')'"
  | less => "'<'"
  | greater => "'>'"
  | equals => "'='"
  | colon => "':'"
  | atSign => "'@'"
  | arrow => "'->'"
  | openBrace => "'\x7b'"
  | closeBrace => "'\x7d'"
  | openBracket => "'['"
  | closeBracket => "']'"
  | semicolon => "';'"
  | operator => "operator"
  | newline => "newline"

/-- Whether the mark opens a bracketed group. Angle brackets do not: they are also comparisons.
Source: `is_open_group`. -/
def opensGroup : Kind → Bool
  | openParen | openBracket | openBrace => true
  | _ => false

/-- Whether the mark closes a bracketed group.
Source: `is_close_group`. -/
def closesGroup : Kind → Bool
  | closeParen | closeBracket | closeBrace => true
  | _ => false

/-- The depth of bracketed groups after a mark. A mark that closes nothing leaves the depth at
zero. -/
def groupDepth (depth : Nat) (kind : Kind) : Nat :=
  if kind.opensGroup then depth + 1
  else if kind.closesGroup then depth - 1
  else depth

end Token.Kind

/-- A piece of source text.
Source: `Node`. -/
structure Token where
  kind : Token.Kind
  /-- The text as written; a string keeps its quotation marks. -/
  text : String
  span : Span
deriving DecidableEq, Repr

namespace Token

/-- Whether the token ends a line. -/
def isNewline (t : Token) : Bool :=
  t.kind == .newline

/-- Whether the token is a name spelled in the given way. -/
def isName (t : Token) (spelling : String) : Bool :=
  t.kind == .ident && t.text == spelling

end Token

/-- The tokens without the line ends at their front. -/
def skipNewlines (ts : List Token) : List Token :=
  ts.dropWhile Token.isNewline

/-- The empty span behind the last token, or at the start of the text where there is none. -/
def endSpan (ts : List Token) : Span :=
  match ts.getLast? with
  | some t => Span.point t.span.stop
  | none => Span.point 0

end FuncDecl
