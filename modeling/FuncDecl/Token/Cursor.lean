import FuncDecl.Token.Basic

/-!
# Cursors

A cursor is a place in a list of tokens. It moves forward, and a caller that has looked ahead moves
it back to a place it has kept.

* `Cursor.current?`, `Cursor.ahead?`: look at a token.
* `Cursor.next`, `Cursor.take?`: take a token and move on.
* `Cursor.seek`: moves back to a place.
* `Cursor.skipNewlines`: moves behind line ends.
-/

namespace FuncDecl

/-- A place in a list of tokens; `pos` tokens are behind it.
Source: `TokenCursor`. -/
structure Cursor where
  tokens : List Token
  pos : Nat
deriving DecidableEq, Repr

/-- A token was asked for and none is left.
Source: `UnexpectedEnd`. -/
structure OutOfTokens where
  /-- The empty span behind the last token. -/
  span : Span
deriving DecidableEq, Repr

/-- The wording of the fault. -/
def OutOfTokens.message (_ : OutOfTokens) : String :=
  "unexpected end of input"

namespace Cursor

/-- The place in front of the first token.
Source: `new` of `TokenCursor`. -/
def start (tokens : List Token) : Cursor :=
  ⟨tokens, 0⟩

/-- The token at the cursor.
Source: `peek`. -/
def current? (c : Cursor) : Option Token :=
  c.tokens[c.pos]?

/-- The kind of the token at the cursor.
Source: `peek_kind`. -/
def currentKind? (c : Cursor) : Option Token.Kind :=
  c.current?.map Token.kind

/-- The token that many places behind the one at the cursor.
Source: `nth`. -/
def ahead? (c : Cursor) (offset : Nat) : Option Token :=
  c.tokens[c.pos + offset]?

/-- Whether the token at the cursor has the given kind.
Source: `at`. -/
def isAt (c : Cursor) (kind : Token.Kind) : Bool :=
  c.currentKind? == some kind

/-- Whether no token is left.
Source: `is_at_end`. -/
def isAtEnd (c : Cursor) : Bool :=
  c.tokens.length ≤ c.pos

/-- The empty span behind the last token.
Source: `end_span`. -/
def endSpan (c : Cursor) : Span :=
  FuncDecl.endSpan c.tokens

/-- The span of the token at the cursor, or the end of the tokens.
Source: `current_span`. -/
def currentSpan (c : Cursor) : Span :=
  match c.current? with
  | some t => t.span
  | none => c.endSpan

/-- The tokens from the cursor on.
Source: `remaining`. -/
def rest (c : Cursor) : List Token :=
  c.tokens.drop c.pos

/-- The cursor one token further on. -/
def step (c : Cursor) : Cursor :=
  { c with pos := c.pos + 1 }

/-- The token at the cursor and the cursor behind it.
Source: `advance`. -/
def next (c : Cursor) : Except OutOfTokens (Token × Cursor) :=
  match c.current? with
  | some t => .ok (t, c.step)
  | none => .error ⟨c.endSpan⟩

/-- The token at the cursor, if it has the given kind, and the cursor behind it.
Source: `eat`. -/
def take? (c : Cursor) (kind : Token.Kind) : Option (Token × Cursor) :=
  match c.current? with
  | some t => if t.kind = kind then some (t, c.step) else none
  | none => none

/-- The cursor behind the token at it, if there is one.
Source: `bump`. -/
def skip (c : Cursor) : Cursor :=
  if c.isAtEnd then c else c.step

/-- The cursor at a place it had before; a place behind the last token is the end.
Source: `reset`. -/
def seek (c : Cursor) (pos : Nat) : Cursor :=
  { c with pos := min pos c.tokens.length }

/-- The cursor at the place from which `rest` remains. -/
def moveTo (c : Cursor) (rest : List Token) : Cursor :=
  c.seek (c.tokens.length - rest.length)

/-- The cursor behind the line ends at it.
Source: `skip_newlines`. -/
def skipNewlines (c : Cursor) : Cursor :=
  c.moveTo (FuncDecl.skipNewlines c.rest)

end Cursor

end FuncDecl
