import FuncDecl.Dialect

/-!
# Chunks of a source

The tokens of a source fall into chunks. A declaration begins with an `@`, or with modifiers and the
function keyword, and reaches up to its brace or semicolon; the lines of its decorators belong to
it.

* `Chunk`: a line end, a declaration, decorators without one, or a line that is neither.
* `Dialect.opensDeclaration`: whether a declaration begins at the front of some tokens.
* `Dialect.extent`: how far it reaches.
* `Dialect.chunks`: the chunks of a list of tokens. They depend on the tokens alone.
-/

namespace FuncDecl

/-- A run of tokens that is handled together.
Source: what the loop of `compile_source` tells apart. -/
inductive Chunk where
  /-- The end of a line. -/
  | newline (t : Token)
  /-- A declaration. -/
  | declaration (tokens : List Token)
  /-- Decorators with no declaration behind them. -/
  | stray (tokens : List Token)
  /-- The tokens of any other line. -/
  | line (tokens : List Token)
deriving DecidableEq, Repr

/-- The tokens of a chunk. -/
def Chunk.tokens : Chunk → List Token
  | newline t => [t]
  | declaration ts | stray ts | line ts => ts

/-- The depth of parentheses and brackets after a mark. Braces do not count: one of them ends a
declaration.
Source: the depth of `declaration_end`. -/
def Token.Kind.roundDepth (depth : Nat) : Token.Kind → Nat
  | openParen | openBracket => depth + 1
  | closeParen | closeBracket => depth - 1
  | _ => depth

/-- Whether a mark of this kind ends a declaration. -/
def Token.Kind.endsDeclaration : Token.Kind → Bool
  | openBrace | semicolon => true
  | _ => false

namespace Dialect

/-- Whether a declaration begins at the front of the tokens.
Source: `starts_declaration`. -/
def opensDeclaration (d : Dialect) (ts : List Token) : Bool :=
  match ts with
  | [] => false
  | t :: _ =>
    if t.kind = .atSign then true
    else
      match ts.find? fun t => !d.isModifier t with
      | some t => d.isFunctionKeyword t
      | none => false

/-- Whether a declaration goes on behind a line end outside parentheses. Behind the function keyword
it does if its brace or semicolon comes next, before it if the next line begins a declaration.
Source: `continues` in `declaration_end`. -/
def continues (d : Dialect) (keyword : Bool) (ts : List Token) : Bool :=
  match skipNewlines ts with
  | [] => false
  | t :: rest => if keyword then t.kind.endsDeclaration else d.opensDeclaration (t :: rest)

/-- The number of tokens up to the end of a declaration, and whether the function keyword is among
them. The tokens are those from some place inside the declaration on; `depth` and `keyword` tell
what was in front of it.
Source: `declaration_end`. -/
def extent (d : Dialect) (depth : Nat) (keyword : Bool) : List Token → Nat × Bool
  | [] => (0, keyword)
  | t :: ts =>
    if depth = 0 ∧ t.kind.endsDeclaration then (1, keyword)
    else if depth = 0 ∧ t.kind = .newline ∧ !d.continues keyword (t :: ts) then (0, keyword)
    else
      let (n, found) :=
        extent d (t.kind.roundDepth depth) (keyword || (depth = 0 && d.isFunctionKeyword t)) ts
      (n + 1, found)

/-- A unit has at least the token it begins with, so that cutting one after the other ends. -/
theorem extent_pos (d : Dialect) {t : Token} (h : t.kind ≠ .newline) (ts : List Token) :
    0 < (d.extent 0 false (t :: ts)).1 := by
  rw [extent]
  split
  · exact Nat.zero_lt_one
  · split
    · next hn => exact absurd hn.2.1 h
    · exact Nat.succ_pos _

/-- The chunks of a list of tokens, in order.
Source: the loop of `compile_source`. -/
def chunks (d : Dialect) : List Token → List Chunk
  | [] => []
  | t :: ts =>
    if _ht : t.kind = .newline then
      .newline t :: chunks d ts
    else if d.opensDeclaration (t :: ts) then
      let unit := d.extent 0 false (t :: ts)
      let tokens := (t :: ts).take unit.1
      (if unit.2 then Chunk.declaration tokens else .stray tokens) ::
        chunks d ((t :: ts).drop unit.1)
    else
      .line (t :: ts.takeWhile (!·.isNewline)) :: chunks d (ts.dropWhile (!·.isNewline))
termination_by ts => ts.length
decreasing_by
  · simp
  · have := extent_pos d _ht ts
    simp only [List.length_drop, List.length_cons]
    omega
  · have := (List.dropWhile_sublist (l := ts) (!·.isNewline)).length_le
    simp only [List.length_cons]
    omega

end Dialect

end FuncDecl
