/-!
# Spans

A span is a range of byte offsets into a source text.

* `Text.byteLength`: the number of bytes that characters take.
* `Text.lineFeedsWithin`: the line feeds among the first bytes of a text.
* `Span.merge`: spans are merged as larger pieces of text are put together.
* `Span.line`: the line of a span is counted from the line feeds before it.
-/

namespace FuncDecl

/-! ## Offsets in bytes -/

namespace Text

/-- The number of bytes that the characters take. -/
def byteLength (cs : List Char) : Nat :=
  cs.foldr (fun c n => c.utf8Size + n) 0

/-- The number of line feeds among the first `bytes` bytes of a text. A count that ends inside a
character leaves that character out, which is never a line feed. -/
def lineFeedsWithin (bytes : Nat) : List Char → Nat
  | [] => 0
  | c :: cs =>
    if bytes = 0 then 0
    else (if c = '\n' then 1 else 0) + lineFeedsWithin (bytes - c.utf8Size) cs

end Text

/-! ## Spans -/

/-- The bytes from `start` up to, and not including, `stop`.
Source: `Span`. -/
structure Span where
  start : Nat
  stop : Nat
deriving DecidableEq, Repr, Inhabited

namespace Span

/-- The empty span at an offset.
Source: `point`. -/
def point (offset : Nat) : Span :=
  ⟨offset, offset⟩

/-- The smallest span that holds both.
Source: `merge`. -/
def merge (a b : Span) : Span :=
  ⟨min a.start b.start, max a.stop b.stop⟩

/-- The number of bytes, none when the span ends before it starts.
Source: `len` of `Span`. -/
def length (s : Span) : Nat :=
  s.stop - s.start

/-- Whether the span holds no byte.
Source: `is_empty` of `Span`. -/
def isEmpty (s : Span) : Bool :=
  s.length == 0

/-- The span widened so that it holds at least one byte, as a report needs it.
Source: `normalize_span`. -/
def visible (s : Span) : Span :=
  ⟨s.start, max s.stop (s.start + 1)⟩

end Span

/-- The line on which a span starts, counted from one. A start past the end of the text is on its
last line.
Source: `line_in`. -/
def Span.line (s : Span) (source : String) : Nat :=
  Text.lineFeedsWithin s.start source.toList + 1

end FuncDecl
