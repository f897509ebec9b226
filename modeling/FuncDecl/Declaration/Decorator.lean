import FuncDecl.Token.Basic

/-!
# Decorators

A decorator is an `@`, a name directly behind it, which may be dotted, and perhaps an argument list
in parentheses. Its text is kept as written, up to spacing. What only looks like a decorator stays
where it is: a lone `@`, a name apart from its `@`, an argument list that is never closed.

* `Decorator.readDots`, `Decorator.readArguments`: the parts of a dotted name, and an argument list.
* `Decorator.read?`: one decorator.
* `Decorator.readAll`: all decorators at the front of some tokens.
-/

namespace FuncDecl

/-- A decorator: its text without the `@`, and the span from the `@` on.
Source: `Decorator`. -/
structure Decorator where
  text : String
  span : Span
deriving DecidableEq, Repr

namespace Decorator

/-- Take in the parts of a dotted name: each is a dot with a name behind it.
Source: the first loop of `decorator`. -/
def readDots (d : Decorator) : List Token → Decorator × List Token
  | dot :: name :: ts =>
    if dot.text = "." ∧ name.kind = .ident then
      readDots ⟨d.text ++ dot.text ++ name.text, (d.span.merge dot.span).merge name.span⟩ ts
    else (d, dot :: name :: ts)
  | ts => (d, ts)

/-- Take in tokens up to the one that brings the depth of groups back to zero. Line ends are left
out of the text.
Source: the second loop of `decorator`. -/
def readArguments (d : Decorator) (depth : Nat) : List Token → Option (Decorator × List Token)
  | [] => none
  | t :: ts =>
    if t.isNewline then readArguments d depth ts
    else
      let d' : Decorator := ⟨Text.attach .spaced d.text t.text, d.span.merge t.span⟩
      let depth' := t.kind.groupDepth depth
      if depth' = 0 then some (d', ts) else readArguments d' depth' ts

/-- The decorator at the front of the tokens, and the tokens behind it.
Source: `decorator`. -/
def read? : List Token → Option (Decorator × List Token)
  | sign :: name :: ts =>
    if sign.kind = .atSign ∧ name.kind = .ident ∧ name.span.start = sign.span.stop then
      let (d, rest) := readDots ⟨name.text, sign.span.merge name.span⟩ ts
      match rest with
      | t :: _ => if t.kind = .openParen then readArguments d 0 rest else some (d, rest)
      | [] => some (d, rest)
    else none
  | _ => none

/-! ## What is read is a shorter list -/

/-- Reading a dotted name takes tokens away from the front or leaves them all. -/
theorem length_readDots_le (d : Decorator) (ts : List Token) :
    (readDots d ts).2.length ≤ ts.length := by
  fun_induction readDots d ts with
  | case1 => simp only [List.length_cons]; omega
  | case2 => simp
  | case3 => simp

/-- An argument list that is read to its end has at least one token. -/
theorem length_readArguments_lt {d d' : Decorator} {depth : Nat} {ts rest : List Token}
    (h : readArguments d depth ts = some (d', rest)) : rest.length < ts.length := by
  fun_induction readArguments d depth ts with
  | case1 => simp at h
  | case2 d depth t ts hn ih => have := ih h; simp only [List.length_cons]; omega
  | case3 d depth t ts hn d₁ depth₁ hd =>
    simp at h
    simp [h.2]
  | case4 d depth t ts hn d₁ depth₁ hd ih => have := ih h; simp only [List.length_cons]; omega

/-- A decorator has at least one token, so that reading one after the other ends. -/
theorem length_read?_lt {d : Decorator} {ts rest : List Token} (h : read? ts = some (d, rest)) :
    rest.length < ts.length := by
  unfold read? at h
  split at h
  · next sign name ts =>
    split at h
    · have hle := length_readDots_le ⟨name.text, sign.span.merge name.span⟩ ts
      revert h
      cases hr : readDots ⟨name.text, sign.span.merge name.span⟩ ts with
      | mk d₁ rest₁ =>
        rw [hr] at hle
        simp only [List.length_cons] at hle ⊢
        intro h
        split at h
        · split at h
          · have := length_readArguments_lt h
            omega
          · simp at h
            rw [← h.2]
            omega
        · simp at h
          simp [h.2]
    · simp at h
  · simp at h

/-- Passing over line ends takes tokens away from the front or leaves them all. -/
theorem length_skipNewlines_le (ts : List Token) : (skipNewlines ts).length ≤ ts.length :=
  (List.dropWhile_sublist _).length_le

/-- The decorators at the front of the tokens, with the line ends behind each, and the tokens that
follow.
Source: `collect`. -/
def readAll (ts : List Token) : List Decorator × List Token :=
  match _h : read? ts with
  | some (d, rest) =>
    let (ds, rest') := readAll (skipNewlines rest)
    (d :: ds, rest')
  | none => ([], ts)
termination_by ts.length
decreasing_by
  have h₁ := length_read?_lt _h
  have h₂ := length_skipNewlines_le rest
  omega

end Decorator

end FuncDecl
