import FuncDecl.Source.Chunk

/-!
# Where a declaration ends

`Dialect.extent` walks over tokens and counts parentheses and brackets. The walk is described here
without its counter. Everything about the chunks of a source is derived from this.

* `roundDepthAfter`: the depth of parentheses and brackets behind a list of tokens. A count that
  begins lower stays lower (`roundDepthAfter_mono`).
* `Dialect.keywordOutside`: a function keyword stands outside parentheses and brackets.
* `Dialect.Passes depth keyword ts rest`: the walk does not end inside a list of tokens.
  `Dialect.passes_cons_iff` and `Dialect.passes_append_iff` take this apart.
* `Dialect.WalkEnds`: the three ways in which the walk ends, at the end of the tokens, at a mark, or
  in front of a line end.
* `Dialect.extent_split`: **the walk passes some tokens and ends in one of the three ways**.
* `Dialect.unit_split`: the same for a unit.
-/

namespace FuncDecl

/-! ## The depth behind a list of tokens -/

/-- Only brackets change the depth. -/
theorem Token.Kind.roundDepth_of_plain {kind : Token.Kind} (hopen : kind.opensGroup = false)
    (hclose : kind.closesGroup = false) (depth : Nat) : kind.roundDepth depth = depth := by
  cases kind with
  | openParen | openBracket => exact absurd hopen (by decide)
  | closeParen | closeBracket => exact absurd hclose (by decide)
  | _ => rfl

/-- The depth of parentheses and brackets behind a list of tokens. -/
def roundDepthAfter (depth : Nat) (ts : List Token) : Nat :=
  ts.foldl (fun n t => t.kind.roundDepth n) depth

/-- No tokens leave the depth. -/
@[simp] theorem roundDepthAfter_nil (depth : Nat) : roundDepthAfter depth [] = depth := rfl

/-- The first token changes the depth, and then the others. -/
@[simp] theorem roundDepthAfter_cons (depth : Nat) (t : Token) (ts : List Token) :
    roundDepthAfter depth (t :: ts) = roundDepthAfter (t.kind.roundDepth depth) ts := rfl

/-- Two rows of tokens change the depth one after the other. -/
@[simp] theorem roundDepthAfter_append (depth : Nat) (ts rest : List Token) :
    roundDepthAfter depth (ts ++ rest) = roundDepthAfter (roundDepthAfter depth ts) rest := by
  rw [roundDepthAfter, List.foldl_append]
  rfl

/-- A mark keeps two depths in their order. -/
theorem Token.Kind.roundDepth_mono (kind : Token.Kind) {m n : Nat} (h : m ≤ n) :
    kind.roundDepth m ≤ kind.roundDepth n := by
  cases kind <;> simp only [roundDepth] <;> omega

/-- A count that begins lower stays lower. -/
theorem roundDepthAfter_mono (ts : List Token) {m n : Nat} (h : m ≤ n) :
    roundDepthAfter m ts ≤ roundDepthAfter n ts := by
  induction ts generalizing m n with
  | nil => exact h
  | cons t ts ih =>
    rw [roundDepthAfter_cons, roundDepthAfter_cons]
    exact ih (t.kind.roundDepth_mono h)

/-- A line end does not change the depth. -/
theorem roundDepth_of_newline {t : Token} (h : t.kind = .newline) (depth : Nat) :
    t.kind.roundDepth depth = depth := by
  rw [h]
  rfl

/-- A name does not change the depth. -/
theorem roundDepth_of_ident {t : Token} (h : t.kind = .ident) (depth : Nat) :
    t.kind.roundDepth depth = depth := by
  rw [h]
  rfl

namespace Dialect

variable (d : Dialect)

/-! ## The function keyword outside parentheses and brackets -/

/-- Whether a function keyword stands outside parentheses and brackets among the tokens. -/
def keywordOutside (depth : Nat) : List Token → Bool
  | [] => false
  | t :: ts =>
    (depth = 0 && d.isFunctionKeyword t) || keywordOutside (t.kind.roundDepth depth) ts

/-- No tokens have no keyword. -/
@[simp] theorem keywordOutside_nil (depth : Nat) : d.keywordOutside depth [] = false := rfl

/-- The keyword is the first token or one of the others. -/
theorem keywordOutside_cons (depth : Nat) (t : Token) (ts : List Token) :
    d.keywordOutside depth (t :: ts) =
      ((depth = 0 && d.isFunctionKeyword t) || d.keywordOutside (t.kind.roundDepth depth) ts) :=
  rfl

/-- The keyword is in the first of two rows or in the second one, from the depth behind the first.
-/
theorem keywordOutside_append (depth : Nat) (ts rest : List Token) :
    d.keywordOutside depth (ts ++ rest) =
      (d.keywordOutside depth ts || d.keywordOutside (roundDepthAfter depth ts) rest) := by
  induction ts generalizing depth with
  | nil => rfl
  | cons t ts ih =>
    rw [List.cons_append, keywordOutside_cons, keywordOutside_cons, ih, roundDepthAfter_cons,
      Bool.or_assoc]

/-- The function keyword is a name. -/
theorem kind_of_isFunctionKeyword {d : Dialect} {t : Token} (h : d.isFunctionKeyword t = true) :
    t.kind = .ident := by
  rw [isFunctionKeyword, Token.isName, Bool.and_eq_true, beq_iff_eq] at h
  exact h.1

/-- A modifier is a name. -/
theorem kind_of_isModifier {d : Dialect} {t : Token} (h : d.isModifier t = true) :
    t.kind = .ident := by
  rw [isModifier, Bool.and_eq_true, beq_iff_eq] at h
  exact h.1

/-! ## Tokens that the walk passes -/

/-- The walk that is at `depth`, and has met the keyword or not, does not end inside `ts` where
`rest` follows: outside parentheses and brackets there is no mark that ends a declaration, and the
declaration goes on behind every line end. -/
def Passes (depth : Nat) (keyword : Bool) (ts rest : List Token) : Prop :=
  ∀ pre t post, ts = pre ++ t :: post → roundDepthAfter depth pre = 0 →
    t.kind.endsDeclaration = false ∧
      (t.kind = .newline →
        d.continues (keyword || d.keywordOutside depth pre) (t :: (post ++ rest)) = true)

/-- The walk passes no tokens. -/
theorem passes_nil (depth : Nat) (keyword : Bool) (rest : List Token) :
    d.Passes depth keyword [] rest := by
  intro pre t post h
  exact absurd h (by simp)

/-- The first token is passed, and the others are from there on. -/
theorem passes_cons_iff {depth : Nat} {keyword : Bool} {t : Token} {ts rest : List Token} :
    d.Passes depth keyword (t :: ts) rest ↔
      (depth = 0 → t.kind.endsDeclaration = false ∧
        (t.kind = .newline → d.continues keyword (t :: (ts ++ rest)) = true)) ∧
      d.Passes (t.kind.roundDepth depth)
        (keyword || (depth = 0 && d.isFunctionKeyword t)) ts rest := by
  constructor
  · intro h
    refine ⟨fun h0 => ?_, fun pre u post hts hdepth => ?_⟩
    · simpa using h [] t ts rfl h0
    · have := h (t :: pre) u post (by rw [hts]; rfl) hdepth
      rwa [keywordOutside_cons, ← Bool.or_assoc] at this
  · rintro ⟨hhead, htail⟩ pre u post hts hdepth
    rcases List.cons_eq_append_iff.mp hts with ⟨rfl, hu⟩ | ⟨pre', rfl, hu⟩
    · obtain ⟨rfl, rfl⟩ := List.cons.inj hu
      simpa using hhead hdepth
    · have := htail pre' u post hu hdepth
      rwa [keywordOutside_cons, ← Bool.or_assoc]

/-- The walk passes two lists in a row if it passes each of them. -/
theorem passes_append_iff {depth : Nat} {keyword : Bool} {ts us rest : List Token} :
    d.Passes depth keyword (ts ++ us) rest ↔
      d.Passes depth keyword ts (us ++ rest) ∧
        d.Passes (roundDepthAfter depth ts) (keyword || d.keywordOutside depth ts) us rest := by
  induction ts generalizing depth keyword with
  | nil =>
    simp only [List.nil_append, roundDepthAfter_nil, keywordOutside_nil, Bool.or_false]
    exact ⟨fun h => ⟨d.passes_nil _ _ _, h⟩, And.right⟩
  | cons t ts ih =>
    rw [List.cons_append, passes_cons_iff, passes_cons_iff, ih, roundDepthAfter_cons,
      keywordOutside_cons, and_assoc, List.append_assoc, Bool.or_assoc]

/-! ## The walk -/

/-- A token that the walk passes is taken, and noted if it is the keyword outside parentheses. -/
theorem extent_cons_of_passes {depth : Nat} {keyword : Bool} {t : Token} {ts : List Token}
    (h : depth = 0 → t.kind.endsDeclaration = false ∧
      (t.kind = .newline → d.continues keyword (t :: ts) = true)) :
    d.extent depth keyword (t :: ts) =
      ((d.extent (t.kind.roundDepth depth)
          (keyword || (depth = 0 && d.isFunctionKeyword t)) ts).1 + 1,
        (d.extent (t.kind.roundDepth depth)
          (keyword || (depth = 0 && d.isFunctionKeyword t)) ts).2) := by
  rw [extent, if_neg, if_neg]
  · rintro ⟨h0, hn, hc⟩
    rw [(h h0).2 hn] at hc
    exact absurd hc (by simp)
  · rintro ⟨h0, he⟩
    rw [(h h0).1] at he
    exact absurd he (by simp)

/-- Behind tokens that it passes, the walk is the walk over the rest. -/
theorem extent_append_of_passes {depth : Nat} {keyword : Bool} {ts rest : List Token}
    (h : d.Passes depth keyword ts rest) :
    d.extent depth keyword (ts ++ rest) =
      (ts.length +
          (d.extent (roundDepthAfter depth ts) (keyword || d.keywordOutside depth ts) rest).1,
        (d.extent (roundDepthAfter depth ts) (keyword || d.keywordOutside depth ts) rest).2) := by
  induction ts generalizing depth keyword with
  | nil => simp
  | cons t ts ih =>
    rw [passes_cons_iff] at h
    rw [List.cons_append, extent_cons_of_passes d h.1, ih h.2, keywordOutside_cons,
      roundDepthAfter_cons, Bool.or_assoc, List.length_cons]
    simp only [Prod.mk.injEq, and_true]
    omega

/-- The three ways in which the walk ends behind the tokens `pre`, with what follows them and the
number of tokens it has taken. -/
inductive WalkEnds (depth : Nat) (keyword : Bool) (pre : List Token) : List Token → Nat → Prop
  /-- No token is left. -/
  | exhausted : WalkEnds depth keyword pre [] pre.length
  /-- A mark ends the declaration and belongs to it. -/
  | mark {t : Token} {post : List Token} (outside : roundDepthAfter depth pre = 0)
      (ends : t.kind.endsDeclaration = true) :
      WalkEnds depth keyword pre (t :: post) (pre.length + 1)
  /-- The declaration does not go on behind a line end, which is left. -/
  | line {t : Token} {post : List Token} (outside : roundDepthAfter depth pre = 0)
      (newline : t.kind = .newline)
      (stops : d.continues (keyword || d.keywordOutside depth pre) (t :: post) = false) :
      WalkEnds depth keyword pre (t :: post) pre.length

/-- A walk that ends behind `pre` ends in the same way if one more token was passed before. -/
theorem WalkEnds.cons {d : Dialect} {depth : Nat} {keyword : Bool} {t : Token}
    {pre rest : List Token} {n : Nat}
    (h : d.WalkEnds (t.kind.roundDepth depth)
      (keyword || (depth = 0 && d.isFunctionKeyword t)) pre rest n) :
    d.WalkEnds depth keyword (t :: pre) rest (n + 1) := by
  cases h with
  | exhausted => exact .exhausted
  | mark outside ends => exact .mark outside ends
  | line outside newline stops =>
    exact .line outside newline (by rwa [keywordOutside_cons, ← Bool.or_assoc])

/-- The walk passes some tokens and ends behind them in one of the three ways. It has found the
keyword if one stands outside parentheses and brackets among them. -/
theorem extent_split (depth : Nat) (keyword : Bool) (ts : List Token) :
    ∃ pre rest, ts = pre ++ rest ∧ d.Passes depth keyword pre rest ∧
      d.WalkEnds depth keyword pre rest (d.extent depth keyword ts).1 ∧
      (d.extent depth keyword ts).2 = (keyword || d.keywordOutside depth pre) := by
  induction ts generalizing depth keyword with
  | nil => exact ⟨[], [], rfl, d.passes_nil _ _ _, .exhausted, by simp [extent]⟩
  | cons t ts ih =>
    by_cases hmark : depth = 0 ∧ t.kind.endsDeclaration = true
    · refine ⟨[], t :: ts, rfl, d.passes_nil _ _ _, ?_, ?_⟩
      · rw [extent, if_pos hmark]
        exact .mark hmark.1 hmark.2
      · rw [extent, if_pos hmark]
        simp
    by_cases hline : depth = 0 ∧ t.kind = .newline ∧ d.continues keyword (t :: ts) = false
    · refine ⟨[], t :: ts, rfl, d.passes_nil _ _ _, ?_, ?_⟩
      · rw [extent, if_neg hmark, if_pos (by simpa using hline)]
        exact .line hline.1 hline.2.1 (by simpa using hline.2.2)
      · rw [extent, if_neg hmark, if_pos (by simpa using hline)]
        simp
    -- neither test stops the walk here, so it passes `t`
    have hgo : depth = 0 → t.kind.endsDeclaration = false ∧
        (t.kind = .newline → d.continues keyword (t :: ts) = true) := by
      intro h0
      refine ⟨by simpa using fun he => hmark ⟨h0, he⟩, fun hn => ?_⟩
      simpa using fun hc => hline ⟨h0, hn, hc⟩
    obtain ⟨pre, rest, rfl, hpass, hends, hfound⟩ :=
      ih (t.kind.roundDepth depth) (keyword || (depth = 0 && d.isFunctionKeyword t))
    refine ⟨t :: pre, rest, rfl, (d.passes_cons_iff).mpr ⟨hgo, hpass⟩, ?_, ?_⟩
    · rw [extent_cons_of_passes d hgo]
      exact hends.cons
    · rw [extent_cons_of_passes d hgo, hfound, keywordOutside_cons, Bool.or_assoc]

/-- A unit as the walk measures it from outside parentheses and brackets: it was passed up to a mark,
which is its last token, or it was passed as a whole, up to the end of the tokens or a line end. -/
theorem unit_split {unit rest : List Token} {keyword found : Bool}
    (h : d.extent 0 keyword (unit ++ rest) = (unit.length, found)) :
    (∃ pre mark, unit = pre ++ [mark] ∧ d.Passes 0 keyword pre (mark :: rest) ∧
      roundDepthAfter 0 pre = 0 ∧ mark.kind.endsDeclaration = true ∧
      found = (keyword || d.keywordOutside 0 pre)) ∨
    (d.Passes 0 keyword unit rest ∧ (rest = [] ∨ roundDepthAfter 0 unit = 0) ∧
      found = (keyword || d.keywordOutside 0 unit)) := by
  obtain ⟨pre, rest', hts, hpass, hends, hfound⟩ := d.extent_split 0 keyword (unit ++ rest)
  rw [h] at hends hfound
  simp only at hends hfound
  generalize hn : unit.length = n at hends
  cases hends with
  | exhausted =>
    rw [List.append_nil] at hts
    have hlen := congrArg List.length hts
    rw [List.length_append, hn, Nat.add_eq_left, List.length_eq_zero_iff] at hlen
    subst hlen
    rw [List.append_nil] at hts
    subst hts
    exact Or.inr ⟨hpass, Or.inl rfl, hfound⟩
  | mark outside ends =>
    next t post =>
    obtain ⟨rfl, rfl⟩ := List.append_inj (by rw [hts, List.append_assoc]; rfl)
      (show unit.length = (pre ++ [t]).length by rw [hn, List.length_append]; rfl)
    exact Or.inl ⟨pre, t, rfl, hpass, outside, ends, hfound⟩
  | line outside newline stops =>
    obtain ⟨rfl, rfl⟩ := List.append_inj hts hn
    exact Or.inr ⟨hpass, Or.inr outside, hfound⟩

end Dialect

end FuncDecl
