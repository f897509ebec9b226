import FuncDecl.Proofs.Source.Extent

/-!
# Nested brackets

The brackets of a list of tokens are followed by a stack, the braces alone by their depth.

* `nesting`, `WellNested`: the open brackets behind some tokens; all brackets are opened and closed
  in order.
* `Token.Kind.Nests`: what a mark does to the stack, by cases.
* `braceDepth`, `BracesPair`: the depth of braces behind some tokens; the braces are in pairs. Where
  all brackets are well nested, so are the braces alone (`braceDepth_of_nesting`).
* `takeOutside` and `dropOutside`: the tokens of some kinds that stand outside parentheses and
  brackets, and the others.
* `Inner`: the brackets that were opened since the depth of parentheses and brackets was zero.
* `Inner.exists_advances`: what one token of a well nested text does to the braces inside and
  outside.
* `exists_braceDepth_dropOutside`: **the braces inside parentheses and brackets are in pairs**, so
  that only the braces outside of them change the depth. By induction on the tokens.
-/

namespace FuncDecl

/-! ## All brackets -/

/-- The bracket that a closing mark is for. -/
def Token.Kind.opening? : Token.Kind → Option Token.Kind
  | closeParen => some openParen
  | closeBracket => some openBracket
  | closeBrace => some openBrace
  | _ => none

/-- The open brackets behind a mark, the innermost first. A mark that closes another bracket than
the innermost one has none. -/
def Token.Kind.nest (stack : List Token.Kind) (kind : Token.Kind) : Option (List Token.Kind) :=
  if kind.opensGroup then some (kind :: stack)
  else
    match kind.opening?, stack with
    | none, _ => some stack
    | some opening, top :: rest => if top = opening then some rest else none
    | some _, [] => none

/-- The open brackets behind a list of tokens, the innermost first. -/
def nesting (stack : List Token.Kind) : List Token → Option (List Token.Kind)
  | [] => some stack
  | t :: ts => (t.kind.nest stack).bind fun stack => nesting stack ts

/-- Parentheses, brackets and braces are opened and closed in order. -/
def WellNested (ts : List Token) : Prop :=
  nesting [] ts = some []

instance (ts : List Token) : Decidable (WellNested ts) :=
  inferInstanceAs (Decidable (nesting [] ts = some []))

/-- No tokens leave the stack. -/
@[simp] theorem nesting_nil (stack : List Token.Kind) : nesting stack [] = some stack := rfl

/-- The first token changes the stack, and then the others. -/
theorem nesting_cons (stack : List Token.Kind) (t : Token) (ts : List Token) :
    nesting stack (t :: ts) = (t.kind.nest stack).bind fun stack => nesting stack ts := rfl

/-- Two rows of tokens change the stack one after the other. -/
theorem nesting_append (stack : List Token.Kind) (ts us : List Token) :
    nesting stack (ts ++ us) = (nesting stack ts).bind fun stack => nesting stack us := by
  induction ts generalizing stack with
  | nil => rfl
  | cons t ts ih =>
    rw [List.cons_append, nesting_cons, nesting_cons, Option.bind_assoc]
    simp only [ih]

/-- What a mark does to the stack. -/
inductive Token.Kind.Nests : List Token.Kind → Token.Kind → List Token.Kind → Prop
  /-- A parenthesis or a bracket opens. -/
  | openRound {stack kind} (h : kind = openParen ∨ kind = openBracket) : Nests stack kind (kind :: stack)
  /-- A parenthesis or a bracket closes. -/
  | closeRound {stack kind top} (h : kind = closeParen ∨ kind = closeBracket)
      (htop : top = openParen ∨ top = openBracket) : Nests (top :: stack) kind stack
  /-- A brace opens. -/
  | openBrace {stack} : Nests stack openBrace (openBrace :: stack)
  /-- A brace closes. -/
  | closeBrace {stack} : Nests (openBrace :: stack) closeBrace stack
  /-- Any other mark. -/
  | plain {stack kind} (hopen : kind.opensGroup = false) (hclose : kind.closesGroup = false) :
      Nests stack kind stack

/-- What a mark does to the stack is one of the cases. -/
theorem Token.Kind.nests_of_nest {stack after : List Token.Kind} {kind : Token.Kind}
    (h : kind.nest stack = some after) : kind.Nests stack after := by
  unfold nest at h
  split at h
  · next hopen =>
    rw [← Option.some.inj h]
    cases kind with
    | openParen => exact .openRound (Or.inl rfl)
    | openBracket => exact .openRound (Or.inr rfl)
    | openBrace => exact .openBrace
    | _ => exact absurd hopen (by decide)
  · next hopen =>
    split at h
    · next hplain =>
      rw [← Option.some.inj h]
      refine .plain (by simpa using hopen) ?_
      cases kind with
      | closeParen | closeBracket | closeBrace => exact absurd hplain (by decide)
      | _ => rfl
    · next opening top rest hclose =>
      split at h
      · next htop =>
        rw [← Option.some.inj h, htop]
        cases kind with
        | closeParen =>
          rw [← Option.some.inj hclose]
          exact .closeRound (Or.inl rfl) (Or.inl rfl)
        | closeBracket =>
          rw [← Option.some.inj hclose]
          exact .closeRound (Or.inr rfl) (Or.inr rfl)
        | closeBrace =>
          rw [← Option.some.inj hclose]
          exact .closeBrace
        | _ => exact absurd hclose.symm (Option.some_ne_none opening)
      · exact absurd h (by simp)
    · exact absurd h (by simp)

namespace Token.Kind

/-- What opens a parenthesis or bracket is no brace. -/
theorem ne_brace_of_opens {kind : Token.Kind} (h : kind = openParen ∨ kind = openBracket) :
    kind ≠ openBrace ∧ kind ≠ closeBrace := by
  rcases h with rfl | rfl <;> simp

/-- What closes a parenthesis or bracket is no brace. -/
theorem ne_brace_of_closes {kind : Token.Kind} (h : kind = closeParen ∨ kind = closeBracket) :
    kind ≠ openBrace ∧ kind ≠ closeBrace := by
  rcases h with rfl | rfl <;> simp

/-- What neither opens nor closes a group is no brace. -/
theorem ne_brace_of_plain {kind : Token.Kind} (hopen : kind.opensGroup = false)
    (hclose : kind.closesGroup = false) : kind ≠ openBrace ∧ kind ≠ closeBrace := by
  constructor
  · rintro rfl
    exact absurd hopen (by decide)
  · rintro rfl
    exact absurd hclose (by decide)

end Token.Kind

/-! ## Braces alone -/

/-- The depth of braces behind a list of tokens, unless one of them closes nothing. -/
def braceDepth (depth : Nat) : List Token → Option Nat
  | [] => some depth
  | t :: ts =>
    if t.kind = .openBrace then braceDepth (depth + 1) ts
    else if t.kind = .closeBrace then
      if depth = 0 then none else braceDepth (depth - 1) ts
    else braceDepth depth ts

/-- The braces are in pairs. -/
def BracesPair (ts : List Token) : Prop :=
  braceDepth 0 ts = some 0

instance (ts : List Token) : Decidable (BracesPair ts) :=
  inferInstanceAs (Decidable (braceDepth 0 ts = some 0))

/-- No tokens leave the depth. -/
@[simp] theorem braceDepth_nil (depth : Nat) : braceDepth depth [] = some depth := rfl

/-- An opening brace counts. -/
theorem braceDepth_cons_open {t : Token} (h : t.kind = .openBrace) (depth : Nat)
    (ts : List Token) : braceDepth depth (t :: ts) = braceDepth (depth + 1) ts := by
  rw [braceDepth, if_pos h]

/-- A closing brace closes one that is open. -/
theorem braceDepth_cons_close {t : Token} (h : t.kind = .closeBrace) (depth : Nat)
    (ts : List Token) : braceDepth (depth + 1) (t :: ts) = braceDepth depth ts := by
  rw [braceDepth, if_neg (by rw [h]; simp), if_pos h, if_neg (by simp), Nat.add_sub_cancel]

/-- A closing brace where none is open closes nothing. -/
theorem braceDepth_zero_cons_close {t : Token} (h : t.kind = .closeBrace) (ts : List Token) :
    braceDepth 0 (t :: ts) = none := by
  rw [braceDepth, if_neg (by rw [h]; simp), if_pos h, if_pos rfl]

/-- Other tokens leave the depth. -/
theorem braceDepth_cons_of_ne {t : Token} (hopen : t.kind ≠ .openBrace)
    (hclose : t.kind ≠ .closeBrace) (depth : Nat) (ts : List Token) :
    braceDepth depth (t :: ts) = braceDepth depth ts := by
  rw [braceDepth, if_neg hopen, if_neg hclose]

/-- Two rows of tokens change the depth one after the other. -/
theorem braceDepth_append (depth : Nat) (ts us : List Token) :
    braceDepth depth (ts ++ us) = (braceDepth depth ts).bind fun depth => braceDepth depth us := by
  induction ts generalizing depth with
  | nil => rfl
  | cons t ts ih =>
    rw [List.cons_append]
    by_cases hopen : t.kind = .openBrace
    · rw [braceDepth_cons_open hopen, braceDepth_cons_open hopen, ih]
    by_cases hclose : t.kind = .closeBrace
    · cases depth with
      | zero => rw [braceDepth_zero_cons_close hclose, braceDepth_zero_cons_close hclose]; rfl
      | succ depth => rw [braceDepth_cons_close hclose, braceDepth_cons_close hclose, ih]
    · rw [braceDepth_cons_of_ne hopen hclose, braceDepth_cons_of_ne hopen hclose, ih]

/-- Opening braces alone add up. -/
theorem braceDepth_of_forall_open {ts : List Token} (h : ∀ t ∈ ts, t.kind = .openBrace)
    (depth : Nat) : braceDepth depth ts = some (depth + ts.length) := by
  induction ts generalizing depth with
  | nil => rfl
  | cons t ts ih =>
    rw [List.forall_mem_cons] at h
    rw [braceDepth_cons_open h.1, ih h.2, List.length_cons, Nat.add_right_comm, Nat.add_assoc]

/-- Where all brackets are followed, so are the braces: their depth is the number of open ones. -/
theorem braceDepth_of_nesting {stack after : List Token.Kind} {ts : List Token}
    (h : nesting stack ts = some after) :
    braceDepth (stack.count .openBrace) ts = some (after.count .openBrace) := by
  induction ts generalizing stack with
  | nil =>
    rw [nesting_nil, Option.some.injEq] at h
    rw [h, braceDepth_nil]
  | cons t ts ih =>
    rw [nesting_cons, Option.bind_eq_some_iff] at h
    obtain ⟨next, hnext, h⟩ := h
    rw [← ih h]
    generalize hk : t.kind = kind at hnext
    cases Token.Kind.nests_of_nest hnext with
    | openRound hround =>
      obtain ⟨hopen, hclose⟩ := Token.Kind.ne_brace_of_opens hround
      rw [braceDepth_cons_of_ne (by rwa [hk]) (by rwa [hk]), List.count_cons_of_ne hopen]
    | closeRound hround htop =>
      obtain ⟨hopen, hclose⟩ := Token.Kind.ne_brace_of_closes hround
      rw [braceDepth_cons_of_ne (by rwa [hk]) (by rwa [hk]),
        List.count_cons_of_ne (Token.Kind.ne_brace_of_opens htop).1]
    | openBrace => rw [braceDepth_cons_open hk, List.count_cons_self]
    | closeBrace => rw [List.count_cons_self, braceDepth_cons_close hk]
    | plain hopen hclose =>
      obtain ⟨hne, hne'⟩ := Token.Kind.ne_brace_of_plain hopen hclose
      rw [braceDepth_cons_of_ne (by rwa [hk]) (by rwa [hk])]

/-! ## Tokens outside parentheses and brackets -/

/-- The tokens of some kinds that stand outside parentheses and brackets. -/
def takeOutside (kinds : Token.Kind → Bool) (depth : Nat) : List Token → List Token
  | [] => []
  | t :: ts =>
    if depth = 0 ∧ kinds t.kind = true then t :: takeOutside kinds (t.kind.roundDepth depth) ts
    else takeOutside kinds (t.kind.roundDepth depth) ts

/-- The tokens without those of some kinds that stand outside parentheses and brackets. -/
def dropOutside (kinds : Token.Kind → Bool) (depth : Nat) : List Token → List Token
  | [] => []
  | t :: ts =>
    if depth = 0 ∧ kinds t.kind = true then dropOutside kinds (t.kind.roundDepth depth) ts
    else t :: dropOutside kinds (t.kind.roundDepth depth) ts

section Outside

variable {kinds : Token.Kind → Bool} {t : Token}

/-- A token of another kind is not taken. -/
theorem takeOutside_cons_of_not (h : kinds t.kind = false) (depth : Nat) (ts : List Token) :
    takeOutside kinds depth (t :: ts) = takeOutside kinds (t.kind.roundDepth depth) ts := by
  rw [takeOutside, if_neg (by simp [h])]

/-- Inside parentheses and brackets nothing is taken. -/
theorem takeOutside_succ_cons (depth : Nat) (ts : List Token) :
    takeOutside kinds (depth + 1) (t :: ts) =
      takeOutside kinds (t.kind.roundDepth (depth + 1)) ts := by
  rw [takeOutside, if_neg (by simp)]

/-- A token of the kinds is taken outside. -/
theorem takeOutside_zero_cons (h : kinds t.kind = true) (ts : List Token) :
    takeOutside kinds 0 (t :: ts) = t :: takeOutside kinds (t.kind.roundDepth 0) ts := by
  rw [takeOutside, if_pos ⟨rfl, h⟩]

/-- A token of another kind is kept. -/
theorem dropOutside_cons_of_not (h : kinds t.kind = false) (depth : Nat) (ts : List Token) :
    dropOutside kinds depth (t :: ts) = t :: dropOutside kinds (t.kind.roundDepth depth) ts := by
  rw [dropOutside, if_neg (by simp [h])]

/-- Inside parentheses and brackets everything is kept. -/
theorem dropOutside_succ_cons (depth : Nat) (ts : List Token) :
    dropOutside kinds (depth + 1) (t :: ts) =
      t :: dropOutside kinds (t.kind.roundDepth (depth + 1)) ts := by
  rw [dropOutside, if_neg (by simp)]

/-- A token of the kinds is left out outside. -/
theorem dropOutside_zero_cons (h : kinds t.kind = true) (ts : List Token) :
    dropOutside kinds 0 (t :: ts) = dropOutside kinds (t.kind.roundDepth 0) ts := by
  rw [dropOutside, if_pos ⟨rfl, h⟩]

/-- Two rows of tokens, the second one from the depth behind the first. -/
theorem takeOutside_append (depth : Nat) (ts us : List Token) :
    takeOutside kinds depth (ts ++ us) =
      takeOutside kinds depth ts ++ takeOutside kinds (roundDepthAfter depth ts) us := by
  induction ts generalizing depth with
  | nil => rfl
  | cons t ts ih =>
    rw [List.cons_append, takeOutside, takeOutside, ih, roundDepthAfter_cons]
    split
    · rfl
    · rfl

/-- Where no kind is asked for, nothing is taken. -/
theorem takeOutside_eq_nil (h : ∀ kind, kinds kind = false) (depth : Nat) (ts : List Token) :
    takeOutside kinds depth ts = [] := by
  induction ts generalizing depth with
  | nil => rfl
  | cons t ts ih => rw [takeOutside_cons_of_not (h t.kind), ih]

/-- Without tokens to leave out, nothing is left out. -/
theorem dropOutside_of_takeOutside_eq_nil {depth : Nat} {ts : List Token}
    (h : takeOutside kinds depth ts = []) : dropOutside kinds depth ts = ts := by
  induction ts generalizing depth with
  | nil => rfl
  | cons t ts ih =>
    rw [takeOutside] at h
    split at h
    · exact absurd h (List.cons_ne_nil _ _)
    · next hout => rw [dropOutside, if_neg hout, ih h]

end Outside

/-- The brackets that were opened since the depth of parentheses and brackets was zero: so many of
them are of that sort, and one of these is the outermost. -/
inductive Inner : List Token.Kind → Nat → Prop
  | nil : Inner [] 0
  | round {kind : Token.Kind} {inner : List Token.Kind} {depth : Nat}
      (h : kind = .openParen ∨ kind = .openBracket) (rest : Inner inner depth) :
      Inner (kind :: inner) (depth + 1)
  | brace {inner : List Token.Kind} {depth : Nat} (rest : Inner inner (depth + 1)) :
      Inner (.openBrace :: inner) (depth + 1)

/-- Outside parentheses and brackets none of them is open. -/
theorem Inner.eq_nil {inner : List Token.Kind} (h : Inner inner 0) : inner = [] := by
  cases h
  rfl

/-- Where none of them is open, the depth is zero. -/
theorem Inner.depth_eq_zero {depth : Nat} (h : Inner [] depth) : depth = 0 := by
  cases h
  rfl

namespace Token.Kind

/-- A parenthesis or bracket that opens is counted. -/
theorem roundDepth_of_opens {kind : Token.Kind} (h : kind = openParen ∨ kind = openBracket)
    (depth : Nat) : kind.roundDepth depth = depth + 1 := by
  rcases h with rfl | rfl <;> rfl

/-- A parenthesis or bracket that closes takes one away. -/
theorem roundDepth_of_closes {kind : Token.Kind} (h : kind = closeParen ∨ kind = closeBracket)
    (depth : Nat) : kind.roundDepth depth = depth - 1 := by
  rcases h with rfl | rfl <;> rfl

end Token.Kind

/-! ## One token after the other -/

section Lost

variable {lost : Token.Kind → Bool} {t : Token} {depth : Nat}

/-- The opening braces that are not left out. -/
def keptOpening (lost : Token.Kind → Bool) (kind : Token.Kind) : Bool :=
  kind == .openBrace && !lost kind

/-- One token in front of any others: `before` and `after` are the braces that are open inside
parentheses and brackets in front of it and behind it, and `kept` those that it opens outside. -/
def Advances (lost : Token.Kind → Bool) (t : Token) (depth before after kept : Nat) : Prop :=
  ∀ ts, (takeOutside (keptOpening lost) depth (t :: ts)).length =
      kept + (takeOutside (keptOpening lost) (t.kind.roundDepth depth) ts).length ∧
    ∀ n, braceDepth (n + before) (dropOutside lost depth (t :: ts)) =
      braceDepth (n + kept + after) (dropOutside lost (t.kind.roundDepth depth) ts)

/-- A token that is no brace changes none of the counts. -/
theorem advances_of_ne (hbraces : ∀ kind, lost kind = true → kind = .openBrace ∨ kind = .closeBrace)
    (hne : t.kind ≠ .openBrace ∧ t.kind ≠ .closeBrace) (depth before : Nat) :
    Advances lost t depth before before 0 := by
  have hlost : lost t.kind = false := by
    rw [← Bool.not_eq_true]
    intro h
    exact (hbraces _ h).elim hne.1 hne.2
  intro ts
  constructor
  · rw [takeOutside_cons_of_not (by simp [keptOpening, hne.1]), Nat.zero_add]
  · intro n
    rw [dropOutside_cons_of_not hlost, braceDepth_cons_of_ne hne.1 hne.2, Nat.add_zero n]

/-- Inside, an opening brace is one more that is open there. -/
theorem advances_openBrace_inside (h : t.kind = .openBrace) (depth before : Nat) :
    Advances lost t (depth + 1) before (before + 1) 0 := by
  intro ts
  constructor
  · rw [takeOutside_succ_cons, Nat.zero_add]
  · intro n
    rw [dropOutside_succ_cons, braceDepth_cons_open h, Nat.add_zero n, Nat.add_assoc]

/-- Inside, a closing brace closes one of those. -/
theorem advances_closeBrace_inside (h : t.kind = .closeBrace) (depth before : Nat) :
    Advances lost t (depth + 1) (before + 1) before 0 := by
  intro ts
  constructor
  · rw [takeOutside_succ_cons, Nat.zero_add]
  · intro n
    rw [dropOutside_succ_cons, ← Nat.add_assoc, braceDepth_cons_close h, Nat.add_zero n]

/-- Outside, an opening brace counts unless it is left out. -/
theorem exists_advances_openBrace_outside (lost : Token.Kind → Bool) (h : t.kind = .openBrace) :
    ∃ kept, Advances lost t 0 0 0 kept := by
  cases hlost : lost .openBrace with
  | true =>
    refine ⟨0, fun ts => ⟨?_, fun n => ?_⟩⟩
    · rw [takeOutside_cons_of_not (by simp [keptOpening, h, hlost]), Nat.zero_add]
    · rw [dropOutside_zero_cons (by rw [h, hlost])]
  | false =>
    refine ⟨1, fun ts => ⟨?_, fun n => ?_⟩⟩
    · rw [takeOutside_zero_cons (by simp [keptOpening, h, hlost]), List.length_cons, Nat.add_comm]
    · rw [dropOutside_cons_of_not (by rw [h, hlost]), braceDepth_cons_open h]

/-- Outside, a closing brace is left out. -/
theorem advances_closeBrace_outside (hclosing : lost .closeBrace = true) (h : t.kind = .closeBrace) :
    Advances lost t 0 0 0 0 := by
  intro ts
  constructor
  · rw [takeOutside_cons_of_not (by simp [keptOpening, h]), Nat.zero_add]
  · intro n
    rw [dropOutside_zero_cons (by rw [h, hclosing])]

variable (hclosing : lost .closeBrace = true)
  (hbraces : ∀ kind, lost kind = true → kind = .openBrace ∨ kind = .closeBrace)
include hclosing hbraces

/-- One token of a well nested text. The bracket that it closes was opened inside, unless all of these
are closed. -/
theorem Inner.exists_advances {inner outer next : List Token.Kind} (hinner : Inner inner depth)
    (hnext : t.kind.nest (inner ++ outer) = some next) :
    ∃ inner' outer' kept, next = inner' ++ outer' ∧ Inner inner' (t.kind.roundDepth depth) ∧
      Advances lost t depth (inner.count .openBrace) (inner'.count .openBrace) kept := by
  have hnests := Token.Kind.nests_of_nest hnext
  generalize hk : t.kind = kind at hnests
  generalize hstack : inner ++ outer = stack at hnests
  cases hnests with
  | openRound hround =>
    have hne := Token.Kind.ne_brace_of_opens hround
    refine ⟨kind :: inner, outer, 0, by rw [← hstack]; rfl, ?_, ?_⟩
    · rw [Token.Kind.roundDepth_of_opens hround]
      exact .round hround hinner
    · rw [List.count_cons_of_ne hne.1]
      exact advances_of_ne hbraces (by rwa [hk]) _ _
  | closeRound hround htop =>
    have hne := Token.Kind.ne_brace_of_closes hround
    rw [Token.Kind.roundDepth_of_closes hround]
    cases hinner with
    | nil => exact ⟨[], next, 0, rfl, .nil, advances_of_ne hbraces (by rwa [hk]) _ _⟩
    | round hround' rest =>
      rw [List.cons_append, List.cons.injEq] at hstack
      refine ⟨_, outer, 0, hstack.2.symm, rest, ?_⟩
      rw [List.count_cons_of_ne (Token.Kind.ne_brace_of_opens hround').1]
      exact advances_of_ne hbraces (by rwa [hk]) _ _
    | brace rest =>
      rw [List.cons_append, List.cons.injEq] at hstack
      exact absurd hstack.1.symm (Token.Kind.ne_brace_of_opens htop).1
  | openBrace =>
    cases depth with
    | zero =>
      obtain rfl := hinner.eq_nil
      obtain ⟨kept, hkept⟩ := exists_advances_openBrace_outside lost hk
      -- a brace outside is no longer looked at
      exact ⟨[], _, kept, rfl, .nil, hkept⟩
    | succ depth =>
      refine ⟨.openBrace :: inner, outer, 0, by rw [← hstack]; rfl, .brace hinner, ?_⟩
      rw [List.count_cons_self]
      exact advances_openBrace_inside hk depth _
  | closeBrace =>
    cases hinner with
    | nil => exact ⟨[], next, 0, rfl, .nil, advances_closeBrace_outside hclosing hk⟩
    | round hround rest =>
      rw [List.cons_append, List.cons.injEq] at hstack
      exact absurd hstack.1 (Token.Kind.ne_brace_of_opens hround).1
    | brace rest =>
      rw [List.cons_append, List.cons.injEq] at hstack
      refine ⟨_, outer, 0, hstack.2.symm, rest, ?_⟩
      rw [List.count_cons_self]
      exact advances_closeBrace_inside hk _ _
  | plain hopen hclose =>
    have hne := Token.Kind.ne_brace_of_plain hopen hclose
    refine ⟨inner, outer, 0, hstack.symm, ?_, advances_of_ne hbraces (by rwa [hk]) _ _⟩
    rwa [Token.Kind.roundDepth_of_plain hopen hclose]

/-- **The braces inside parentheses and brackets are in pairs.** Take a well nested text from a place
on, and leave out the closing braces outside parentheses and brackets, perhaps with the opening ones.
Then the depth of braces goes up by the opening ones outside that were not left out, and by those
that are still open inside. -/
theorem exists_braceDepth_dropOutside {inner outer after : List Token.Kind} {ts : List Token}
    (hinner : Inner inner depth) (h : nesting (inner ++ outer) ts = some after) :
    ∃ inner' outer', after = inner' ++ outer' ∧ Inner inner' (roundDepthAfter depth ts) ∧
      ∀ n, braceDepth (n + inner.count .openBrace) (dropOutside lost depth ts) =
        some (n + (takeOutside (keptOpening lost) depth ts).length + inner'.count .openBrace) := by
  induction ts generalizing inner outer depth with
  | nil =>
    rw [nesting_nil, Option.some.injEq] at h
    exact ⟨inner, outer, h.symm, hinner, fun n => rfl⟩
  | cons t ts ih =>
    rw [nesting_cons, Option.bind_eq_some_iff] at h
    obtain ⟨next, hnext, h⟩ := h
    obtain ⟨inner₁, outer₁, kept, rfl, hinner₁, hstep⟩ :=
      hinner.exists_advances hclosing hbraces hnext
    obtain ⟨inner', outer', hafter, hinner', hcount⟩ := ih hinner₁ h
    obtain ⟨htaken, hdropped⟩ := hstep ts
    refine ⟨inner', outer', hafter, hinner', fun n => ?_⟩
    rw [hdropped, hcount, htaken, Nat.add_assoc n kept]

end Lost

end FuncDecl
