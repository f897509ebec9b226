import FuncDecl.Proofs.Source.Chunks
import FuncDecl.Proofs.Source.Nesting
import FuncDecl.Proofs.Source.Reports

/-!
# The braces that a pass follows

A pass follows the braces of lines and the brace that ends a declaration, and says so where one of
them has no partner. The other braces of a declaration are passed over with the header. Inside
parentheses and brackets they come in pairs, so nothing is lost by it; outside of them they are
lost.

* `Diagnostic.isBraceFault`: a diagnostic says that a brace has no partner. No other one reads like
  it (`Diagnostic.isBraceFault_eq_false`).
* `Chunk.followed`: the tokens of a chunk whose braces a pass follows.
* `Pass.Follows depth ts out`: what became of a number of open braces over some tokens, for one
  token, a line, a chunk and all chunks (`Pass.follows_stepToken` to `Pass.follows_run`).
* `PassContext.no_braceFault_iff`: a source is not blamed for a brace exactly if the braces that the
  pass follows are in pairs.
* `Chunk.lost`, `Chunk.kept`: the braces that are lost, and the tokens without them. In a well
  nested source those that are kept count as much as those that are followed
  (`Dialect.braceDepth_kept_chunks`).
* `Settings.no_brace_fault_iff_bracesPair`: **when a well nested source is blamed for its braces**.
  It is if the braces that are not lost do not pair, which needs a lost one.
-/

namespace FuncDecl

/-! ## Diagnostics about braces -/

/-- Whether a diagnostic says that a brace has no partner. -/
def Diagnostic.isBraceFault (x : Diagnostic) : Bool :=
  x.message == "unmatched `\x7d`" || x.message == "unclosed `\x7b`"

/-- Whether a text begins with another character than the given one. -/
def Text.beginsApart (c : Char) (text : String) : Bool :=
  text.toList.head?.any (· != c)

/-- A text that goes on begins as it did. -/
theorem Text.beginsApart_append {c : Char} {a : String} (h : beginsApart c a = true) (b : String) :
    beginsApart c (a ++ b) = true := by
  unfold beginsApart at h ⊢
  rw [String.toList_append, List.head?_append]
  cases hhead : a.toList.head? with
  | none => simp [hhead] at h
  | some x => rwa [hhead] at h

/-- Both texts about braces begin with the same small letter. -/
theorem Diagnostic.isBraceFault_eq_false {x : Diagnostic}
    (h : Text.beginsApart 'u' x.message = true) : x.isBraceFault = false := by
  rw [← Bool.not_eq_true]
  intro hx
  rw [isBraceFault, Bool.or_eq_true, beq_iff_eq, beq_iff_eq] at hx
  rcases hx with hx | hx
  · rw [hx] at h
    exact absurd h (by decide)
  · rw [hx] at h
    exact absurd h (by decide)

/-- The wording of a cause begins with a capital letter. -/
theorem Cause.beginsApart_message (c : Cause) : Text.beginsApart 'u' c.message = true := by
  cases c with
  | endOfInput => decide +kernel
  | unbalancedGenerics => decide +kernel
  | malformed flaw => exact Text.beginsApart_append (by decide +kernel) _
  | expectedKeyword keyword found =>
    iterate 4 apply Text.beginsApart_append
    decide +kernel
  | conflictingModifiers first second =>
    iterate 4 apply Text.beginsApart_append
    decide +kernel
  | _ => exact Text.beginsApart_append (Text.beginsApart_append (by decide +kernel) _) _

namespace Pass

/-- A declaration that is accepted is not blamed for a brace. -/
theorem isBraceFault_accepted (ctx : PassContext) (c : Compiled) :
    ∀ x ∈ (accepted ctx c).diagnostics, x.isBraceFault = false := by
  intro x hx
  obtain ⟨earlier, -, rfl⟩ := eq_of_mem_accepted hx
  apply Diagnostic.isBraceFault_eq_false
  show Text.beginsApart 'u' (_ ++ _ ++ _ ++ _) = true
  iterate 3 apply Text.beginsApart_append
  rfl

/-- A declaration that is refused is refused for its header. -/
theorem isBraceFault_refused (ctx : PassContext) (f : Fault) :
    ∀ x ∈ (refused ctx f).diagnostics, x.isBraceFault = false := by
  intro x hx
  have hmessage : Text.beginsApart 'u' f.message = true := f.cause.beginsApart_message
  rcases refused_cases ctx f with ⟨name, previous, -, h⟩ | h
  · rw [h] at hx
    rw [List.mem_singleton.mp hx]
    exact Diagnostic.isBraceFault_eq_false
      (Text.beginsApart_append (Text.beginsApart_append hmessage _) _)
  · rw [h] at hx
    rw [List.mem_singleton.mp hx]
    exact Diagnostic.isBraceFault_eq_false hmessage

/-- Stray decorators are not blamed for a brace. -/
theorem isBraceFault_stray (tokens : List Token) :
    ∀ x ∈ (stray tokens).diagnostics, x.isBraceFault = false := by
  intro x hx
  obtain ⟨span, rfl⟩ := eq_of_mem_stray hx
  apply Diagnostic.isBraceFault_eq_false
  show Text.beginsApart 'u' "decorators must be followed by a function declaration" = true
  decide +kernel

/-! ## What a pass follows -/

end Pass

/-- The tokens of a chunk whose braces a pass follows. -/
def Chunk.followed : Chunk → List Token
  | newline _ | stray _ => []
  | declaration ts => ts.getLast?.toList.filter (·.kind == .openBrace)
  | line ts => ts

namespace Pass

/-- What became of a number of open braces over some tokens: a report that blames a brace if one of
them closes nothing, and the right number of open braces if not. -/
def Follows (depth : Nat) (ts : List Token) (out : Pass × Report) : Prop :=
  match braceDepth depth ts with
  | some n => out.1.braces.length = n ∧ ∀ x ∈ out.2.diagnostics, x.isBraceFault = false
  | none => ∃ x ∈ out.2.diagnostics, x.isBraceFault = true

/-- A report that blames no brace, with the right number of open braces. -/
theorem follows_of_some {depth n : Nat} {ts : List Token} {out : Pass × Report}
    (h : braceDepth depth ts = some n) (hlength : out.1.braces.length = n)
    (hclean : ∀ x ∈ out.2.diagnostics, x.isBraceFault = false) : Follows depth ts out := by
  rw [Follows, h]
  exact ⟨hlength, hclean⟩

/-- Two lots of tokens in a row. -/
theorem Follows.append {depth : Nat} {ts us : List Token} {p q : Pass} {r r' : Report}
    (hts : Follows depth ts (p, r)) (hus : Follows p.braces.length us (q, r')) :
    Follows depth (ts ++ us) (q, r ++ r') := by
  rw [Follows, braceDepth_append]
  rw [Follows] at hts
  cases h : braceDepth depth ts with
  | none =>
    rw [h] at hts
    obtain ⟨x, hx, hfault⟩ := hts
    exact ⟨x, List.mem_append_left _ hx, hfault⟩
  | some n =>
    rw [h] at hts
    obtain ⟨hlength, hclean⟩ := hts
    simp only at hlength hclean
    rw [Follows, hlength] at hus
    show match braceDepth n us with
      | some n => _
      | none => _
    cases h' : braceDepth n us with
    | none =>
      rw [h'] at hus
      obtain ⟨x, hx, hfault⟩ := hus
      exact ⟨x, List.mem_append_right _ hx, hfault⟩
    | some m =>
      rw [h'] at hus
      refine ⟨hus.1, fun x hx => ?_⟩
      rcases List.mem_append.mp hx with hx | hx
      · exact hclean x hx
      · exact hus.2 x hx

/-- One more brace is open behind a brace that opens. -/
theorem length_braces_openBrace (p : Pass) (span : Span) :
    (p.openBrace span).braces.length = p.braces.length + 1 := by
  rcases p.openBrace_cases span with ⟨head, -, h⟩ | ⟨-, h⟩ <;> rw [h] <;> rfl

/-- One token of a line. -/
theorem follows_stepToken (p : Pass) (t : Token) :
    Follows p.braces.length [t] (p.stepToken t) := by
  rcases p.stepToken_cases t with
    ⟨h, heq⟩ | ⟨h, brace, braces, hp, heq⟩ | ⟨h, hp, heq⟩ | ⟨hopen, hclose, heq⟩ <;> rw [heq]
  · exact follows_of_some (braceDepth_cons_open h _ _) (p.length_braces_openBrace t.span)
      fun x hx => absurd hx List.not_mem_nil
  · rw [hp]
    exact follows_of_some (braceDepth_cons_close h _ _) rfl
      fun x hx => absurd hx List.not_mem_nil
  · rw [hp, Follows, List.length_nil, braceDepth_zero_cons_close h]
    exact ⟨_, List.mem_singleton_self _, by simp [Diagnostic.isBraceFault, Diagnostic.error]⟩
  · exact follows_of_some (braceDepth_cons_of_ne hopen hclose _ _) rfl
      fun x hx => absurd hx List.not_mem_nil

/-- The tokens of a line. -/
theorem follows_stepTokens (p : Pass) (ts : List Token) :
    Follows p.braces.length ts (p.stepTokens ts) := by
  induction ts generalizing p with
  | nil => exact follows_of_some rfl rfl fun x hx => absurd hx List.not_mem_nil
  | cons t ts ih => exact (p.follows_stepToken t).append (ih _)

/-- Announcing a type opens no brace. -/
theorem braces_announce (p : Pass) (line : List Token) : (p.announce line).braces = p.braces := by
  obtain ⟨pending, h, -⟩ := p.announce_eq line
  rw [h]

/-- A declaration has one more open brace if it ends with one. -/
theorem length_braces_stepDeclaration (ctx : PassContext) (p : Pass) (tokens : List Token) :
    (p.stepDeclaration ctx tokens).1.braces.length =
      p.braces.length + (Chunk.declaration tokens).followed.length := by
  obtain ⟨scope, hbraces⟩ := p.exists_braces_stepDeclaration ctx tokens
  rw [hbraces, List.length_append, Nat.add_comm, bodyBrace?, Chunk.followed]
  cases hlast : tokens.getLast? with
  | none => rfl
  | some t =>
    by_cases ht : t.kind = .openBrace
    · simp [ht]
    · simp [ht]

/-- A declaration is not blamed for a brace. -/
theorem isBraceFault_stepDeclaration (ctx : PassContext) (p : Pass) (tokens : List Token) :
    ∀ x ∈ (p.stepDeclaration ctx tokens).2.diagnostics, x.isBraceFault = false := by
  rcases p.report_stepDeclaration ctx tokens with ⟨c, h⟩ | ⟨fault, h⟩
  · exact h ▸ isBraceFault_accepted ctx c
  · exact h ▸ isBraceFault_refused ctx fault

/-- One chunk. -/
theorem follows_step (ctx : PassContext) (p : Pass) (c : Chunk) :
    Follows p.braces.length c.followed (p.step ctx c) := by
  cases c with
  | newline t => exact follows_of_some rfl rfl fun x hx => absurd hx List.not_mem_nil
  | declaration ts =>
    have hopen : ∀ t ∈ (Chunk.declaration ts).followed, t.kind = .openBrace := by
      intro t ht
      simpa using (List.mem_filter.mp ht).2
    exact follows_of_some (braceDepth_of_forall_open hopen _)
      (p.length_braces_stepDeclaration ctx ts) (p.isBraceFault_stepDeclaration ctx ts)
  | stray ts => exact follows_of_some rfl rfl (isBraceFault_stray ts)
  | line ts =>
    rw [← braces_announce p ts]
    exact (p.announce ts).follows_stepTokens ts

/-- The chunks of a source. -/
theorem follows_run (ctx : PassContext) (p : Pass) (cs : List Chunk) :
    Follows p.braces.length (cs.flatMap Chunk.followed) (p.run ctx cs) := by
  induction cs generalizing p with
  | nil => exact follows_of_some rfl rfl fun x hx => absurd hx List.not_mem_nil
  | cons c cs ih => exact (p.follows_step ctx c).append (ih _)

end Pass

/-- A source is not blamed for a brace exactly if the braces that the pass follows are in pairs. -/
theorem PassContext.no_braceFault_iff (ctx : PassContext) (tree : Scope.Tree) (ts : List Token) :
    (∀ x ∈ (ctx.compile tree ts).diagnostics, x.isBraceFault = false) ↔
      BracesPair ((ctx.compiler.dialect.chunks ts).flatMap Chunk.followed) := by
  -- the pass either reports a closing brace too many or ends as deep as the count says
  have hrun := Pass.follows_run ctx { tree } (ctx.compiler.dialect.chunks ts)
  have hdiag : (ctx.compile tree ts).diagnostics =
      (Pass.run ctx { tree } (ctx.compiler.dialect.chunks ts)).2.diagnostics ++
        ((Pass.run ctx { tree } (ctx.compiler.dialect.chunks ts)).1.unclosed
          (endSpan ts)).diagnostics := rfl
  rw [hdiag, List.forall_mem_append, BracesPair]
  rw [Pass.Follows, show ({ tree } : Pass).braces.length = 0 from rfl] at hrun
  cases h : braceDepth 0 ((ctx.compiler.dialect.chunks ts).flatMap Chunk.followed) with
  | none =>
    rw [h] at hrun
    obtain ⟨x, hx, hfault⟩ := hrun
    refine ⟨fun hall => ?_, fun hn => absurd hn (by simp)⟩
    rw [hall.1 x hx] at hfault
    exact absurd hfault (by simp)
  | some n =>
    rw [h] at hrun
    obtain ⟨hlength, hclean⟩ := hrun
    rw [Option.some.injEq, ← hlength, List.length_eq_zero_iff]
    constructor
    · rintro ⟨-, hopen⟩
      rw [List.eq_nil_iff_forall_not_mem]
      intro brace hbrace
      have := hopen _ (List.mem_map_of_mem hbrace)
      exact absurd this (by simp [Diagnostic.isBraceFault, Diagnostic.error])
    · intro hnone
      refine ⟨hclean, fun x hx => ?_⟩
      rw [Pass.unclosed, hnone] at hx
      exact absurd hx List.not_mem_nil

/-! ## What a pass loses -/

namespace Chunk

/-- The kinds of braces that are lost outside parentheses and brackets. A declaration ends at an
opening brace, so it has no other one there; decorators alone lose that one too. -/
def loses : Chunk → Token.Kind → Bool
  | declaration _, kind => kind == .closeBrace
  | stray _, kind => kind == .openBrace || kind == .closeBrace
  | newline _, _ | line _, _ => false

/-- The braces of a chunk that are lost. -/
def lost (c : Chunk) : List Token :=
  takeOutside c.loses 0 c.tokens

/-- The tokens of a chunk without the braces that are lost. -/
def kept (c : Chunk) : List Token :=
  dropOutside c.loses 0 c.tokens

/-- A chunk that loses no brace keeps its tokens. -/
theorem kept_eq_tokens {c : Chunk} (h : c.lost = []) : c.kept = c.tokens :=
  dropOutside_of_takeOutside_eq_nil h

/-- A line end loses no brace. -/
theorem kept_newline (t : Token) : (newline t).kept = [t] :=
  kept_eq_tokens (takeOutside_eq_nil (fun _ => rfl) 0 _)

/-- A line loses no brace. -/
theorem kept_line (ts : List Token) : (line ts).kept = ts :=
  kept_eq_tokens (takeOutside_eq_nil (fun _ => rfl) 0 _)

end Chunk

namespace Dialect

variable (d : Dialect)

/-- Tokens that the walk passes have no opening brace outside parentheses and brackets. -/
theorem Passes.takeOutside_openBrace {d : Dialect} {depth : Nat} {keyword : Bool}
    {ts rest : List Token} (h : d.Passes depth keyword ts rest) :
    takeOutside (· == .openBrace) depth ts = [] := by
  induction ts generalizing depth keyword with
  | nil => rfl
  | cons t ts ih =>
    rw [passes_cons_iff] at h
    rw [takeOutside, if_neg, ih h.2]
    rintro ⟨h0, ht⟩
    have hends := (h.1 h0).1
    rw [beq_iff_eq.mp ht] at hends
    exact absurd hends (by decide)

/-- The opening brace of a unit outside parentheses and brackets is its last token. -/
theorem takeOutside_openBrace_unit {unit rest : List Token} {found : Bool}
    (h : d.extent 0 false (unit ++ rest) = (unit.length, found))
    (h0 : roundDepthAfter 0 unit = 0) :
    takeOutside (· == .openBrace) 0 unit = (Chunk.declaration unit).followed := by
  rcases d.unit_split h with ⟨pre, mark, rfl, hpass, hpre, -, -⟩ | ⟨hpass, -, -⟩
  · rw [takeOutside_append, hpass.takeOutside_openBrace, hpre, Chunk.followed,
      List.getLast?_concat]
    by_cases hmark : mark.kind = .openBrace
    · rw [takeOutside_zero_cons (by simp [hmark])]
      simp [takeOutside, hmark]
    · rw [takeOutside_cons_of_not (by simp [hmark])]
      simp [takeOutside, hmark]
  · rw [hpass.takeOutside_openBrace, Chunk.followed]
    rcases List.eq_nil_or_concat unit with rfl | ⟨pre, t, rfl⟩
    · rfl
    · -- a brace at the end would stand outside, where the walk passes none
      rw [List.concat_eq_append] at hpass h0 ⊢
      rw [List.getLast?_concat]
      symm
      simp only [Option.toList_some, List.filter_eq_nil_iff, List.mem_singleton, forall_eq,
        beq_iff_eq]
      intro ht
      rw [roundDepthAfter_append, roundDepthAfter_cons, ht] at h0
      have := (hpass pre t [] rfl h0).1
      rw [ht] at this
      exact absurd this (by decide)

/-- The braces of a unit that are kept count as much as those that are followed, since the others
stand in pairs inside parentheses and brackets. -/
theorem braceDepth_kept_unit {unit rest : List Token} {found : Bool}
    (h : d.extent 0 false (unit ++ rest) = (unit.length, found)) {stack after : List Token.Kind}
    (hnest : nesting stack unit = some after) (hlast : rest = [] → after = []) (n : Nat) :
    braceDepth n (Chunk.ofUnit found unit).kept =
      braceDepth n (Chunk.ofUnit found unit).followed := by
  have hclosing : (Chunk.ofUnit found unit).loses .closeBrace = true := by cases found <;> rfl
  have hbraces : ∀ kind, (Chunk.ofUnit found unit).loses kind = true →
      kind = .openBrace ∨ kind = .closeBrace := by
    intro kind hkind
    cases found with
    | false => simpa [Chunk.ofUnit, Chunk.loses] using hkind
    | true => exact Or.inr (by simpa [Chunk.ofUnit, Chunk.loses] using hkind)
  obtain ⟨inner, outer, rfl, hinner, hcount⟩ :=
    exists_braceDepth_dropOutside hclosing hbraces Inner.nil hnest
  -- a unit ends outside of round brackets, so nothing it leaves open lies inside one
  have h0 : roundDepthAfter 0 unit = 0 := by
    rcases d.unit_split h with ⟨pre, mark, rfl, -, hpre, hmark, -⟩ | ⟨-, hrest | h0, -⟩
    · rw [roundDepthAfter_append, hpre]
      cases hk : mark.kind with
      | openBrace | semicolon => rw [roundDepthAfter_cons, hk]; rfl
      | _ => rw [hk] at hmark; exact absurd hmark (by decide)
    · obtain ⟨rfl, -⟩ := List.append_eq_nil_iff.mp (hlast hrest)
      exact hinner.depth_eq_zero
    · exact h0
  rw [h0] at hinner
  obtain rfl := hinner.eq_nil
  rw [Chunk.kept, Chunk.tokens_ofUnit]
  refine (hcount n).trans ?_
  cases found with
  | false =>
    rw [takeOutside_eq_nil]
    · rfl
    · intro kind
      cases kind <;> rfl
  | true =>
    have hkinds : keptOpening (Chunk.ofUnit true unit).loses = (· == .openBrace) := by
      funext kind
      cases kind <;> rfl
    have hopen : ∀ t ∈ (Chunk.declaration unit).followed, t.kind = .openBrace := by
      intro t ht
      simpa using (List.mem_filter.mp ht).2
    rw [hkinds, d.takeOutside_openBrace_unit h h0]
    exact (braceDepth_of_forall_open hopen n).symm

/-- In a well nested source the braces that are kept count as much as those that are followed. -/
theorem braceDepth_kept_chunks {ts : List Token} {stack : List Token.Kind}
    (h : nesting stack ts = some []) (n : Nat) :
    braceDepth n ((d.chunks ts).flatMap Chunk.kept) =
      braceDepth n ((d.chunks ts).flatMap Chunk.followed) := by
  revert stack n
  refine d.chunks_induct (motive := fun ts cs => ∀ {stack : List Token.Kind},
    nesting stack ts = some [] → ∀ n, braceDepth n (cs.flatMap Chunk.kept) =
      braceDepth n (cs.flatMap Chunk.followed)) ?_ ?_ ?_ ?_ ts
  · intro stack _ n
    rfl
  · intro t rest ht ih stack h n
    rw [nesting_cons, Option.bind_eq_some_iff] at h
    obtain ⟨next, -, h⟩ := h
    rw [List.flatMap_cons, Chunk.kept_newline, List.singleton_append,
      braceDepth_cons_of_ne (by simp [ht]) (by simp [ht])]
    exact ih h n
  · intro t ts rest found _ _ hext ih stack h n
    rw [nesting_append, Option.bind_eq_some_iff] at h
    obtain ⟨next, hnext, h⟩ := h
    rw [List.flatMap_cons, List.flatMap_cons, braceDepth_append, braceDepth_append,
      d.braceDepth_kept_unit hext hnext fun hrest => by
        rw [hrest, nesting_nil, Option.some.injEq] at h
        exact h]
    simp only [ih h]
  · intro t ts rest _ _ _ ih stack h n
    rw [nesting_append, Option.bind_eq_some_iff] at h
    obtain ⟨next, -, h⟩ := h
    rw [List.flatMap_cons, List.flatMap_cons, braceDepth_append, braceDepth_append, Chunk.kept_line]
    simp only [Chunk.followed, ih h]

end Dialect

/-! ## The whole source -/

/-- **Braces of a well nested source.** It is not blamed for a brace exactly if the braces that are
not lost are in pairs. In particular it is not if no brace is lost.
Source: `compile_source`, `declaration_end`, `compile_declaration`, `scan_line` and `finish`. -/
theorem Settings.no_brace_fault_iff_bracesPair (s : Settings) (name source : String)
    (ts : List Token) (hscan : Token.scan source = .ok ts) (hnest : WellNested ts) :
    let cs := (s.context name source).compiler.dialect.chunks ts
    ((∀ x ∈ (s.compile name source).diagnostics, x.isBraceFault = false) ↔
      BracesPair (cs.flatMap Chunk.kept)) ∧
    ((∀ c ∈ cs, c.lost = []) →
      ∀ x ∈ (s.compile name source).diagnostics, x.isBraceFault = false) := by
  intro cs
  have hiff : (∀ x ∈ (s.compile name source).diagnostics, x.isBraceFault = false) ↔
      BracesPair (cs.flatMap Chunk.kept) := by
    rw [s.compile_of_scan name hscan, PassContext.no_braceFault_iff, BracesPair, BracesPair,
      Dialect.braceDepth_kept_chunks _ hnest]
  refine ⟨hiff, fun hlost => hiff.mpr ?_⟩
  have hall : cs.flatMap Chunk.kept = ts := by
    rw [← Dialect.flatMap_tokens_chunks (s.context name source).compiler.dialect ts]
    rw [List.flatMap_def, List.flatMap_def,
      List.map_congr_left fun c hc => Chunk.kept_eq_tokens (hlost c hc)]
  rw [hall]
  exact braceDepth_of_nesting hnest

/-- A declaration that is refused, with braces in its parentheses. -/
theorem Settings.no_brace_fault_of_refused :
    let source := "fn f(a = \x7b\x7d) \x7b\n\x7d"
    let ts : List Token := [⟨.ident, "fn", ⟨0, 2⟩⟩, ⟨.ident, "f", ⟨3, 4⟩⟩,
      ⟨.openParen, "(", ⟨4, 5⟩⟩, ⟨.ident, "a", ⟨5, 6⟩⟩, ⟨.equals, "=", ⟨7, 8⟩⟩,
      ⟨.openBrace, "\x7b", ⟨9, 10⟩⟩, ⟨.closeBrace, "\x7d", ⟨10, 11⟩⟩,
      ⟨.closeParen, ")", ⟨11, 12⟩⟩, ⟨.openBrace, "\x7b", ⟨13, 14⟩⟩,
      ⟨.newline, "\n", ⟨14, 15⟩⟩, ⟨.closeBrace, "\x7d", ⟨15, 16⟩⟩]
    Token.scan source = .ok ts ∧ WellNested ts ∧
      (({} : Settings).compile "" source).hasErrors = true ∧
      ∀ x ∈ (({} : Settings).compile "" source).diagnostics, x.isBraceFault = false := by
  intro source ts
  have hscan : Token.scan source = .ok ts := Token.scan_of_scanWithin 40 (by decide +kernel)
  have hnest : WellNested ts := by decide
  refine ⟨hscan, hnest, ({} : Settings).view_compile 40 Compilation.hasErrors (by decide +kernel), ?_⟩
  apply (Settings.no_brace_fault_iff_bracesPair {} "" source ts hscan hnest).2
  decide +kernel

/-- Decorators alone lose the brace behind them, and its partner is blamed. -/
theorem Settings.brace_fault_of_stray_decorators :
    let source := "@dataclass \x7b\n\x7d\n"
    let ts : List Token := [⟨.atSign, "@", ⟨0, 1⟩⟩, ⟨.ident, "dataclass", ⟨1, 10⟩⟩,
      ⟨.openBrace, "\x7b", ⟨11, 12⟩⟩, ⟨.newline, "\n", ⟨12, 13⟩⟩,
      ⟨.closeBrace, "\x7d", ⟨13, 14⟩⟩, ⟨.newline, "\n", ⟨14, 15⟩⟩]
    Token.scan source = .ok ts ∧ WellNested ts ∧
      .error .splitting ⟨13, 14⟩ "unmatched `\x7d`" ∈
        (({} : Settings).compile "" source).diagnostics := by
  intro source ts
  have hmem : (({} : Settings).compile "" source).diagnostics.contains
      (.error .splitting ⟨13, 14⟩ "unmatched `\x7d`") = true :=
    ({} : Settings).view_compile 40 (fun r => r.diagnostics.contains
      (.error .splitting ⟨13, 14⟩ "unmatched `\x7d`")) (by decide +kernel)
  exact ⟨Token.scan_of_scanWithin 40 (by decide +kernel), by decide, List.contains_iff_mem.mp hmem⟩

end FuncDecl
