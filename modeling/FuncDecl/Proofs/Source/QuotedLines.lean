import FuncDecl.Proofs.Declaration.Causes
import FuncDecl.Proofs.Source.Ledger
import FuncDecl.Proofs.Source.Relocation

/-!
# The lines that messages quote

The line of a place is counted in the line feeds of the source. A message quotes a line if a name is
defined again in its scope or hides one further out, and all other messages end with a character
that is no digit. So the number at the end of a message tells which function the scopes had at the
time. By the ledger of the pass it is the last one in front of the declaration.

* `Token.OnLine`: the line of a token, counted in the tokens that end a line. It is the same
  (`Token.line_of_scan`), since no line feed is in a comment or in the text of another token.
* `Text.endsPlain`: a text ends with a character that is no digit. A number behind such a text can
  be read off (`Text.append_number_inj`).
* `Cause.endsPlain_message`: no cause of a fault ends with a number.
* `Pass.QuotesSpan`: what a diagnostic about the name of a function says of an earlier one.
* `Pass.endsPlain_or_quotesSpan`: every diagnostic of a chunk ends plain or quotes a line.
* `Pass.Quotes`: a diagnostic is about the name of a declaration, and it quotes a line.
* `Settings.quoted_lines`: **the lines of tokens and of messages agree**.
-/

namespace FuncDecl

/-! ## The lines of tokens -/

namespace Token

/-- A token is found behind the tokens in front of it and as many line feeds as they have line ends. -/
theorem Woven.exists_before {offset : Nat} {cs : List Char} {front back : List Token} {t : Token}
    (h : Woven offset cs (front ++ t :: back)) :
    ∃ before after, cs = before ++ after ∧ t.span.start = offset + Text.byteLength before ∧
      before.count '\n' = front.countP isNewline := by
  induction front generalizing offset cs with
  | nil =>
    cases h with
    | @token _ gap text rest kind _ hgap piece behind =>
      exact ⟨gap, text ++ rest, rfl, rfl, List.count_eq_zero.mpr hgap.newline_not_mem⟩
  | cons u front ih =>
    cases h with
    | @token _ gap text rest kind _ hgap piece behind =>
      obtain ⟨before, after, rfl, hstart, hcount⟩ := ih behind
      refine ⟨gap ++ (text ++ before), after, by simp, ?_, ?_⟩
      · rw [hstart, Text.byteLength_append, Text.byteLength_append, Nat.add_assoc, Nat.add_assoc]
      · rw [List.count_append, List.count_append, List.count_eq_zero.mpr hgap.newline_not_mem, hcount,
          Nat.zero_add, List.countP_cons, Nat.add_comm]
        congr 1
        rcases piece.newline with ⟨rfl, rfl⟩ | ⟨hkind, hline⟩
        · rfl
        · rw [List.count_eq_zero.mpr hline, if_neg]
          rwa [isNewline, beq_iff_eq]

/-- The token is one of a row, on the given line: one more than the number of line ends in front of
it. -/
def OnLine (ts : List Token) (line : Nat) (t : Token) : Prop :=
  ∃ front back, ts = front ++ t :: back ∧ line = front.countP isNewline + 1

/-- The line of a span is counted from the line feeds of the source. For a token it is its line among
the tokens. -/
theorem line_of_scan {source : String} {front back : List Token} {t : Token}
    (h : scan source = .ok (front ++ t :: back)) :
    t.span.line source = front.countP isNewline + 1 := by
  obtain ⟨before, after, hsource, hstart, hcount⟩ := (Woven.of_scanFrom h).exists_before
  have hfeeds := Text.lineFeedsWithin_add before after 0
  have hnone : Text.lineFeedsWithin 0 after = 0 := by
    cases after <;> rfl
  rw [hnone, Nat.zero_add, Nat.zero_add] at hfeeds
  rw [Span.line, hsource, hstart, Nat.zero_add, hfeeds, hcount]

/-- A token in front of another one is on no later line. -/
theorem exists_lines {front middle : List Token} {t u : Token} (hu : u ∈ front)
    (ht : t ∈ middle) (back : List Token) :
    ∃ earlier later, u.OnLine (front ++ middle ++ back) earlier ∧
      t.OnLine (front ++ middle ++ back) later ∧ earlier ≤ later := by
  obtain ⟨before, between, rfl⟩ := List.append_of_mem hu
  obtain ⟨between', after, rfl⟩ := List.append_of_mem ht
  refine ⟨_, _, ⟨before, between ++ (between' ++ t :: after) ++ back, by simp, rfl⟩,
    ⟨before ++ u :: between ++ between', after ++ back, by simp, rfl⟩, ?_⟩
  rw [List.append_assoc, List.countP_append]
  omega

end Token

/-! ## Numbers at the end of a text -/

namespace Text

/-- Whether a text ends with a character that is no digit. -/
def endsPlain (text : String) : Bool :=
  text.toList.getLast?.any (!·.isDigit)

/-- A text ends as its last part does. -/
theorem endsPlain_append (front : String) {text : String} (h : endsPlain text = true) :
    endsPlain (front ++ text) = true := by
  unfold endsPlain at h ⊢
  rw [String.toList_append, List.getLast?_append]
  cases hlast : text.toList.getLast? with
  | none =>
    rw [hlast] at h
    exact absurd h Bool.false_ne_true
  | some c =>
    rw [hlast] at h
    exact h

/-- Behind a text that ends plain there are no digits that belong to it. -/
theorem eq_nil_of_endsPlain {text : String} {front digits : List Char} (h : endsPlain text = true)
    (htext : text.toList = front ++ digits) (hdigits : ∀ c ∈ digits, c.isDigit = true) :
    digits = [] := by
  by_contra hne
  rw [endsPlain, htext, List.getLast?_append_of_ne_nil _ hne, List.getLast?_eq_some_getLast hne,
    Option.any_some, hdigits _ (List.getLast_mem hne)] at h
  exact absurd h Bool.false_ne_true

/-- A text with a number at its end does not end plain. -/
theorem endsPlain_append_number (front : String) (n : Nat) :
    endsPlain (front ++ toString n) = false := by
  rw [← Bool.not_eq_true]
  intro h
  exact Nat.toDigits_ne_nil
    (eq_nil_of_endsPlain h (toList_append_number front n) (isDigit_toDigits n))

/-- A number that ends a text can be read off. -/
theorem append_number_inj {a b : String} {m n : Nat} (ha : endsPlain a = true)
    (hb : endsPlain b = true) (h : a ++ toString m = b ++ toString n) : a = b ∧ m = n := by
  have hlists := congrArg String.toList h
  rw [toList_append_number, toList_append_number] at hlists
  have hboth : a.toList = b.toList ∧ Nat.toDigits 10 m = Nat.toDigits 10 n := by
    rcases List.append_eq_append_iff.mp hlists with ⟨middle, hfront, hback⟩ | ⟨middle, hfront, hback⟩
    · obtain rfl := eq_nil_of_endsPlain hb hfront fun c hc =>
        isDigit_toDigits m c (by rw [hback]; exact List.mem_append_left _ hc)
      exact ⟨by rw [hfront, List.append_nil], hback⟩
    · obtain rfl := eq_nil_of_endsPlain ha hfront fun c hc =>
        isDigit_toDigits n c (by rw [hback]; exact List.mem_append_left _ hc)
      exact ⟨by rw [hfront, List.append_nil], hback.symm⟩
  refine ⟨String.toList_inj.mp hboth.1, ?_⟩
  rw [← Nat.ofDigitChars_ten_toDigits (n := m), hboth.2, Nat.ofDigitChars_ten_toDigits]

/-- Texts may be grouped in another way between two others. -/
theorem append_regroup {a b c d : String} (h : a ++ b = c ++ d) (front back : String) :
    front ++ a ++ b ++ back = front ++ c ++ d ++ back := by
  have hleft : front ++ a ++ b = front ++ (a ++ b) := String.append_assoc
  rw [hleft, h, ← String.append_assoc]

end Text

/-! ## Messages -/

/-- No flaw of a parameter ends with a number. -/
theorem Flaw.endsPlain_message (f : Flaw) : Text.endsPlain f.message = true := by
  cases f with
  | noParameterName => decide +kernel
  | noFunctionName found => exact Text.endsPlain_append _ (by decide +kernel)
  | noReturnType => decide +kernel
  | noBodyMark => decide +kernel
  | afterParameters found => exact Text.endsPlain_append _ (by decide +kernel)
  | afterHeader found => exact Text.endsPlain_append _ (by decide +kernel)

/-- No cause of a fault ends with a number. -/
theorem Cause.endsPlain_message (c : Cause) : Text.endsPlain c.message = true := by
  cases c with
  | endOfInput => decide +kernel
  | unbalancedGenerics => decide +kernel
  | malformed flaw => exact Text.endsPlain_append _ flaw.endsPlain_message
  | _ => exact Text.endsPlain_append _ (by decide +kernel)

/-- No fault of cutting ends with a number. -/
theorem LexFault.endsPlain_message (f : LexFault) : Text.endsPlain f.message = true := by
  unfold message
  split
  · decide +kernel
  · exact Text.endsPlain_append _ (Text.endsPlain_append _ (by decide +kernel))

/-- What is said of a name that is defined again, in front of the line and its phrase. -/
theorem duplicate_wording (name : String) (previous : Span) (line : String) :
    (Cause.duplicateFunction name previous).message ++ "; first defined on line " ++ line =
      "Function `" ++ name ++ "` is already defined in this scope; " ++ "first defined on line " ++
        line := by
  have hwords : "` is already defined in this scope" ++ "; first defined on line " =
      "` is already defined in this scope; " ++ "first defined on line " := by decide +kernel
  exact Text.append_regroup hwords ("Function `" ++ name) line

/-- What is said of a name that hides another one, in front of the line and its phrase. -/
theorem shadow_wording (name line : String) :
    "function `" ++ name ++ "` shadows the definition on line " ++ line =
      "function `" ++ name ++ "` " ++ "shadows the definition on line " ++ line := by
  have hwords : "` shadows the definition on line " = "` " ++ "shadows the definition on line " := by
    decide +kernel
  rw [hwords, ← String.append_assoc]

/-- The phrase for a name that is defined again ends plain in front of its number. -/
theorem endsPlain_first (front : String) :
    Text.endsPlain (front ++ "first defined on line ") = true :=
  Text.endsPlain_append front (by decide +kernel)

/-- So does the phrase for a name that hides another one. -/
theorem endsPlain_shadows (front : String) :
    Text.endsPlain (front ++ "shadows the definition on line ") = true :=
  Text.endsPlain_append front (by decide +kernel)

/-- The two phrases that quote a line are told apart by their ends. -/
theorem phrases_ne (a b : String) :
    a ++ "first defined on line " ≠ b ++ "shadows the definition on line " := by
  intro h
  have hlists := congrArg String.toList h
  rw [String.toList_append, String.toList_append] at hlists
  have hfirst : "first defined on line ".toList <:+
      b.toList ++ "shadows the definition on line ".toList := ⟨a.toList, hlists⟩
  have hsecond := List.suffix_append b.toList "shadows the definition on line ".toList
  exact absurd (List.suffix_of_suffix_length_le hfirst hsecond (by decide)) (by decide)

namespace Pass

variable {ctx : PassContext} {p : Pass}

/-- What a diagnostic about the name of a function says: the line on which the name was defined
first, as the scope has it, or the line of the definition that it hides. -/
inductive QuotesSpan (ctx : PassContext) (p : Pass) (name : String) (message : String) : Prop
  | duplicate {previous : Signature}
      (hfind : (p.tree.get p.scope).functions.find? name = some previous)
      (hmessage : message = "Function `" ++ name ++ "` is already defined in this scope; " ++
        "first defined on line " ++ toString (previous.span.line ctx.source))
  | shadow {earlier : Span}
      (hshadows : Compiler.shadowed? (p.tree.nest p.scope .function "") (p.tree.get p.scope) name =
        some earlier)
      (hmessage : message = "function `" ++ name ++ "` " ++
        "shadows the definition on line " ++ toString (earlier.line ctx.source))

/-- A diagnostic ends plain, or it is about the name of a declaration and quotes a line. -/
theorem endsPlain_or_quotesSpan (hp : p.scope < p.tree.size) {c : Chunk} {x : Diagnostic}
    (hx : x ∈ (p.step ctx c).2.diagnostics) :
    Text.endsPlain x.message = true ∨
      ∃ unit h, c = .declaration unit ∧ Header.read ctx.compiler.dialect unit = .ok h ∧
        x.span = h.name.span ∧ QuotesSpan ctx p h.name.text x.message := by
  cases c with
  | newline t => exact absurd hx List.not_mem_nil
  | stray ts =>
    obtain ⟨span, rfl⟩ := eq_of_mem_stray hx
    left
    show Text.endsPlain "decorators must be followed by a function declaration" = true
    decide +kernel
  | line ts =>
    obtain ⟨span, rfl⟩ := eq_of_mem_stepTokens hx
    left
    show Text.endsPlain "unmatched `\x7d`" = true
    decide +kernel
  | declaration unit =>
    rw [step] at hx
    rcases stepDeclaration_cases ctx hp unit with
      ⟨fault, hjudge, -, hstep⟩ | ⟨h, hread, -, -, hstep⟩
    · obtain ⟨cause, span⟩ := fault
      rw [hstep] at hx
      -- of all refusals only a duplicate quotes a line
      rcases refused_cases ctx ⟨cause, span⟩ with ⟨name, previous, hcause, hrefused⟩ | hrefused
      · rw [hrefused] at hx
        obtain rfl : cause = .duplicateFunction name previous := hcause
        obtain ⟨h, signature, hread, hfind, rfl, rfl, rfl⟩ :=
          Compiler.exists_of_judge_duplicate hjudge
        rw [List.mem_singleton.mp hx]
        exact .inr ⟨unit, h, rfl, hread, rfl, .duplicate hfind (duplicate_wording ..)⟩
      · rw [hrefused] at hx
        rw [List.mem_singleton.mp hx]
        exact .inl (Cause.endsPlain_message cause)
    · rw [hstep] at hx
      obtain ⟨earlier, hshadows, rfl⟩ := eq_of_mem_accepted hx
      exact .inr ⟨unit, h, rfl, hread, rfl, .shadow hshadows (shadow_wording ..)⟩

namespace QuotesSpan

variable {name message lead : String} {line : Nat}

/-- A message that tells of a first definition is about a name that its scope has. -/
theorem exists_duplicate (h : QuotesSpan ctx p name message)
    (hmessage : message = lead ++ "first defined on line " ++ toString line) :
    lead = "Function `" ++ name ++ "` is already defined in this scope; " ∧
      ∃ previous, (p.tree.get p.scope).functions.find? name = some previous ∧
        line = previous.span.line ctx.source := by
  cases h with
  | duplicate hfind htext =>
    obtain ⟨hlead, hline⟩ := Text.append_number_inj (endsPlain_first _) (endsPlain_first _)
      (hmessage.symm.trans htext)
    exact ⟨(String.append_left_inj _).mp hlead, _, hfind, hline⟩
  | shadow hshadows htext =>
    have hphrases := Text.append_number_inj (endsPlain_first _) (endsPlain_shadows _)
      (hmessage.symm.trans htext)
    exact absurd hphrases.1 (phrases_ne _ _)

/-- A message that tells of a hidden definition is about a name that is found further out. -/
theorem exists_shadow (h : QuotesSpan ctx p name message)
    (hmessage : message = lead ++ "shadows the definition on line " ++ toString line) :
    lead = "function `" ++ name ++ "` " ∧
      ∃ earlier, Compiler.shadowed? (p.tree.nest p.scope .function "") (p.tree.get p.scope) name =
          some earlier ∧ line = earlier.line ctx.source := by
  cases h with
  | duplicate hfind htext =>
    have hphrases := Text.append_number_inj (endsPlain_first _) (endsPlain_shadows _)
      (htext.symm.trans hmessage)
    exact absurd hphrases.1 (phrases_ne _ _)
  | shadow hshadows htext =>
    obtain ⟨hlead, hline⟩ := Text.append_number_inj (endsPlain_shadows _) (endsPlain_shadows _)
      (hmessage.symm.trans htext)
    exact ⟨(String.append_left_inj _).mp hlead, _, hshadows, hline⟩

end QuotesSpan

/-- A diagnostic of a pass is one of a chunk. -/
theorem exists_of_mem_run {cs : List Chunk} {x : Diagnostic}
    (hx : x ∈ (p.run ctx cs).2.diagnostics) :
    ∃ front c back, cs = front ++ c :: back ∧
      x ∈ ((p.run ctx front).1.step ctx c).2.diagnostics := by
  induction cs generalizing p with
  | nil => exact absurd hx List.not_mem_nil
  | cons c cs ih =>
    rw [run_cons] at hx
    rcases List.mem_append.mp hx with hx | hx
    · exact ⟨[], c, cs, rfl, hx⟩
    · obtain ⟨front, d, back, hcs, hd⟩ := ih hx
      exact ⟨c :: front, d, back, by rw [hcs, List.cons_append], hd⟩

end Pass

/-! ## Quoted lines -/

/-- A diagnostic is about the name of the declaration behind the chunks `front`, and it quotes a
line. -/
structure Pass.Quotes (ctx : PassContext) (start : Pass) (ts : List Token) (front : List Chunk)
    (name : String) (scope : Scope.Id) (x : Diagnostic) (line : Nat) : Prop where
  /-- The diagnostic is placed at the name, which is on that line or a later one. -/
  own : ∃ t later, ctx.compiler.dialect.Declares (ctx.compiler.dialect.chunks ts) front name t ∧
    x.span = t.span ∧ t.OnLine ts later ∧ line ≤ later
  /-- The line is that of the name in an earlier declaration, and of the functions with this name
  that were registered in the scope this one was the last. -/
  earlier : ∃ c ∈ ((start.ledger ctx front).named scope name).getLast?,
    ∃ before u, ctx.compiler.dialect.Declares front before name u ∧ c.nameSpan = u.span ∧
      u.OnLine ts line

namespace Pass

variable {ctx : PassContext} {name : String} {k : Keywords} {ts : List Token} {front back : List Chunk}
  {unit : List Token} {h : Header}

/-- The place that is registered under a name is quoted by its line. -/
theorem quotes_of_find? (hscan : Token.scan ctx.source = .ok ts)
    (hchunks : ctx.compiler.dialect.chunks ts = front ++ .declaration unit :: back)
    (hread : Header.read ctx.compiler.dialect unit = .ok h) {scope : Scope.Id}
    {previous : Signature}
    (hfind : ((run ctx { tree := .new name k } front).1.tree.get scope).functions.find? h.name.text =
      some previous) {x : Diagnostic} (hx : x.span = h.name.span) :
    Quotes ctx { tree := .new name k } ts front h.name.text scope x
      (previous.span.line ctx.source) := by
  have hrecorded := Recorded.of_run ctx name k front
  rw [hrecorded.records.find?] at hfind
  obtain ⟨c, hc, rfl⟩ := Option.map_eq_some_iff.mp hfind
  obtain ⟨hscope, hname⟩ := List.mem_filter.mp (List.mem_of_getLast? hc)
  obtain ⟨before, u, hearlier, huspan⟩ := hrecorded.names _ ((Ledger.mem_inScope ..).mp hscope)
  obtain ⟨t, ht, htspan, hown⟩ := Dialect.Declares.of_read hread front back
  have htokens := ctx.compiler.dialect.flatMap_tokens_chunks ts
  rw [hchunks, List.flatMap_append, List.flatMap_cons, ← List.append_assoc] at htokens
  obtain ⟨line, later, huline, htline, hle⟩ :=
    Token.exists_lines hearlier.mem_tokens ht (back.flatMap Chunk.tokens)
  rw [Chunk.tokens] at htokens
  rw [htokens] at huline htline
  have hline : c.signature.span.line ctx.source = line := by
    obtain ⟨front, back, rfl, rfl⟩ := huline
    rw [← Token.line_of_scan hscan, ← huspan]
    rfl
  rw [hline]
  rw [of_decide_eq_true hname] at hearlier
  exact ⟨⟨t, later, hchunks ▸ hown, hx.trans htspan, htline, hle⟩,
    c, hc, before, u, hearlier, huspan, huline⟩

end Pass

namespace Settings

variable {s : Settings} {name source : String} {x : Diagnostic}

/-- A diagnostic that ends with a number is about a declaration that can be read. -/
theorem exists_quotesSpan (hx : x ∈ (s.compile name source).diagnostics)
    (hnumber : Text.endsPlain x.message = false) :
    ∃ ts front unit back h, Token.scan source = .ok ts ∧
      (s.context name source).compiler.dialect.chunks ts = front ++ .declaration unit :: back ∧
      Header.read (s.context name source).compiler.dialect unit = .ok h ∧ x.span = h.name.span ∧
      Pass.QuotesSpan (s.context name source)
        (Pass.run (s.context name source) { tree := s.emptyTree name } front).1 h.name.text
        x.message := by
  cases hscan : Token.scan source with
  | error fault =>
    rw [compile, hscan] at hx
    rw [List.mem_singleton.mp hx] at hnumber
    exact absurd (fault.endsPlain_message.symm.trans hnumber) (by decide)
  | ok ts =>
    rw [s.compile_of_scan name hscan] at hx
    rcases List.mem_append.mp hx with hx | hx
    · obtain ⟨front, c, back, hchunks, hstep⟩ := Pass.exists_of_mem_run hx
      have hrecorded := Pass.Recorded.of_run (s.context name source) name s.spellings front
      rcases Pass.endsPlain_or_quotesSpan hrecorded.scope_lt hstep with
        hplain | ⟨unit, h, rfl, hread, hspan, hquotes⟩
      · exact absurd (hplain.symm.trans hnumber) (by decide)
      · exact ⟨ts, front, unit, back, h, rfl, hchunks, hread, hspan, hquotes⟩
    · obtain ⟨brace, -, rfl⟩ := List.mem_map.mp hx
      have hplain : Text.endsPlain "unclosed `\x7b`" = true := by decide
      exact absurd (hplain.symm.trans hnumber) (by decide)

end Settings

/-- **The lines of tokens and of messages agree.** The line of a token is one more than the number of
line ends in front of it. The line that a message quotes is that of the name in an earlier declaration,
and the name that is complained of is on no earlier line. If the name is defined again, the quoted line
is that of the function that was registered last under it in the scope of the declaration. If it hides
another one, it is that of the last in the first enclosing scope that has the name.
Source: `line_in`, `lex` and `compile_declaration`. -/
theorem Settings.quoted_lines (s : Settings) (name source : String) :
    let ctx := s.context name source
    let start : Pass := { tree := s.emptyTree name }
    let result := s.compile name source
    (∀ ts, Token.scan source = .ok ts →
      (∀ front t back, ts = front ++ t :: back →
        t.span.line source = front.countP Token.isNewline + 1) ∧
      result.functions = (start.ledger ctx (ctx.compiler.dialect.chunks ts)).map Prod.snd) ∧
    ∀ x ∈ result.diagnostics, ∀ (lead : String) (line : Nat),
      (x.message = lead ++ "first defined on line " ++ toString line →
        ∃ ts front given, Token.scan source = .ok ts ∧
          lead = "Function `" ++ given ++ "` is already defined in this scope; " ∧
          Pass.Quotes ctx start ts front given (start.run ctx front).1.scope x line) ∧
      (x.message = lead ++ "shadows the definition on line " ++ toString line →
        ∃ ts front given inner scope outer, Token.scan source = .ok ts ∧
          lead = "function `" ++ given ++ "` " ∧
          (start.run ctx front).1.tree.Enclosing (start.run ctx front).1.scope
            (inner ++ scope :: outer) ∧
          (∀ i ∈ inner, (start.ledger ctx front).named i given = []) ∧
          Pass.Quotes ctx start ts front given scope x line) := by
  intro ctx start result
  refine ⟨?_, ?_⟩
  · intro ts hscan
    refine ⟨?_, s.functions_eq_ledger name hscan⟩
    rintro front t back rfl
    exact Token.line_of_scan hscan
  intro x hx lead line
  refine ⟨?_, ?_⟩
  · intro hmessage
    have hnumber := Text.endsPlain_append_number (lead ++ "first defined on line ") line
    obtain ⟨ts, front, unit, back, h, hscan, hchunks, hread, hspan, hquotes⟩ :=
      exists_quotesSpan hx (hmessage ▸ hnumber)
    obtain ⟨hlead, previous, hfind, rfl⟩ := hquotes.exists_duplicate hmessage
    exact ⟨ts, front, h.name.text, hscan, hlead,
      Pass.quotes_of_find? hscan hchunks hread hfind hspan⟩
  · intro hmessage
    have hnumber := Text.endsPlain_append_number (lead ++ "shadows the definition on line ") line
    obtain ⟨ts, front, unit, back, h, hscan, hchunks, hread, hspan, hquotes⟩ :=
      exists_quotesSpan hx (hmessage ▸ hnumber)
    obtain ⟨hlead, earlier, hshadows, rfl⟩ := hquotes.exists_shadow hmessage
    have hrecorded := Pass.Recorded.of_run ctx name s.spellings front
    obtain ⟨inner, scope, outer, previous, henclosing, hinner, hfind, rfl⟩ :=
      hrecorded.nested.exists_of_shadowed? hrecorded.scope_lt hshadows
    refine ⟨ts, front, h.name.text, inner, scope, outer, hscan, hlead, henclosing, ?_,
      Pass.quotes_of_find? hscan hchunks hread hfind hspan⟩
    intro i hi
    exact hrecorded.records.named_eq_nil (hinner i hi)

/-- A function is replaced, and the line of the new one is quoted: for a method in its body that hides
it, past a class without the name, and for a function of the file. A comment names nothing. -/
theorem Settings.quoted_lines_of_replaced :
    let source := "fn f() \x7b\n\x7d\n~~ é fn f\nunsafe fn f() \x7b\nclass A \x7b\n" ++
      "fn f(s: S = '~~') \x7b\n\x7d\n\x7d\n\x7d\nfn f() \x7b"
    let s : Settings := {}
    let ctx := s.context "v" source
    let start : Pass := { tree := s.emptyTree "v" }
    let hides : Diagnostic :=
      .warning .registration ⟨51, 52⟩ "function `f` shadows the definition on line 4"
    let again : Diagnostic := .error .registration ⟨77, 78⟩
      "Function `f` is already defined in this scope; first defined on line 4"
    (s.compile "v" source).diagnostics =
        [hides, again, .error .splitting ⟨81, 82⟩ "unclosed `\x7b`"] ∧
      (∃ ts, Token.scan source = .ok ts ∧
        (∀ front t back, ts = front ++ t :: back →
          t.span.line source = front.countP Token.isNewline + 1) ∧
        ∃ front, Pass.Quotes ctx start ts front "f" (start.run ctx front).1.scope again 4) ∧
      ∃ ts front inner scope outer, Token.scan source = .ok ts ∧
        (start.run ctx front).1.tree.Enclosing (start.run ctx front).1.scope
          (inner ++ scope :: outer) ∧
        (∀ i ∈ inner, (start.ledger ctx front).named i "f" = []) ∧
        Pass.Quotes ctx start ts front "f" scope hides 4 := by
  intro source s ctx start hides again
  have hdiagnostics : (s.compile "v" source).diagnostics =
      [hides, again, .error .splitting ⟨81, 82⟩ "unclosed `\x7b`"] :=
    Settings.view_compile _ 100 Compilation.diagnostics (by decide +kernel)
  obtain ⟨hlines, hquoted⟩ := Settings.quoted_lines s "v" source
  refine ⟨hdiagnostics, ?_, ?_⟩
  · have hmem : again ∈ (s.compile "v" source).diagnostics := by
      rw [hdiagnostics]
      exact .tail _ (.head _)
    have hmessage : again.message = "Function `" ++ "f" ++ "` is already defined in this scope; " ++
        "first defined on line " ++ toString 4 := by decide +kernel
    obtain ⟨ts, front, given, hscan, hgiven, hquotes⟩ := (hquoted again hmem _ 4).1 hmessage
    obtain rfl : "f" = given := (String.append_right_inj _).mp ((String.append_left_inj _).mp hgiven)
    exact ⟨ts, hscan, (hlines ts hscan).1, front, hquotes⟩
  · have hmem : hides ∈ (s.compile "v" source).diagnostics := by
      rw [hdiagnostics]
      exact .head _
    have hmessage : hides.message = "function `" ++ "f" ++ "` " ++
        "shadows the definition on line " ++ toString 4 := by decide +kernel
    obtain ⟨ts, front, given, inner, scope, outer, hscan, hgiven, hquotes⟩ :=
      (hquoted hides hmem _ 4).2 hmessage
    obtain rfl : "f" = given := (String.append_right_inj _).mp ((String.append_left_inj _).mp hgiven)
    exact ⟨ts, front, inner, scope, outer, hscan, hquotes⟩

end FuncDecl
