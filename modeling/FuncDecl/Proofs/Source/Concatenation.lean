import FuncDecl.Proofs.Source.Positions
import FuncDecl.Proofs.Source.Relocation

/-!
# Two texts in one file

A text without errors whose last line is a closing brace is compiled on its own, whatever stands
below it. Its braces are closed at its end, so what stands below it is compiled as in a file of its
own, unless it has a function with the name of a global function of the text above. The text above
must end in a brace: behind another line the pass may wait for the brace of a type, and a
declaration may go on in the next line.

* `Pass.step_withSource` and `Pass.run_withSource`: a chunk and a text without errors are passed
  over in the same way with another text below.
* `Pass.run_eq_of_clean`: the end of a text without errors.
* `Token.exists_scan_join`: the tokens of two texts in a row.
* `Pass.run_join`: the pass over two texts.
* `Compilation.followedBy`: what two texts are compiled to, one below the other.
* `Settings.compile_append_newline_append`: **compiling a file is local**.
-/

namespace FuncDecl

/-! ## The text above -/

namespace Pass

variable {ctx : PassContext} {p : Pass} {fs : List Compiled}

/-- A declaration that is reported without an error is accepted. -/
theorem exists_judge_ok_of_clean (hp : p.scope < p.tree.size) {unit : List Token}
    (hclean : ∀ x ∈ (p.stepDeclaration ctx unit).2.diagnostics, x.isError = false) :
    ∃ h c, ctx.compiler.judge unit (p.tree.nest p.scope .function "") (p.tree.get p.scope) =
      .ok (h, c) := by
  cases hjudge : ctx.compiler.judge unit (p.tree.nest p.scope .function "") (p.tree.get p.scope) with
  | ok found => exact ⟨found.1, found.2, rfl⟩
  | error fault =>
    rw [stepDeclaration_of_judge_error ctx hp hjudge] at hclean
    rcases settled_refused ctx fault with ⟨c, hfunctions, -⟩ | ⟨-, x, hx, herror⟩
    · rw [functions_refused] at hfunctions
      exact absurd hfunctions (by simp)
    · rw [hclean x (by rw [hx]; exact List.mem_singleton_self x)] at herror
      exact absurd herror (by decide)

/-- A chunk that is reported without an error is passed over in the same way in any text that has the
functions so far on the same lines. -/
theorem step_withSource (h : p.Grounded fs) {source : String}
    (hlines : ∀ c ∈ fs, c.nameSpan.line source = c.nameSpan.line ctx.source) {c : Chunk}
    (hclean : ∀ x ∈ (p.step ctx c).2.diagnostics, x.isError = false) :
    p.step (ctx.withSource source) c = p.step ctx c := by
  cases c with
  | newline t => rfl
  | stray unit => rfl
  | line line => rfl
  | declaration unit =>
    obtain ⟨header, c, hjudge⟩ := exists_judge_ok_of_clean h.scope_lt hclean
    rw [step, step, stepDeclaration_of_judge_ok ctx h.scope_lt hjudge,
      stepDeclaration_of_judge_ok (ctx.withSource source) h.scope_lt hjudge]
    obtain ⟨-, -, hc⟩ := Compiler.judge_eq_ok_iff.mp hjudge
    have hshadows : ∀ span ∈ c.shadows, span.line source = span.line ctx.source := by
      intro span hspan
      rw [hc] at hspan
      obtain ⟨earlier, hearlier, -, rfl⟩ := h.exists_of_shadowed hspan
      exact hlines earlier hearlier
    have haccepted : accepted (ctx.withSource source) c = accepted ctx c := by
      unfold accepted
      cases hspan : c.shadows with
      | none => rfl
      | some span =>
        show (⟨[c], if ctx.warnings then [_] else []⟩ : Report) = _
        rw [show (ctx.withSource source).source = source from rfl, hshadows span hspan]
    rw [haccepted]

/-- A text without errors is passed over in the same way with another text below it. -/
theorem run_withSource (h : p.Grounded fs) (source : String) {cs : List Chunk}
    (hlines : ∀ c ∈ fs ++ (p.run ctx cs).2.functions,
      c.nameSpan.line source = c.nameSpan.line ctx.source)
    (hclean : ∀ x ∈ (p.run ctx cs).2.diagnostics, x.isError = false) :
    p.run (ctx.withSource source) cs = p.run ctx cs := by
  induction cs generalizing p fs with
  | nil => rfl
  | cons c cs ih =>
    rw [run_cons, Report.diagnostics_append, List.forall_mem_append] at hclean
    rw [run_cons, Report.functions_append, ← List.append_assoc] at hlines
    have hstep := step_withSource h (fun f hf =>
      hlines f (List.mem_append_left _ (List.mem_append_left _ hf))) hclean.1
    rw [run_cons, run_cons, hstep, ih (h.step ctx c) hlines hclean.2]

/-- In a text without errors no unit ends in a closing brace. -/
theorem kind_lastWord?_of_clean (h : p.Grounded fs) {cs : List Chunk}
    (hclean : ∀ x ∈ (p.run ctx cs).2.diagnostics, x.isError = false) {found : Bool}
    {unit : List Token} (hunit : .ofUnit found unit ∈ cs) :
    ∀ t ∈ lastWord? unit, t.kind ≠ .closeBrace := by
  induction cs generalizing p fs with
  | nil => exact absurd hunit List.not_mem_nil
  | cons c cs ih =>
    rw [run_cons, Report.diagnostics_append, List.forall_mem_append] at hclean
    rcases List.mem_cons.mp hunit with rfl | hlater
    · cases found with
      | true =>
        obtain ⟨header, c, hjudge⟩ := exists_judge_ok_of_clean h.scope_lt hclean.1
        exact Header.kind_lastWord? (Compiler.judge_eq_ok_iff.mp hjudge).1
      | false =>
        cases unit with
        | nil => exact fun t ht => absurd ht (by simp [lastWord?])
        | cons t unit =>
          have herror : true = false := hclean.1 _ (List.mem_singleton_self _)
          exact absurd herror (by decide)
    · exact ih (h.step ctx c) hclean.2 hlater

/-- Behind a closing brace no type declaration waits for its brace. -/
theorem pending_stepLine_brace {brace : Token} (hbrace : brace.kind = .closeBrace) (p : Pass) :
    (p.stepLine [brace]).1.pending = none := by
  have hhead : TypeHead.ofLine? [brace] = none := by
    rw [TypeHead.ofLine?, if_neg (by rw [hbrace]; decide)]
  have hannounce : p.announce [brace] = { p with pending := none } := by
    unfold announce
    rw [hhead]
    dsimp only
    rw [if_neg (by rw [hbrace]; decide)]
  rw [stepLine, hannounce]
  unfold stepTokens stepToken
  rw [hbrace]
  cases p.braces <;> rfl

/-- **The end of a text without errors.** If the last line of a text is a closing brace and the pass
over it reports no error, it ends as it began, except for the tree. -/
theorem run_eq_of_clean (h : p.Grounded fs) {ts : List Token} (hends : EndsInBrace ts)
    (hclean : ∀ x ∈ (p.run ctx (ctx.compiler.dialect.chunks ts)).2.diagnostics, x.isError = false)
    (hclosed : (p.run ctx (ctx.compiler.dialect.chunks ts)).1.braces = []) :
    (p.run ctx (ctx.compiler.dialect.chunks ts)).1 =
      { tree := (p.run ctx (ctx.compiler.dialect.chunks ts)).1.tree } := by
  obtain ⟨cs, brace, trail, hbrace, hchunks⟩ := Dialect.exists_chunks_eq_line_brace hends
    fun found unit hunit => kind_lastWord?_of_clean h hclean hunit
  have hpending : (p.run ctx (ctx.compiler.dialect.chunks ts)).1.pending = none := by
    have hnewlines := run_newlines ctx ((p.run ctx cs).1.stepLine [brace]).1 trail []
    rw [List.append_nil] at hnewlines
    rw [hchunks, run_append, run_cons]
    show (((p.run ctx cs).1.stepLine [brace]).1.run ctx (trail.map Chunk.newline)).1.pending = none
    rw [hnewlines]
    exact pending_stepLine_brace hbrace _
  rw [← hclosed, ← hpending]

end Pass

/-! ## Both texts -/

section Lines

variable (a b : String) (span : Span)

/-- Lines of the text below. -/
theorem Span.line_shift : (span.shift (a.utf8ByteSize + 1)).line (a ++ "\n" ++ b) =
    span.line b + (a.toList.count '\n' + 1) := by
  have htext : (a ++ "\n" ++ b).toList = (a.toList ++ ['\n']) ++ b.toList := by simp
  have hbytes : span.start + (a.utf8ByteSize + 1) =
      span.start + Text.byteLength (a.toList ++ ['\n']) := by
    rw [Text.byteLength_append, Text.byteLength_toList]
    rfl
  show Text.lineFeedsWithin (span.start + (a.utf8ByteSize + 1)) _ + 1 = _
  rw [htext, hbytes, Text.lineFeedsWithin_add, List.count_append, line]
  show _ + (_ + 1) + 1 = _
  omega

variable {a span} in
/-- Lines of the text above. -/
theorem Span.line_append_of_valid (h : span.Valid a) : span.line (a ++ "\n" ++ b) = span.line a := by
  have htext : (a ++ "\n" ++ b).toList = a.toList ++ '\n' :: b.toList := by simp
  have hle : span.start ≤ Text.byteLength a.toList := by
    rw [Text.byteLength_toList]
    exact Nat.le_trans h.start_le_stop h.stop_le
  rw [line, line, htext, Text.lineFeedsWithin_append hle]

end Lines

/-- The tokens of two texts in a row. -/
theorem Token.exists_scan_join {a b : String} {ts us : List Token} (ha : scan a = .ok ts)
    (hb : scan b = .ok us) : ∃ newline : Token, newline.kind = .newline ∧
      scan (a ++ "\n" ++ b) = .ok (ts ++ newline :: us.map (shift (a.utf8ByteSize + 1))) := by
  have htext : (a ++ "\n" ++ b).toList = a.toList ++ '\n' :: b.toList := by simp
  have hbelow := scanFrom_shift hb (a.utf8ByteSize + 1)
  rw [Nat.zero_add] at hbelow
  refine ⟨⟨.newline, "\n", ⟨a.utf8ByteSize, a.utf8ByteSize + 1⟩⟩, rfl, ?_⟩
  rw [scan, htext, scanFrom_append_newline ha, Text.byteLength_toList, Nat.zero_add,
    scanFrom_newline, hbelow]
  rfl

namespace Pass

/-- The braces that the text below leaves open. -/
theorem unclosed_graft (p : Pass) (first : Scope.Tree) (n lines : Nat) (stop : Span) :
    (p.graft n first).unclosed (stop.shift n) = (p.unclosed stop).relocate n lines := by
  show (⟨[], (p.braces.map _).map _⟩ : Report) = ⟨[], (p.braces.map _).map _⟩
  rw [List.map_map, List.map_map]
  refine congrArg (Report.mk []) (List.map_congr_left fun brace _ => ?_)
  show Diagnostic.error .splitting ((brace.span.shift n).merge (stop.shift n)) _ =
    Diagnostic.error .splitting ((brace.span.merge stop).shift n) _
  rw [Span.merge_shift]
  rfl

/-- An open brace is an error. -/
theorem braces_eq_nil_of_clean {p : Pass} {stop : Span}
    (h : ∀ x ∈ (p.unclosed stop).diagnostics, x.isError = false) : p.braces = [] := by
  cases hbraces : p.braces with
  | nil => rfl
  | cons brace braces =>
    rw [unclosed, hbraces, List.map_cons, List.forall_mem_cons] at h
    have hfalse : true = false := h.1
    exact absurd hfalse (by decide)

/-- The functions of the text above stand on the same lines with another text below it. -/
theorem line_of_run {ctx : PassContext} {name : String} {k : Keywords} {a : String}
    {ts : List Token} {p : Pass} {report : Report} (ha : Token.scan a = .ok ts)
    (hrun : run ctx { tree := .new name k } (ctx.compiler.dialect.chunks ts) = (p, report))
    (b : String) : ∀ c ∈ report.functions,
      c.nameSpan.line (a ++ "\n" ++ b) = c.nameSpan.line a := by
  intro c hc
  have hrow := Token.row_of_scan ha
  have hnames := (placed_run hrow hrun).report.names
  obtain ⟨t, ht, hspan⟩ := List.mem_map.mp (hnames.subset (List.mem_map_of_mem hc))
  rw [← hspan]
  exact Span.line_append_of_valid b (hrow.valid t ht)

/-- The braces that are open at the end of two texts, if the text above leaves none open. -/
theorem unclosed_join {ctx : PassContext} {tree : Scope.Tree} {second : Pass} {later : Report}
    {us : List Token}
    (hsecond : run ctx { tree } (ctx.compiler.dialect.chunks us) = (second, later))
    (first : Scope.Tree) (n lines : Nat) (front : List Token) :
    (second.graft n first).unclosed (endSpan (front ++ us.map (Token.shift n))) =
      (second.unclosed (endSpan us)).relocate n lines := by
  by_cases hus : us = []
  · subst hus
    rw [Dialect.chunks] at hsecond
    obtain ⟨rfl, -⟩ := Prod.mk.inj hsecond
    rfl
  · have hend : endSpan (front ++ us.map (Token.shift n)) = (endSpan us).shift n := by
      rw [← endSpan_shift hus]
      unfold endSpan
      rw [List.getLast?_append_of_ne_nil _ (by simpa using hus)]
    rw [hend, unclosed_graft _ _ _ lines]

/-- The pass over two texts, of which the upper one has no errors and ends in a brace. -/
theorem run_join {ctx : PassContext} {name : String} {k : Keywords} {below source : String}
    {n lines : Nat} {ts us : List Token} {newline : Token} (hends : EndsInBrace ts)
    (hnewline : newline.kind = .newline) {first second : Pass} {above later : Report}
    (hfirst : run ctx { tree := .new name k } (ctx.compiler.dialect.chunks ts) = (first, above))
    (hsecond : run (ctx.withSource below) { tree := .new name k } (ctx.compiler.dialect.chunks us) =
      (second, later))
    (hclean : ∀ x ∈ above.diagnostics, x.isError = false) (hclosed : first.braces = [])
    (habove : ∀ c ∈ above.functions, c.nameSpan.line source = c.nameSpan.line ctx.source)
    (hbelow : ∀ span : Span, (span.shift n).line source = span.line below + lines)
    (hnew : ∀ c ∈ later.functions, c.name ∉ (first.tree.get Scope.Tree.root).functions.names) :
    run (ctx.withSource source) { tree := .new name k }
        (ctx.compiler.dialect.chunks (ts ++ newline :: us.map (Token.shift n))) =
      (second.graft n first.tree, above ++ later.relocate n lines) := by
  have hstart : Rooted [] { tree := .new name k } := .new name k
  have hrooted := hstart.run ctx (ctx.compiler.dialect.chunks ts)
  have hclean' : ∀ x ∈ (run ctx { tree := .new name k }
      (ctx.compiler.dialect.chunks ts)).2.diagnostics, x.isError = false := by
    rw [hfirst]
    exact hclean
  have hend := run_eq_of_clean hstart.grounded hends hclean' (by rw [hfirst]; exact hclosed)
  have hupper := run_withSource hstart.grounded source (by rw [hfirst]; exact habove) hclean'
  rw [hfirst] at hend hupper hrooted
  -- the text below begins in the state that a file of its own begins in, behind the first tree
  have hbegin : graft n first.tree { tree := .new name k } = first := by
    refine Eq.trans ?_ hend.symm
    show Pass.mk (first.tree.graft n (.new name k)) [] none = Pass.mk first.tree [] none
    rw [Scope.Tree.graft_new hrooted.tree.nonempty]
  have hlines : ∀ span : Span,
      (span.shift n).line source = span.line (ctx.withSource below).source + lines := hbelow
  have hlower := run_graft hrooted.tree hstart hlines
    (ctx.compiler.dialect.tokens_ne_nil_of_mem_chunks us) (by rw [hsecond]; exact hnew)
  rw [hsecond, hbegin] at hlower
  rw [Dialect.chunks_join hends (fun _ _ => kind_lastWord?_of_clean hstart.grounded hclean') hnewline,
    Dialect.chunks_shift, run_append, hupper, run_cons]
  show ((first.run ((ctx.withSource below).withSource source) _).1,
    above ++ (⟨[], []⟩ ++ (first.run ((ctx.withSource below).withSource source) _).2)) = _
  rw [hlower]
  rfl

end Pass

/-- What two texts are compiled to, one below the other: the functions and the diagnostics of the
second one behind those of the first one, and its scopes grafted to those of the first one. -/
def Compilation.followedBy (n lines : Nat) (first second : Compilation) : Compilation where
  functions := first.functions ++ second.functions.map (Compiled.shift n)
  diagnostics := first.diagnostics ++ second.diagnostics.map (Diagnostic.relocate n lines)
  scopes := first.scopes.graft n second.scopes

/-- **Compiling a file is local.** Let two texts be cut into tokens, the first one be compiled without
errors and end in a line with nothing but a closing brace, and let no function of the second one have
the name of a global function of the first one. Then the second text below the first one is compiled to
what it is compiled to alone, behind the first one: its places are moved by the bytes of the first text
and the line end, its scopes are renumbered, and the lines that its messages quote are raised by the
lines above it.
Source: `compile_source`, `declaration_end`, `compile_declaration`, `scan_line` and `finish`. -/
theorem Settings.compile_append_newline_append (s : Settings) (name : String) {a b : String}
    {ts us : List Token} (ha : Token.scan a = .ok ts) (hb : Token.scan b = .ok us)
    (hclean : (s.compile name a).hasErrors = false) (hends : EndsInBrace ts)
    (hnew : ∀ c ∈ (s.compile name b).functions,
      c.name ∉ ((s.compile name a).scopes.get Scope.Tree.root).functions.names) :
    s.compile name (a ++ "\n" ++ b) =
      (s.compile name a).followedBy (a.utf8ByteSize + 1) (a.toList.count '\n' + 1)
        (s.compile name b) := by
  obtain ⟨⟨first, above⟩, hfirst⟩ : ∃ r, Pass.run (s.context name a) { tree := s.emptyTree name }
    ((s.context name a).compiler.dialect.chunks ts) = r := ⟨_, rfl⟩
  obtain ⟨⟨second, later⟩, hsecond⟩ : ∃ r, Pass.run (s.context name b) { tree := s.emptyTree name }
    ((s.context name b).compiler.dialect.chunks us) = r := ⟨_, rfl⟩
  have hcompileA := (s.compile_of_scan name ha).trans (PassContext.compile_of_run hfirst)
  have hcompileB := (s.compile_of_scan name hb).trans (PassContext.compile_of_run hsecond)
  rw [hcompileA] at hclean
  rw [hcompileA, hcompileB] at hnew
  have herrors : (∀ x ∈ above.diagnostics, x.isError = false) ∧
      ∀ x ∈ (first.unclosed (endSpan ts)).diagnostics, x.isError = false := by
    simpa [Compilation.hasErrors] using hclean
  -- what the first text leaves open would be an error
  have hclosed := Pass.braces_eq_nil_of_clean herrors.2
  have hunclosed : (first.unclosed (endSpan ts)).diagnostics = [] := by
    rw [Pass.unclosed, hclosed]
    rfl
  obtain ⟨newline, hnewline, hscan⟩ := Token.exists_scan_join ha hb
  have hrun := Pass.run_join hends hnewline hfirst hsecond herrors.1 hclosed
    (Pass.line_of_run ha hfirst b) (Span.line_shift a b) hnew
  have hopen := Pass.unclosed_join hsecond first.tree (a.utf8ByteSize + 1)
    (a.toList.count '\n' + 1) (ts ++ [newline])
  rw [List.append_assoc, List.singleton_append] at hopen
  -- the texts differ in nothing but the source that lines are counted in
  have hcompile := (s.compile_of_scan name hscan).trans (PassContext.compile_of_run hrun)
  rw [hcompile, hcompileA, hcompileB, hunclosed, hopen]
  show Compilation.mk _ _ _ = Compilation.mk _ (_ ++ [] ++ List.map _ (_ ++ _)) _
  rw [List.append_nil, List.map_append, ← List.append_assoc]
  rfl

/-- A function in a function and, below it, a file that has a method twice and leaves its class open:
the methods are said to be defined on line 11, which is line 6 of their own text. -/
theorem Settings.compile_append_newline_append_of_class :
    let s : Settings := {}
    let a := "fn of() \x7b\nfn of() \x7b\n\x7d\n\x7d\n"
    let b := "fn by() \x7b\n\x7d\n\n\nclass V \x7b\nfn at() \x7b\n\x7d\nfn at() \x7b"
    let joined := s.compile "v" (a ++ "\n" ++ b)
    joined = (s.compile "v" a).followedBy 25 5 (s.compile "v" b) ∧
      joined.functions.map (fun c => (c.name, c.nameSpan)) =
        [("of", ⟨3, 5⟩), ("of", ⟨13, 15⟩), ("by", ⟨28, 30⟩), ("at", ⟨52, 54⟩)] ∧
      joined.diagnostics =
        [.warning .registration ⟨13, 15⟩ "function `of` shadows the definition on line 1",
          .error .registration ⟨64, 66⟩
            "Function `at` is already defined in this scope; first defined on line 11",
          .error .splitting ⟨69, 70⟩ "unclosed `\x7b`", .error .splitting ⟨47, 70⟩ "unclosed `\x7b`"] ∧
      joined.scopes.scopes.toList.map (fun scope => (scope.parent, scope.functions.names)) =
        [(none, ["of", "by"]), (some 0, ["of"]), (some 1, []), (some 0, []), (some 0, ["at"]),
          (some 4, []), (some 4, [])] := by
  intro s a b joined
  have ha : Token.scan a = .ok ([⟨.ident, "fn", ⟨0, 2⟩⟩, ⟨.ident, "of", ⟨3, 5⟩⟩,
      ⟨.openParen, "(", ⟨5, 6⟩⟩, ⟨.closeParen, ")", ⟨6, 7⟩⟩, ⟨.openBrace, "\x7b", ⟨8, 9⟩⟩,
      ⟨.newline, "\n", ⟨9, 10⟩⟩, ⟨.ident, "fn", ⟨10, 12⟩⟩, ⟨.ident, "of", ⟨13, 15⟩⟩,
      ⟨.openParen, "(", ⟨15, 16⟩⟩, ⟨.closeParen, ")", ⟨16, 17⟩⟩, ⟨.openBrace, "\x7b", ⟨18, 19⟩⟩,
      ⟨.newline, "\n", ⟨19, 20⟩⟩, ⟨.closeBrace, "\x7d", ⟨20, 21⟩⟩, ⟨.newline, "\n", ⟨21, 22⟩⟩] ++
      ⟨.closeBrace, "\x7d", ⟨22, 23⟩⟩ :: [⟨.newline, "\n", ⟨23, 24⟩⟩]) :=
    Token.scan_of_scanWithin 50 (by decide +kernel)
  have hb : Token.scan b =
      .ok (((Token.scanWithin 80 0 b.toList).bind Except.toOption).getD []) :=
    Token.scan_of_scanWithin 80 (by decide +kernel)
  have hclean : (s.compile "v" a).hasErrors = false :=
    s.view_compile 50 Compilation.hasErrors (by decide +kernel)
  have hroot : ((s.compile "v" a).scopes.get Scope.Tree.root).functions.names = ["of"] :=
    s.view_compile 50 (fun r => (r.scopes.get Scope.Tree.root).functions.names) (by decide +kernel)
  have hnames : ∀ c ∈ (s.compile "v" b).functions, c.name ∉ ["of"] :=
    of_decide_eq_true (s.view_compile 80
      (fun r => decide (∀ c ∈ r.functions, c.name ∉ ["of"])) (by decide +kernel))
  have hbytes : a.utf8ByteSize + 1 = 25 := by decide +kernel
  have hlines : a.toList.count '\n' + 1 = 5 := by decide +kernel
  have hjoined := s.compile_append_newline_append "v" ha hb hclean
    ⟨_, _, _, rfl, rfl, by decide, by decide⟩ (by rwa [hroot])
  rw [hbytes, hlines] at hjoined
  refine ⟨hjoined, ?_, ?_, ?_⟩
  · apply s.view_compile 100 fun r => r.functions.map fun c => (c.name, c.nameSpan)
    decide +kernel
  · apply s.view_compile 100 Compilation.diagnostics
    decide +kernel
  · apply s.view_compile 100 fun r => r.scopes.scopes.toList.map fun scope =>
      (scope.parent, scope.functions.names)
    decide +kernel

end FuncDecl
