import FuncDecl.Proofs.Declaration.Compiling
import FuncDecl.Proofs.Declaration.Reading
import FuncDecl.Proofs.Source.Chunks
import FuncDecl.Proofs.Source.Reports
import FuncDecl.Proofs.Token.Spelling

/-!
# A declaration that is the whole source

The end of a declaration is found twice: the chunks of a source are cut by `Dialect.extent`, which
knows parentheses, brackets and line ends, and the header is read by `Header.read`, which also knows
decorators, angle brackets and default values.

* `Dialect.HeldTogether`: the tokens of a header are cut as one chunk
  (`Dialect.extent_eq_iff_heldTogether`). A return type whose angle brackets reach over a line end
  is not.
* `PassContext.compile_unit`: a source that begins with a unit is compiled to what that unit and
  then the rest is reported for.
* `PassContext.compiles_alone`: a declaration that is cut as one chunk is compiled.
* `PassContext.heldTogether_of_compiles`: a declaration that is compiled alone was cut as one chunk.
* `Settings.compiles_alone_iff_heldTogether`: **cutting and reading agree on headers that are held
  together**. A source that is one declaration is compiled to the function of that declaration, and
  only blamed for its open brace, exactly if its header is held together.
-/

namespace FuncDecl

/-! ## One declaration -/

namespace Pass

/-- A declaration that is refused is blamed for something else than a brace. -/
theorem exists_error_of_refused (ctx : PassContext) (f : Fault) :
    ∃ x ∈ (refused ctx f).diagnostics, x.isError = true ∧ x.phase ≠ .splitting := by
  obtain ⟨phase, message, hphase, h⟩ := exists_refused ctx f
  rw [h]
  refine ⟨_, List.mem_singleton_self _, rfl, ?_⟩
  rcases hphase with rfl | rfl <;> simp [Diagnostic.error]

end Pass

namespace Dialect

variable (d : Dialect)

/-! ## Headers that are cut as one chunk -/

/-- The tokens of a header up to its mark, the mark, and the line ends behind it are cut as one
chunk: outside parentheses and brackets the tokens `core` have no mark and no line end at which the
chunk would end, the function keyword is there, and the mark is there or the last token of all. -/
structure HeldTogether (core : List Token) (mark : Token) (trail : List Token) : Prop where
  passes : d.Passes 0 false core (mark :: trail)
  keyword : d.keywordOutside 0 core = true
  closed : roundDepthAfter 0 core = 0 ∨ trail = []

/-- The walk ends at the mark exactly if the header is held together. -/
theorem extent_eq_iff_heldTogether {core trail : List Token} {mark : Token}
    (hmark : mark.kind = .openBrace) :
    d.extent 0 false (core ++ [mark] ++ trail) = ((core ++ [mark]).length, true) ↔
      d.HeldTogether core mark trail := by
  constructor
  · intro h
    rcases d.unit_split h with ⟨pre, mark', hpre, hpass, hdepth, -, hfound⟩ | ⟨hpass, hends, hfound⟩
    · obtain ⟨rfl, hmark'⟩ := List.append_inj' hpre rfl
      obtain rfl := List.singleton_inj.mp hmark'
      exact ⟨hpass, hfound.symm, Or.inl hdepth⟩
    · rw [d.keywordOutside_append, keywordOutside_cons] at hfound
      have hkeyword : d.isFunctionKeyword mark = false := by
        simp [isFunctionKeyword, Token.isName, hmark]
      refine ⟨(d.passes_append_iff.mp hpass).1, by simpa [hkeyword] using hfound.symm, ?_⟩
      rcases hends with htrail | hdepth
      · exact Or.inr htrail
      · rw [roundDepthAfter_append, roundDepthAfter_cons, hmark] at hdepth
        exact Or.inl hdepth
  · intro h
    have hpass := d.extent_append_of_passes h.passes
    rw [h.keyword, Bool.or_true] at hpass
    rw [List.append_assoc, List.singleton_append, hpass, List.length_append]
    by_cases h0 : roundDepthAfter 0 core = 0
    · rw [extent, if_pos ⟨h0, by rw [hmark]; rfl⟩]
      rfl
    · obtain rfl := h.closed.resolve_left h0
      rw [extent, if_neg fun hc => h0 hc.1, if_neg fun hc => h0 hc.1]
      rfl

/-- A header begins a declaration. -/
theorem opensDeclaration_of_read {d : Dialect} {ts : List Token} {h : Header}
    (hread : Header.read d ts = .ok h)
    (hplain : ∀ t ∈ ts, d.modifiers.contains t.text = true → t.kind = .ident) :
    d.opensDeclaration (skipNewlines ts) = true := by
  obtain ⟨c, hc⟩ := Header.read_eq_ok_iff.mp hread
  cases hts : skipNewlines ts with
  | nil =>
    have := hc.decorators
    rw [hts, Decorator.readAll_of_none rfl] at this
    have hmods := hc.modifiers
    rw [← (Prod.mk.inj this).2, readModifiers] at hmods
    simp at hmods
  | cons t rest =>
    rw [opensDeclaration]
    split
    · rfl
    · next hsign =>
      -- without a sign there are no decorators, so the modifiers come first
      have hdecs := hc.decorators
      rw [hts, Decorator.readAll_of_none (Decorator.read?_eq_none fun u hu => by
        rwa [← Option.some.inj hu])] at hdecs
      have hhead := (Prod.mk.inj hdecs).2
      obtain ⟨mods, hmods, hall, hkeyword, -⟩ := readModifiers_local hc.modifiers
      rw [hhead, hmods, List.find?_append, List.find?_eq_none.mpr, Option.none_or,
        List.find?_cons_of_pos]
      · exact hc.keyword
      · simp [isModifier, hkeyword]
      · intro u hu
        have hmem : u ∈ ts := by
          obtain ⟨gap, hgap, -⟩ := exists_append_skipNewlines ts
          rw [hgap, hts, hhead, hmods]
          simp [hu]
        simp [isModifier, hall u hu, hplain u hmem (hall u hu)]

end Dialect

/-- Two ways to split a list behind its last token that is no line end. -/
theorem eq_of_append_newlines {unit rest core trail : List Token} {mark : Token}
    (h : unit ++ rest = core ++ [mark] ++ trail) (hrest : ∀ t ∈ rest, t.kind = .newline)
    (htrail : ∀ t ∈ trail, t.kind = .newline) (hlast : ∀ t ∈ unit.getLast?, t.kind ≠ .newline)
    (hmark : mark.kind ≠ .newline) : unit = core ++ [mark] ∧ rest = trail := by
  rcases List.append_eq_append_iff.mp h with ⟨gap, hcore, rfl⟩ | ⟨gap, rfl, rfl⟩
  · rcases List.eq_nil_or_concat gap with rfl | ⟨gap', t, rfl⟩
    · rw [List.append_nil] at hcore
      exact ⟨hcore.symm, rfl⟩
    · rw [List.concat_eq_append, ← List.append_assoc] at hcore
      obtain ⟨-, ht⟩ := List.append_inj' hcore rfl
      rw [List.singleton_inj.mp ht] at hmark
      exact absurd (hrest t (by simp)) hmark
  · rcases List.eq_nil_or_concat gap with rfl | ⟨gap', t, rfl⟩
    · exact ⟨by rw [List.append_nil], rfl⟩
    · rw [List.concat_eq_append, ← List.append_assoc, List.getLast?_concat] at hlast
      exact absurd (htrail t (by simp)) (hlast t rfl)

/-! ## The whole source -/

/-- The blame for a brace that is open at the end of the tokens. -/
def unclosedBrace (mark : Token) (ts : List Token) : Diagnostic :=
  .error .splitting (mark.span.merge (endSpan ts)) "unclosed `\x7b`"

namespace PassContext

variable {ctx : PassContext} (tree : Scope.Tree) {lead unit rest : List Token} {found : Bool}

/-- A source that begins with a unit, behind line ends, is compiled to what that unit and then the
rest is reported for. -/
theorem compile_unit (hlead : ∀ t ∈ lead, t.kind = .newline) (hne : unit ≠ [])
    (hhead : ∀ t ∈ (unit ++ rest).head?, t.kind ≠ .newline)
    (hopens : ctx.compiler.dialect.opensDeclaration (unit ++ rest) = true)
    (hext : ctx.compiler.dialect.extent 0 false (unit ++ rest) = (unit.length, found)) :
    let out := Pass.step ctx { tree } (.ofUnit found unit)
    let later := out.1.run ctx (ctx.compiler.dialect.chunks rest)
    (ctx.compile tree (lead ++ (unit ++ rest))).functions =
        out.2.functions ++ later.2.functions ∧
      (ctx.compile tree (lead ++ (unit ++ rest))).diagnostics =
        out.2.diagnostics ++ (later.2.diagnostics ++
          (later.1.unclosed (endSpan (lead ++ (unit ++ rest)))).diagnostics) := by
  intro out later
  have hrun : Pass.run ctx { tree } (ctx.compiler.dialect.chunks (lead ++ (unit ++ rest))) =
      (later.1, out.2 ++ later.2) := by
    rw [Dialect.chunks_newlines _ hlead, Dialect.chunks_unit _ hne hhead hopens hext,
      Pass.run_newlines, Pass.run_cons]
  rw [compile, hrun]
  refine ⟨List.append_nil _, List.append_assoc _ _ _⟩

/-- Behind a unit that only line ends follow nothing more is reported than its braces. -/
theorem compile_last_unit (hlead : ∀ t ∈ lead, t.kind = .newline) (hne : unit ≠ [])
    (hhead : ∀ t ∈ (unit ++ rest).head?, t.kind ≠ .newline)
    (hopens : ctx.compiler.dialect.opensDeclaration (unit ++ rest) = true)
    (hext : ctx.compiler.dialect.extent 0 false (unit ++ rest) = (unit.length, found))
    (hrest : ∀ t ∈ rest, t.kind = .newline) :
    let out := Pass.step ctx { tree } (.ofUnit found unit)
    (ctx.compile tree (lead ++ (unit ++ rest))).functions = out.2.functions ∧
      (ctx.compile tree (lead ++ (unit ++ rest))).diagnostics =
        out.2.diagnostics ++ (out.1.unclosed (endSpan (lead ++ (unit ++ rest)))).diagnostics := by
  intro out
  have hlater : out.1.run ctx (ctx.compiler.dialect.chunks rest) = (out.1, {}) := by
    have := Dialect.chunks_newlines ctx.compiler.dialect hrest []
    rw [List.append_nil] at this
    rw [this, Pass.run_newlines, Dialect.chunks]
    rfl
  obtain ⟨hfuns, hdiags⟩ := compile_unit tree hlead hne hhead hopens hext
  rw [hlater] at hfuns hdiags
  exact ⟨hfuns.trans (List.append_nil _), hdiags⟩

end PassContext

/-- A declaration that is the whole source and is cut as one chunk is compiled, and only blamed for
its open brace. -/
theorem PassContext.compiles_alone {ctx : PassContext} {tree : Scope.Tree}
    {lead core trail : List Token} {mark : Token} {c : Compiled}
    (hlead : ∀ t ∈ lead, t.kind = .newline) (htrail : ∀ t ∈ trail, t.kind = .newline)
    (hmark : mark.kind = .openBrace)
    (hhead : ∀ t ∈ (core ++ [mark] ++ trail).head?, t.kind ≠ .newline)
    (hopens : ctx.compiler.dialect.opensDeclaration (core ++ [mark] ++ trail) = true)
    (haccept : (ctx.compiler.compileBelow (core ++ [mark]) tree Scope.Tree.root).1 = .ok c)
    (hshadows : c.shadows = none) (hheld : ctx.compiler.dialect.HeldTogether core mark trail) :
    (ctx.compile tree (lead ++ (core ++ [mark] ++ trail))).functions = [c] ∧
      (ctx.compile tree (lead ++ (core ++ [mark] ++ trail))).diagnostics =
        [unclosedBrace mark (lead ++ (core ++ [mark] ++ trail))] := by
  obtain ⟨hfuns, hdiags⟩ := compile_last_unit tree hlead (by simp) hhead hopens
    ((Dialect.extent_eq_iff_heldTogether _ hmark).mpr hheld) htrail
  have hreport := Pass.stepDeclaration_of_ok { tree } haccept
  obtain ⟨scope, hbraces⟩ := Pass.exists_braces_stepDeclaration ctx { tree } (core ++ [mark])
  have hbody : Pass.bodyBrace? scope (core ++ [mark]) = some ⟨scope, mark.span⟩ := by
    rw [Pass.bodyBrace?, List.getLast?_concat]
    exact if_pos hmark
  rw [hbody] at hbraces
  simp only [Chunk.ofUnit, if_true, Pass.step, Pass.unclosed, hreport, hbraces, Pass.accepted,
    hshadows] at hfuns hdiags
  exact ⟨hfuns, hdiags⟩

namespace Dialect

/-- A unit at the front of a header that is itself a header has only line ends behind it. -/
theorem newlines_of_read_unit {d : Dialect} {unit rest : List Token} {h h' : Header}
    (hhead : ∀ t ∈ unit.head?, t.kind ≠ .newline)
    (hplain : ∀ t ∈ unit, d.modifiers.contains t.text = true → t.kind = .ident)
    (hread : Header.read d (unit ++ rest) = .ok h) (hunit : Header.read d unit = .ok h') :
    ∀ t ∈ rest, t.kind = .newline := by
  obtain ⟨core, mark, trail, hsplit, -, -, hlocal⟩ := Header.read_local hunit hplain
  rw [skipNewlines_eq_self hhead] at hsplit
  have := (hlocal [] (trail ++ rest) h (by simp)).mp (by
    rw [hsplit] at hread
    simpa using hread)
  exact fun t ht => this.2 t (List.mem_append_right _ ht)

end Dialect

namespace Pass

variable {ctx : PassContext} {p : Pass} {unit ts : List Token} {mark : Token}

/-- A unit that is blamed for nothing but an open brace is a declaration that was accepted. -/
theorem exists_accepted_of_blameless {found : Bool} (hne : unit ≠ [])
    (hblame : ∀ x ∈ (p.step ctx (.ofUnit found unit)).2.diagnostics, x.isError = true →
      x = unclosedBrace mark ts) :
    found = true ∧ ∃ c, (ctx.compiler.compileBelow unit p.tree p.scope).1 = .ok c := by
  cases found with
  | false =>
    obtain ⟨u, unit', rfl⟩ := List.exists_cons_of_ne_nil hne
    have := hblame _ (List.mem_singleton_self _) rfl
    simp [unclosedBrace, Diagnostic.error] at this
  | true =>
    cases haccept : (ctx.compiler.compileBelow unit p.tree p.scope).1 with
    | ok c => exact ⟨rfl, c, rfl⟩
    | error f =>
      obtain ⟨x, hx, herr, hphase⟩ := exists_error_of_refused ctx f
      rw [← stepDeclaration_of_error p haccept] at hx
      rw [hblame x hx herr] at hphase
      exact absurd rfl hphase

/-- A declaration that leaves a brace open does not end with a line end. -/
theorem getLast?_of_braces_ne_nil (ctx : PassContext) (hp : p.braces = [])
    (h : (p.stepDeclaration ctx unit).1.braces ≠ []) : ∀ t ∈ unit.getLast?, t.kind ≠ .newline := by
  intro t ht hn
  obtain ⟨scope, hbraces⟩ := exists_braces_stepDeclaration ctx p unit
  have hnone : bodyBrace? scope unit = none := by
    rw [bodyBrace?, Option.mem_def.mp ht]
    exact if_neg (by rw [hn]; simp)
  rw [hnone, hp] at hbraces
  exact h hbraces

/-- An accepted declaration with an error has left its brace open, so it does not end with a line
end. -/
theorem getLast?_of_isError {c : Compiled} {stop : Span} {x : Diagnostic} (hp : p.braces = [])
    (haccept : (ctx.compiler.compileBelow unit p.tree p.scope).1 = .ok c)
    (hx : x ∈ (p.stepDeclaration ctx unit).2.diagnostics ++
      ((p.stepDeclaration ctx unit).1.unclosed stop).diagnostics) (herr : x.isError = true) :
    ∀ t ∈ unit.getLast?, t.kind ≠ .newline := by
  rcases List.mem_append.mp hx with hstep | hopen
  · have := isError_accepted ctx c x (stepDeclaration_of_ok p haccept ▸ hstep)
    exact absurd (herr.symm.trans this) (by simp)
  · refine getLast?_of_braces_ne_nil ctx hp fun hbraces => ?_
    rw [unclosed, hbraces] at hopen
    exact absurd hopen List.not_mem_nil

end Pass

/-- A declaration that is the whole source, and whose function is all that it is compiled to, with no
blame but for its open brace, was cut as one chunk. -/
theorem PassContext.heldTogether_of_compiles {ctx : PassContext} {tree : Scope.Tree}
    {lead core trail : List Token} {mark : Token} {h : Header}
    (hlead : ∀ t ∈ lead, t.kind = .newline) (htrail : ∀ t ∈ trail, t.kind = .newline)
    (hmark : mark.kind = .openBrace)
    (hhead : ∀ t ∈ (core ++ [mark] ++ trail).head?, t.kind ≠ .newline)
    (hopens : ctx.compiler.dialect.opensDeclaration (core ++ [mark] ++ trail) = true)
    (hplain : ∀ t ∈ core ++ [mark] ++ trail,
      ctx.compiler.dialect.modifiers.contains t.text = true → t.kind = .ident)
    (hread : Header.read ctx.compiler.dialect (core ++ [mark] ++ trail) = .ok h)
    (hsize : Scope.Tree.root < tree.size)
    (herrors : (ctx.compile tree (lead ++ (core ++ [mark] ++ trail))).diagnostics.filter
      Diagnostic.isError = [unclosedBrace mark (lead ++ (core ++ [mark] ++ trail))]) :
    ctx.compiler.dialect.HeldTogether core mark trail := by
  obtain ⟨t, us, hcons⟩ : ∃ t us, core ++ [mark] ++ trail = t :: us :=
    List.exists_cons_of_ne_nil (by simp)
  obtain ⟨unit, rest, found, hsplit, hne, hext⟩ :=
    ctx.compiler.dialect.exists_unit (hhead t (by rw [hcons]; rfl)) us
  rw [← hcons] at hsplit
  rw [hsplit] at hhead hopens hplain hread herrors
  obtain ⟨-, hdiags⟩ := compile_unit tree hlead hne hhead hopens hext
  -- an error of the unit is the blame for the brace
  have herror : ∀ x ∈ (Pass.step ctx { tree } (.ofUnit found unit)).2.diagnostics,
      x.isError = true → x = unclosedBrace mark (lead ++ (unit ++ rest)) := by
    intro x hx herr
    rw [← List.mem_singleton, ← herrors, List.mem_filter, hdiags]
    exact ⟨List.mem_append_left _ hx, herr⟩
  obtain ⟨rfl, c, haccept⟩ := Pass.exists_accepted_of_blameless hne herror
  obtain ⟨h', hread', -, -⟩ := Compiler.exists_read_of_compileBelow hsize haccept
  have hrest := Dialect.newlines_of_read_unit
    (fun t ht => hhead t (by rw [List.head?_append]; simp [Option.mem_def.mp ht]))
    (fun t ht => hplain t (List.mem_append_left _ ht)) hread hread'
  obtain ⟨-, hdiags'⟩ := compile_last_unit tree hlead hne hhead hopens hext hrest
  -- the brace that is blamed is the last token of the unit
  have hlast : ∀ t ∈ unit.getLast?, t.kind ≠ .newline := by
    have hmem : unclosedBrace mark (lead ++ (unit ++ rest)) ∈
        (ctx.compile tree (lead ++ (unit ++ rest))).diagnostics.filter Diagnostic.isError := by
      rw [herrors]
      exact List.mem_singleton_self _
    rw [List.mem_filter, hdiags'] at hmem
    exact Pass.getLast?_of_isError rfl haccept hmem.1 hmem.2
  obtain ⟨rfl, rfl⟩ := eq_of_append_newlines hsplit.symm hrest htrail hlast (by simp [hmark])
  exact (Dialect.extent_eq_iff_heldTogether _ hmark).mp hext

/-- **Cutting and reading agree on headers that are held together.** Take a source whose tokens are
accepted as one declaration at the outermost level. They are the tokens of its header, an opening
brace, and line ends around them. The source is compiled to the function of that declaration, and
only blamed for the open brace, exactly if the header is held together.
Source: `declaration_end` and `compile` with `return_type` and `body_marker`. -/
theorem Settings.compiles_alone_iff_heldTogether (s : Settings) (name source : String)
    (ts : List Token) (c : Compiled)
    (hnames : ∀ m, Text.isName (s.spellings.spelling m) = true)
    (hscan : Token.scan source = .ok ts)
    (haccept : ((s.context name source).compiler.compileBelow ts (s.emptyTree name)
      Scope.Tree.root).1 = .ok c) :
    ∃ lead core mark trail, ts = lead ++ (core ++ [mark] ++ trail) ∧
      (∀ t ∈ lead, t.kind = .newline) ∧ (∀ t ∈ trail, t.kind = .newline) ∧
      mark.kind = .openBrace ∧
      (((s.compile name source).functions = [c] ∧
          (s.compile name source).diagnostics.filter Diagnostic.isError = [unclosedBrace mark ts]) ↔
        (s.context name source).compiler.dialect.HeldTogether core mark trail) := by
  have hsize : Scope.Tree.root < (s.emptyTree name).size := Nat.zero_lt_one
  obtain ⟨h, hread, hsuits, rfl⟩ := Compiler.exists_read_of_compileBelow hsize haccept
  have hplain : ∀ t ∈ ts, (s.context name source).compiler.dialect.modifiers.contains t.text = true →
      t.kind = .ident := fun t ht => Token.kind_of_spelling hnames hscan ht
  obtain ⟨core, mark, trail, hskip, hmark, htrail, hlocal⟩ := Header.read_local hread hplain
  obtain ⟨lead, hts, hlead⟩ := exists_append_skipNewlines ts
  have hsplit : core ++ mark :: trail = core ++ [mark] ++ trail := by simp
  rw [hsplit] at hskip
  have hopens := Dialect.opensDeclaration_of_read hread hplain
  have hhead := fun t => head?_skipNewlines ts (t := t)
  rw [hskip] at hts hopens hhead
  -- at the outermost level a header needs a body, so its mark is a brace
  have hbrace : mark.kind = .openBrace := by
    have hbody : h.ending = .body := by
      cases hending : h.ending with
      | body => rfl
      | bodiless => exact absurd rfl (hsuits.body hending)
    rw [hbody] at hmark
    cases hk : mark.kind with
    | openBrace => rfl
    | _ => rw [hk] at hmark; simp [HeaderEnd.ofKind?] at hmark
  refine ⟨lead, core, mark, trail, hts, hlead, htrail, hbrace, ?_⟩
  rw [s.compile_of_scan name hscan]
  constructor
  · rintro ⟨-, herrors⟩
    -- the reading is local, so the lead of newlines can be dropped from it
    have hread' := (hlocal [] trail h (by simp)).mpr ⟨rfl, htrail⟩
    rw [List.nil_append, hsplit] at hread'
    rw [hts] at herrors
    exact PassContext.heldTogether_of_compiles hlead htrail hbrace hhead hopens
      (fun t ht => hplain t (by rw [hts]; exact List.mem_append_right _ ht)) hread' hsize herrors
  · intro hheld
    have hread' := (hlocal [] [] h (by simp)).mpr ⟨rfl, by simp⟩
    rw [List.nil_append] at hread'
    have hunit : ((s.context name source).compiler.compileBelow (core ++ [mark]) (s.emptyTree name)
        Scope.Tree.root).1 = .ok _ :=
      congrArg Prod.fst (Compiler.compileBelow_of_read hsize hread' hsuits)
    obtain ⟨hfuns, hdiags⟩ := PassContext.compiles_alone hlead htrail hbrace hhead hopens hunit rfl
      hheld
    rw [← hts] at hfuns hdiags
    rw [hfuns, hdiags]
    exact ⟨rfl, rfl⟩

/-- A header over five lines, with a decorator in front. -/
theorem Settings.compiles_alone_iff_heldTogether_over_lines :
    let source := "\n@log(1)\nfn f(a: int,\n  b: int)\n\x7b"
    let ctx := ({} : Settings).context "" source
    let ts : List Token := [⟨.newline, "\n", ⟨0, 1⟩⟩, ⟨.atSign, "@", ⟨1, 2⟩⟩, ⟨.ident, "log", ⟨2, 5⟩⟩,
      ⟨.openParen, "(", ⟨5, 6⟩⟩, ⟨.number, "1", ⟨6, 7⟩⟩, ⟨.closeParen, ")", ⟨7, 8⟩⟩,
      ⟨.newline, "\n", ⟨8, 9⟩⟩, ⟨.ident, "fn", ⟨9, 11⟩⟩, ⟨.ident, "f", ⟨12, 13⟩⟩,
      ⟨.openParen, "(", ⟨13, 14⟩⟩, ⟨.ident, "a", ⟨14, 15⟩⟩, ⟨.colon, ":", ⟨15, 16⟩⟩,
      ⟨.ident, "int", ⟨17, 20⟩⟩, ⟨.comma, ",", ⟨20, 21⟩⟩, ⟨.newline, "\n", ⟨21, 22⟩⟩,
      ⟨.ident, "b", ⟨24, 25⟩⟩, ⟨.colon, ":", ⟨25, 26⟩⟩, ⟨.ident, "int", ⟨27, 30⟩⟩,
      ⟨.closeParen, ")", ⟨30, 31⟩⟩, ⟨.newline, "\n", ⟨31, 32⟩⟩, ⟨.openBrace, "\x7b", ⟨32, 33⟩⟩]
    Token.scan source = .ok ts ∧
      ∃ c, (ctx.compiler.compileBelow ts (({} : Settings).emptyTree "") Scope.Tree.root).1 = .ok c ∧
        ∃ lead core mark trail, ts = lead ++ (core ++ [mark] ++ trail) ∧
          (∀ t ∈ lead, t.kind = .newline) ∧ (∀ t ∈ trail, t.kind = .newline) ∧
          mark.kind = .openBrace ∧
          (((({} : Settings).compile "" source).functions = [c] ∧
              (({} : Settings).compile "" source).diagnostics.filter Diagnostic.isError =
                [unclosedBrace mark ts]) ↔ ctx.compiler.dialect.HeldTogether core mark trail) := by
  intro source ctx ts
  have hscan : Token.scan source = .ok ts := Token.scan_of_scanWithin 40 (by decide +kernel)
  have hnames : ∀ m, Text.isName (({} : Settings).spellings.spelling m) = true := by
    intro m
    cases m <;> decide +kernel
  have hsome : (ctx.compiler.compileBelow ts (({} : Settings).emptyTree "")
      Scope.Tree.root).1.toOption.isSome = true := by decide +kernel
  cases haccept : (ctx.compiler.compileBelow ts (({} : Settings).emptyTree "") Scope.Tree.root).1 with
  | error f =>
    rw [haccept] at hsome
    exact absurd hsome (by simp [Except.toOption])
  | ok c =>
    exact ⟨hscan, c, rfl,
      Settings.compiles_alone_iff_heldTogether {} "" source ts c hnames hscan haccept⟩

/-- A return type whose angle brackets reach over a line end is read, and not cut as one chunk. -/
theorem Settings.not_compiles_alone_of_generics_over_lines :
    let source := "fn f() -> Map<K,\n V> \x7b"
    let ctx := ({} : Settings).context "" source
    let ts : List Token := [⟨.ident, "fn", ⟨0, 2⟩⟩, ⟨.ident, "f", ⟨3, 4⟩⟩, ⟨.openParen, "(", ⟨4, 5⟩⟩,
      ⟨.closeParen, ")", ⟨5, 6⟩⟩, ⟨.arrow, "->", ⟨7, 9⟩⟩, ⟨.ident, "Map", ⟨10, 13⟩⟩,
      ⟨.less, "<", ⟨13, 14⟩⟩, ⟨.ident, "K", ⟨14, 15⟩⟩, ⟨.comma, ",", ⟨15, 16⟩⟩,
      ⟨.newline, "\n", ⟨16, 17⟩⟩, ⟨.ident, "V", ⟨18, 19⟩⟩, ⟨.greater, ">", ⟨19, 20⟩⟩,
      ⟨.openBrace, "\x7b", ⟨21, 22⟩⟩]
    Token.scan source = .ok ts ∧
      (ctx.compiler.compileBelow ts (({} : Settings).emptyTree "") Scope.Tree.root).1.toOption.map
        Compiled.output = some "def f() -> Map<K,V>:" ∧
      (({} : Settings).compile "" source).functions = [] := by
  intro source ctx ts
  exact ⟨Token.scan_of_scanWithin 40 (by decide +kernel), by decide +kernel,
    ({} : Settings).view_compile 40 Compilation.functions (by decide +kernel)⟩

end FuncDecl
