import FuncDecl.Proofs.Source.Origins

/-!
# Warnings

A project may ask for warnings or not. The choice is looked at in the middle of a pass, where a
declaration was accepted, and decides nothing but whether a warning is reported.

* `Report.hush`: the report without its warnings.
* `Report.Warns source r`: the warnings of the report are those about its functions, with the lines
  that they hide (`Compiled.shadowWarning`).
* `PassContext.withWarnings`: the same context with warnings reported or not.
* `Pass.step_withWarnings` and `Pass.run_withWarnings`: one chunk and all chunks with warnings and
  without.
* `Settings.shadows_earlier`: the functions that a source is compiled to hide only functions in
  front of them.
* `Settings.warnings_exact`: **the choice of warnings decides only about warnings, and these are
  exact**. Without warnings a source is compiled to the same functions and scopes, and has the same
  errors. With warnings there is one for every function that hides another one.
-/

namespace FuncDecl

/-! ## Reports with and without warnings -/

/-- Whether a diagnostic is a warning. -/
def Diagnostic.isWarning (x : Diagnostic) : Bool :=
  x.severity == .warning

/-- An error is no warning. -/
theorem Diagnostic.isWarning_of_isError {x : Diagnostic} (h : x.isError = true) :
    x.isWarning = false := by
  rw [isError, beq_iff_eq] at h
  rw [isWarning, h]
  rfl

/-- The warning about a function that hides another one. -/
def Compiled.shadowWarning (source : String) (c : Compiled) : Option Diagnostic :=
  c.shadows.map fun earlier =>
    .warning .registration c.nameSpan <|
      "function `" ++ c.name ++ "` shadows the definition on line " ++
        toString (earlier.line source)

namespace Report

/-- The report without its warnings. -/
def hush (r : Report) : Report :=
  ⟨r.functions, r.diagnostics.filter (!·.isWarning)⟩

/-- Reports in a row lose their warnings one by one. -/
theorem hush_append (a b : Report) : (a ++ b).hush = a.hush ++ b.hush := by
  show (⟨_, _⟩ : Report) = ⟨_, _⟩
  rw [diagnostics_append, List.filter_append]
  rfl

/-- A report of errors has no warnings. -/
theorem hush_of_errors {r : Report} (h : ∀ x ∈ r.diagnostics, x.isError = true) : r.hush = r := by
  unfold hush
  rw [List.filter_eq_self.mpr]
  intro x hx
  rw [Diagnostic.isWarning_of_isError (h x hx)]
  rfl

/-- The warnings of the report are those about its functions. -/
def Warns (source : String) (r : Report) : Prop :=
  r.diagnostics.filter Diagnostic.isWarning = r.functions.filterMap (Compiled.shadowWarning source)

/-- Reports in a row warn of their functions one by one. -/
theorem Warns.append {source : String} {a b : Report} (ha : a.Warns source) (hb : b.Warns source) :
    (a ++ b).Warns source := by
  unfold Warns at ha hb ⊢
  rw [diagnostics_append, functions_append, List.filter_append, List.filterMap_append, ha, hb]

/-- A report of errors without functions warns of nothing. -/
theorem warns_of_errors {source : String} {r : Report} (hfunctions : r.functions = [])
    (h : ∀ x ∈ r.diagnostics, x.isError = true) : r.Warns source := by
  unfold Warns
  rw [hfunctions, List.filterMap_nil, List.filter_eq_nil_iff]
  intro x hx
  rw [Diagnostic.isWarning_of_isError (h x hx)]
  exact Bool.false_ne_true

end Report

/-! ## One pass with warnings and one without -/

/-- The same context with warnings reported or not. -/
def PassContext.withWarnings (ctx : PassContext) (warnings : Bool) : PassContext :=
  { ctx with warnings }

namespace Pass

variable (ctx : PassContext) (p : Pass)

/-- A refused declaration is reported by errors. -/
theorem isError_refused (f : Fault) : ∀ x ∈ (refused ctx f).diagnostics, x.isError = true := by
  intro x hx
  obtain ⟨phase, message, -, h⟩ := exists_refused ctx f
  rw [h] at hx
  rw [List.mem_singleton.mp hx]
  rfl

/-- Stray decorators are reported by errors. -/
theorem isError_stray (ts : List Token) : ∀ x ∈ (stray ts).diagnostics, x.isError = true := by
  intro x hx
  obtain ⟨span, rfl⟩ := eq_of_mem_stray hx
  rfl

/-- A line is reported by errors. -/
theorem isError_stepTokens (ts : List Token) :
    ∀ x ∈ (p.stepTokens ts).2.diagnostics, x.isError = true := by
  intro x hx
  obtain ⟨span, rfl⟩ := eq_of_mem_stepTokens hx
  rfl

/-- Braces that are left open are reported by errors. -/
theorem isError_unclosed (stop : Span) :
    ∀ x ∈ (p.unclosed stop).diagnostics, x.isError = true := by
  intro x hx
  obtain ⟨brace, -, rfl⟩ := List.mem_map.mp hx
  rfl

/-- The choice decides about the warning of an accepted declaration alone. -/
theorem hush_accepted (c : Compiled) :
    (accepted (ctx.withWarnings true) c).hush = accepted (ctx.withWarnings false) c := by
  unfold accepted
  cases c.shadows with
  | none => rfl
  | some earlier => rfl

/-- An accepted declaration warns of what it hides. -/
theorem warns_accepted (c : Compiled) :
    (accepted (ctx.withWarnings true) c).Warns ctx.source := by
  unfold Report.Warns accepted
  rw [List.filterMap_cons, List.filterMap_nil, Compiled.shadowWarning]
  cases c.shadows with
  | none => rfl
  | some earlier => rfl

/-- The verdict on a declaration does not look at the choice. -/
theorem stepDeclaration_withWarnings (ts : List Token) :
    p.stepDeclaration (ctx.withWarnings false) ts =
        ((p.stepDeclaration (ctx.withWarnings true) ts).1,
          (p.stepDeclaration (ctx.withWarnings true) ts).2.hush) ∧
      (p.stepDeclaration (ctx.withWarnings true) ts).2.Warns ctx.source := by
  have hcompiler : ∀ b, (ctx.withWarnings b).compiler = ctx.compiler := fun _ => rfl
  unfold stepDeclaration
  rw [hcompiler, hcompiler]
  rcases ctx.compiler.compileBelow ts p.tree p.scope with ⟨result, tree, chain⟩
  cases result with
  | ok c => exact ⟨Prod.ext rfl (hush_accepted ctx c).symm, warns_accepted ctx c⟩
  | error fault =>
    have herrors := isError_refused ctx fault
    exact ⟨Prod.ext rfl (Report.hush_of_errors herrors).symm,
      Report.warns_of_errors (functions_refused ctx fault) herrors⟩

/-- One chunk: the choice changes the report, and that only by its warnings. -/
theorem step_withWarnings (c : Chunk) :
    p.step (ctx.withWarnings false) c =
        ((p.step (ctx.withWarnings true) c).1, (p.step (ctx.withWarnings true) c).2.hush) ∧
      (p.step (ctx.withWarnings true) c).2.Warns ctx.source := by
  cases c with
  | newline t => exact ⟨rfl, rfl⟩
  | stray ts =>
    have herrors := isError_stray ts
    exact ⟨Prod.ext rfl (Report.hush_of_errors herrors).symm,
      Report.warns_of_errors (functions_stray ts) herrors⟩
  | line ts =>
    have herrors := (p.announce ts).isError_stepTokens ts
    exact ⟨Prod.ext rfl (Report.hush_of_errors herrors).symm,
      Report.warns_of_errors (functions_stepTokens _ ts) herrors⟩
  | declaration ts => exact p.stepDeclaration_withWarnings ctx ts

/-- All chunks. -/
theorem run_withWarnings (cs : List Chunk) :
    p.run (ctx.withWarnings false) cs =
        ((p.run (ctx.withWarnings true) cs).1, (p.run (ctx.withWarnings true) cs).2.hush) ∧
      (p.run (ctx.withWarnings true) cs).2.Warns ctx.source := by
  induction cs generalizing p with
  | nil => exact ⟨rfl, rfl⟩
  | cons c cs ih =>
    obtain ⟨hstep, hwarns⟩ := p.step_withWarnings ctx c
    obtain ⟨hrun, hwarns'⟩ := ih (p.step (ctx.withWarnings true) c).1
    rw [run_cons, run_cons, hstep, hrun, Report.hush_append]
    exact ⟨rfl, hwarns.append hwarns'⟩

end Pass

/-! ## The whole source -/

/-- The same settings with warnings reported or not. -/
def Settings.withWarnings (s : Settings) (warnings : Bool) : Settings :=
  { s with report := { s.report with warnings } }

/-- What is compiled without warnings is what is compiled with them, less the warnings. -/
theorem PassContext.compile_withWarnings (ctx : PassContext) (tree : Scope.Tree) (ts : List Token) :
    let loud := (ctx.withWarnings true).compile tree ts
    (ctx.withWarnings false).compile tree ts =
        ⟨loud.functions, loud.diagnostics.filter (!·.isWarning), loud.scopes⟩ ∧
      loud.diagnostics.filter Diagnostic.isWarning =
        loud.functions.filterMap (Compiled.shadowWarning ctx.source) := by
  intro loud
  have hdialect : ∀ b, (ctx.withWarnings b).compiler = ctx.compiler := fun _ => rfl
  obtain ⟨hrun, hwarns⟩ :=
    Pass.run_withWarnings ctx { tree } (ctx.compiler.dialect.chunks ts)
  have hunclosed := Pass.isError_unclosed
    (Pass.run (ctx.withWarnings true) { tree } (ctx.compiler.dialect.chunks ts)).1 (endSpan ts)
  have hhush := Report.hush_of_errors hunclosed
  refine ⟨?_, hwarns.append (Report.warns_of_errors rfl hunclosed)⟩
  rw [compile, hdialect, hrun]
  show (⟨_, _, _⟩ : Compilation) = ⟨_, _, _⟩
  rw [← hhush, ← Report.hush_append]
  rfl

/-- The same for a source: functions and scopes are the same, and the warnings are those about the
functions. -/
theorem Settings.compile_withWarnings (s : Settings) (name source : String) :
    let loud := (s.withWarnings true).compile name source
    (s.withWarnings false).compile name source =
        ⟨loud.functions, loud.diagnostics.filter (!·.isWarning), loud.scopes⟩ ∧
      loud.diagnostics.filter Diagnostic.isWarning =
        loud.functions.filterMap (Compiled.shadowWarning source) := by
  intro loud
  cases hscan : Token.scan source with
  | error fault =>
    simp only [loud, Settings.compile, hscan]
    exact ⟨rfl, rfl⟩
  | ok ts =>
    have := (s.context name source).compile_withWarnings (s.emptyTree name) ts
    rw [show loud = _ from (s.withWarnings true).compile_of_scan name hscan,
      (s.withWarnings false).compile_of_scan name hscan]
    exact this

/-- The functions that a source is compiled to hide only functions in front of them. -/
theorem Settings.shadows_earlier (s : Settings) (name source : String) (front back : List Compiled)
    (c : Compiled) (h : (s.compile name source).functions = front ++ c :: back) :
    ∀ span ∈ c.shadows, ∃ earlier ∈ front, earlier.name = c.name ∧ earlier.nameSpan = span := by
  cases hscan : Token.scan source with
  | error fault =>
    rw [Settings.compile, hscan] at h
    exact absurd h (by simp)
  | ok ts =>
    rw [s.compile_of_scan name hscan, PassContext.compile] at h
    have hground := (Pass.Grounded.new name s.spellings).run (s.context name source)
      ((s.context name source).compiler.dialect.chunks ts)
    exact hground.shadows front c back ((List.append_nil _).symm.trans h)

/-- **The choice of warnings decides only about warnings, and these are exact.** Without warnings a
source is compiled to the same functions and scopes, has errors exactly if it has them with warnings,
and is reported the same diagnostics except for the warnings. With warnings there is one for every
function that hides another one, in the order of the functions; the name that is hidden is that of a
function of the same name further in front.
Source: `compile_declaration` and `compile_source`. -/
theorem Settings.warnings_exact (s : Settings) (name source : String) :
    let loud := (s.withWarnings true).compile name source
    let quiet := (s.withWarnings false).compile name source
    quiet.functions = loud.functions ∧ quiet.scopes = loud.scopes ∧
      quiet.hasErrors = loud.hasErrors ∧
      quiet.diagnostics = loud.diagnostics.filter (!·.isWarning) ∧
      loud.diagnostics.filter Diagnostic.isWarning =
        loud.functions.filterMap (Compiled.shadowWarning source) ∧
      ∀ front c back, loud.functions = front ++ c :: back → ∀ span ∈ c.shadows,
        ∃ earlier ∈ front, earlier.name = c.name ∧ earlier.nameSpan = span := by
  intro loud quiet
  obtain ⟨hquiet, hwarnings⟩ := s.compile_withWarnings name source
  have hdiagnostics : quiet.diagnostics = loud.diagnostics.filter (!·.isWarning) :=
    congrArg Compilation.diagnostics hquiet
  have hfunctions := congrArg Compilation.functions hquiet
  have hscopes := congrArg Compilation.scopes hquiet
  refine ⟨hfunctions, hscopes, ?_, hdiagnostics, hwarnings,
    fun front c back h => (s.withWarnings true).shadows_earlier name source front back c h⟩
  -- an error is no warning
  unfold Compilation.hasErrors
  rw [hdiagnostics, List.any_filter]
  congr 1
  funext x
  cases herror : x.isError with
  | false => rw [Bool.and_false]
  | true =>
    rw [Diagnostic.isWarning_of_isError herror]
    rfl

/-- A method hides the function of the same name, and what is declared in it does not come before
another function of the file. -/
theorem Settings.warnings_exact_of_method :
    let source := "fn of() \x7b\n\x7d\nclass V \x7b\nfn of(self) \x7b\nfn at() \x7b\n\x7d\n\x7d\n\x7d\nfn at() \x7b\n\x7d"
    let loud := (({} : Settings).withWarnings true).compile "v" source
    let quiet := (({} : Settings).withWarnings false).compile "v" source
    loud.functions.map (fun c => (c.name, c.shadows)) =
        [("of", none), ("of", some ⟨3, 5⟩), ("at", none), ("at", none)] ∧
      loud.diagnostics = [.warning .registration ⟨25, 27⟩
        "function `of` shadows the definition on line 1"] ∧
      quiet.functions = loud.functions ∧ quiet.diagnostics = [] := by
  intro source loud quiet
  have hfuns : loud.functions.map (fun c => (c.name, c.shadows)) =
      [("of", none), ("of", some ⟨3, 5⟩), ("at", none), ("at", none)] :=
    Settings.view_compile _ 100 (fun r => r.functions.map fun c => (c.name, c.shadows))
      (by decide +kernel)
  have hdiags : loud.diagnostics =
      [.warning .registration ⟨25, 27⟩ "function `of` shadows the definition on line 1"] :=
    Settings.view_compile _ 100 Compilation.diagnostics (by decide +kernel)
  obtain ⟨hfunctions, -, -, hdiagnostics, -, -⟩ := Settings.warnings_exact {} "v" source
  refine ⟨hfuns, hdiags, hfunctions, hdiagnostics.trans ?_⟩
  rw [show ((({} : Settings).withWarnings true).compile "v" source).diagnostics = _ from hdiags]
  rfl

end FuncDecl
