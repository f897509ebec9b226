import FuncDecl.Proofs.Token.Layout
import FuncDecl.Source.Compilation

/-!
# What a pass reports

What a source is compiled to is the reports of its chunks in a row, and then the braces that are
left open. All that a token of a line and a declaration can do is said here once, by cases.

* `Pass.reports`: the reports of a pass chunk by chunk. Its functions and diagnostics are theirs
  (`Pass.functions_run`, `Pass.diagnostics_run`).
* `Report.Settled`: one function and no error, or no function and one error. The report of a
  declaration is settled (`Pass.settled_stepDeclaration`).
* `Pass.stepToken_cases`, `Pass.accepted_cases`, `Pass.refused_cases`: **all that a token and a
  declaration can do**.
* `Pass.exists_report_of_declaration`: every declaration among the chunks has a report of its own.
* `Settings.compile_of_scan`: a source that can be cut into tokens is compiled to what the pass over
  its chunks reports.
* `Settings.compileWithin` and `Settings.view_compile`: the form of `compile` that evaluates.
-/

namespace FuncDecl

namespace Report

/-- The functions of two reports in a row. -/
@[simp] theorem functions_append (a b : Report) :
    (a ++ b).functions = a.functions ++ b.functions := rfl

/-- The diagnostics of two reports in a row. -/
@[simp] theorem diagnostics_append (a b : Report) :
    (a ++ b).diagnostics = a.diagnostics ++ b.diagnostics := rfl

/-- Reports in a row may be grouped in any way. -/
theorem append_assoc (a b c : Report) : a ++ b ++ c = a ++ (b ++ c) := by
  show (⟨_, _⟩ : Report) = ⟨_, _⟩
  simp only [functions_append, diagnostics_append, List.append_assoc]

/-- The report of one declaration: it was accepted, and nothing speaks against it, or it was refused
for one reason. -/
def Settled (r : Report) : Prop :=
  (∃ c, r.functions = [c] ∧ ∀ x ∈ r.diagnostics, x.isError = false) ∨
    (r.functions = [] ∧ ∃ x, r.diagnostics = [x] ∧ x.isError = true)

end Report

namespace Pass

/-- The reports of the chunks, one for each. -/
def reports (ctx : PassContext) (p : Pass) : List Chunk → List Report
  | [] => []
  | chunk :: rest => (p.step ctx chunk).2 :: reports ctx (p.step ctx chunk).1 rest

/-- A pass takes the first chunk and then the others. -/
theorem run_cons (ctx : PassContext) (p : Pass) (c : Chunk) (cs : List Chunk) :
    p.run ctx (c :: cs) =
      (((p.step ctx c).1.run ctx cs).1, (p.step ctx c).2 ++ ((p.step ctx c).1.run ctx cs).2) :=
  rfl

/-- A line takes the first token and then the others. -/
theorem stepTokens_cons (p : Pass) (t : Token) (ts : List Token) :
    p.stepTokens (t :: ts) = (((p.stepToken t).1.stepTokens ts).1,
      (p.stepToken t).2 ++ ((p.stepToken t).1.stepTokens ts).2) := rfl

/-- The functions of a pass are those of its reports. By induction on the chunks. -/
theorem functions_run (ctx : PassContext) (p : Pass) (cs : List Chunk) :
    (p.run ctx cs).2.functions = (p.reports ctx cs).flatMap Report.functions := by
  induction cs generalizing p with
  | nil => rfl
  | cons c cs ih =>
    rw [reports, List.flatMap_cons, ← ih]
    rfl

/-- The diagnostics of a pass are those of its reports. By induction on the chunks. -/
theorem diagnostics_run (ctx : PassContext) (p : Pass) (cs : List Chunk) :
    (p.run ctx cs).2.diagnostics = (p.reports ctx cs).flatMap Report.diagnostics := by
  induction cs generalizing p with
  | nil => rfl
  | cons c cs ih =>
    rw [reports, List.flatMap_cons, ← ih]
    rfl

/-- The pass over two lists of chunks in a row. -/
theorem run_append (ctx : PassContext) (p : Pass) (cs ds : List Chunk) :
    p.run ctx (cs ++ ds) =
      (((p.run ctx cs).1.run ctx ds).1, (p.run ctx cs).2 ++ ((p.run ctx cs).1.run ctx ds).2) := by
  induction cs generalizing p with
  | nil => rfl
  | cons c cs ih =>
    rw [List.cons_append, run_cons, run_cons, ih, Report.append_assoc]

/-- Line ends do nothing. -/
theorem run_newlines (ctx : PassContext) (p : Pass) (gap : List Token) (cs : List Chunk) :
    p.run ctx (gap.map Chunk.newline ++ cs) = p.run ctx cs := by
  induction gap with
  | nil => rfl
  | cons t gap ih =>
    rw [List.map_cons, List.cons_append, run_cons, ← ih]
    rfl

/-! ## What a line can do -/

/-- All that an opening brace can do. -/
theorem openBrace_cases (p : Pass) (span : Span) :
    (∃ head, p.pending = some head ∧ p.openBrace span =
      ⟨p.tree.nest p.scope head.kind head.name, ⟨p.tree.size, span⟩ :: p.braces, none⟩) ∨
    (p.pending = none ∧ p.openBrace span = { p with braces := ⟨p.scope, span⟩ :: p.braces }) := by
  unfold openBrace
  split
  · next head hpending => exact .inl ⟨head, hpending, rfl⟩
  · next hpending => exact .inr ⟨hpending, rfl⟩

/-- All that a token of a line can do. -/
theorem stepToken_cases (p : Pass) (t : Token) :
    (t.kind = .openBrace ∧ p.stepToken t = (p.openBrace t.span, {})) ∨
    (t.kind = .closeBrace ∧ ∃ brace braces, p.braces = brace :: braces ∧
      p.stepToken t = ({ p with braces }, {})) ∨
    (t.kind = .closeBrace ∧ p.braces = [] ∧
      p.stepToken t = (p, ⟨[], [.error .splitting t.span "unmatched `\x7d`"]⟩)) ∨
    (t.kind ≠ .openBrace ∧ t.kind ≠ .closeBrace ∧ p.stepToken t = (p, {})) := by
  unfold stepToken
  split
  · next hkind => exact .inl ⟨hkind, rfl⟩
  · next hkind =>
    split
    · next brace braces hbraces => exact .inr (.inl ⟨hkind, brace, braces, hbraces, rfl⟩)
    · next hbraces => exact .inr (.inr (.inl ⟨hkind, hbraces, rfl⟩))
  · next hopen hclose => exact .inr (.inr (.inr ⟨hopen, hclose, rfl⟩))

/-- Before a line is read, it changes nothing but the type declaration that waits for its brace: the
old one waits on, the one of the line takes its place, or none is left. -/
theorem announce_eq (p : Pass) (line : List Token) :
    ∃ pending, p.announce line = { p with pending } ∧
      ∀ head ∈ pending, head ∈ p.pending ∨ TypeHead.ofLine? line = some head := by
  unfold announce
  split
  · next head hline => exact ⟨some head, rfl, fun _ hhead => .inr (hline.trans hhead)⟩
  · split
    · split
      · exact ⟨p.pending, rfl, fun _ hhead => .inl hhead⟩
      · exact ⟨none, rfl, by simp⟩
    · exact ⟨none, rfl, by simp⟩

/-! ## What is reported of a declaration -/

/-- All that is said of a declaration that was accepted. -/
theorem accepted_cases (ctx : PassContext) (c : Compiled) :
    accepted ctx c = ⟨[c], []⟩ ∨ ∃ earlier, c.shadows = some earlier ∧
      accepted ctx c = ⟨[c], [.warning .registration c.nameSpan
        ("function `" ++ c.name ++ "` shadows the definition on line " ++
          toString (earlier.line ctx.source))]⟩ := by
  unfold accepted
  cases c.shadows with
  | none => exact .inl rfl
  | some earlier =>
    dsimp only
    split
    · exact .inr ⟨earlier, rfl, rfl⟩
    · exact .inl rfl

/-- All that is said of an accepted declaration is that it hides an earlier one. -/
theorem eq_of_mem_accepted {ctx : PassContext} {c : Compiled} {x : Diagnostic}
    (hx : x ∈ (accepted ctx c).diagnostics) :
    ∃ earlier, c.shadows = some earlier ∧ x = .warning .registration c.nameSpan
      ("function `" ++ c.name ++ "` shadows the definition on line " ++
        toString (earlier.line ctx.source)) := by
  rcases accepted_cases ctx c with h | ⟨earlier, hshadows, h⟩
  · rw [h] at hx
    exact absurd hx List.not_mem_nil
  · rw [h] at hx
    exact ⟨earlier, hshadows, List.mem_singleton.mp hx⟩

/-- All that is said of a declaration that was refused. -/
theorem refused_cases (ctx : PassContext) (f : Fault) :
    (∃ name previous, f.cause = .duplicateFunction name previous ∧
      refused ctx f = ⟨[], [.error .registration f.span
        (f.message ++ "; first defined on line " ++ toString (previous.line ctx.source))]⟩) ∨
    refused ctx f = ⟨[], [.error .compiling f.span f.message]⟩ := by
  unfold refused
  split
  · next name previous hcause => exact .inl ⟨name, previous, hcause, rfl⟩
  · exact .inr rfl

/-- A declaration that was refused is blamed once, and not for how the source was cut. -/
theorem exists_refused (ctx : PassContext) (f : Fault) :
    ∃ phase message, (phase = .compiling ∨ phase = .registration) ∧
      refused ctx f = ⟨[], [.error phase f.span message]⟩ := by
  rcases refused_cases ctx f with ⟨name, previous, -, h⟩ | h
  · exact ⟨_, _, .inr rfl, h⟩
  · exact ⟨_, _, .inl rfl, h⟩

/-- All that is said of stray decorators is that no declaration follows them. -/
theorem eq_of_mem_stray {ts : List Token} {x : Diagnostic} (hx : x ∈ (stray ts).diagnostics) :
    ∃ span, x =
      .error .splitting span "decorators must be followed by a function declaration" := by
  unfold stray at hx
  split at hx
  · exact ⟨_, List.mem_singleton.mp hx⟩
  · exact absurd hx List.not_mem_nil

/-- A declaration that is accepted is not reported as an error. -/
theorem isError_accepted (ctx : PassContext) (c : Compiled) :
    ∀ x ∈ (accepted ctx c).diagnostics, x.isError = false := by
  intro x hx
  obtain ⟨earlier, -, rfl⟩ := eq_of_mem_accepted hx
  rfl

/-- The report of an accepted declaration is settled. -/
theorem settled_accepted (ctx : PassContext) (c : Compiled) : (accepted ctx c).Settled :=
  Or.inl ⟨c, rfl, isError_accepted ctx c⟩

/-- The report of a refused declaration is settled. -/
theorem settled_refused (ctx : PassContext) (f : Fault) : (refused ctx f).Settled := by
  obtain ⟨phase, message, -, h⟩ := exists_refused ctx f
  rw [h]
  exact Or.inr ⟨rfl, _, rfl, rfl⟩

/-- The report of a declaration that is accepted. -/
theorem stepDeclaration_of_ok {ctx : PassContext} (p : Pass) {tokens : List Token} {c : Compiled}
    (h : (ctx.compiler.compileBelow tokens p.tree p.scope).1 = .ok c) :
    (p.stepDeclaration ctx tokens).2 = accepted ctx c := by
  unfold stepDeclaration
  rcases hr : ctx.compiler.compileBelow tokens p.tree p.scope with ⟨result, tree, chain⟩
  rw [hr] at h
  obtain rfl : result = .ok c := h
  rfl

/-- The report of a declaration that is refused. -/
theorem stepDeclaration_of_error {ctx : PassContext} (p : Pass) {tokens : List Token} {f : Fault}
    (h : (ctx.compiler.compileBelow tokens p.tree p.scope).1 = .error f) :
    (p.stepDeclaration ctx tokens).2 = refused ctx f := by
  unfold stepDeclaration
  rcases hr : ctx.compiler.compileBelow tokens p.tree p.scope with ⟨result, tree, chain⟩
  rw [hr] at h
  obtain rfl : result = .error f := h
  rfl

/-- A declaration is accepted or refused. -/
theorem report_stepDeclaration (ctx : PassContext) (p : Pass) (tokens : List Token) :
    (∃ c, (p.stepDeclaration ctx tokens).2 = accepted ctx c) ∨
      ∃ fault, (p.stepDeclaration ctx tokens).2 = refused ctx fault := by
  cases h : (ctx.compiler.compileBelow tokens p.tree p.scope).1 with
  | ok c => exact .inl ⟨c, p.stepDeclaration_of_ok h⟩
  | error fault => exact .inr ⟨fault, p.stepDeclaration_of_error h⟩

/-- The report of a declaration is settled. -/
theorem settled_stepDeclaration (ctx : PassContext) (p : Pass) (tokens : List Token) :
    (p.stepDeclaration ctx tokens).2.Settled := by
  rcases p.report_stepDeclaration ctx tokens with ⟨c, h⟩ | ⟨fault, h⟩
  · exact h ▸ settled_accepted ctx c
  · exact h ▸ settled_refused ctx fault

/-- A declaration leaves its last token open if that is a brace. -/
theorem exists_braces_stepDeclaration (ctx : PassContext) (p : Pass) (tokens : List Token) :
    ∃ scope, (p.stepDeclaration ctx tokens).1.braces =
      (bodyBrace? scope tokens).toList ++ p.braces := by
  unfold stepDeclaration
  rcases ctx.compiler.compileBelow tokens p.tree p.scope with ⟨result, tree, chain⟩
  cases result with
  | ok c => exact ⟨chain.current, rfl⟩
  | error fault => exact ⟨chain.current, rfl⟩

/-- Every declaration among the chunks has a report of its own. -/
theorem exists_report_of_declaration (ctx : PassContext) (p : Pass) {cs : List Chunk} {i : Nat}
    {unit : List Token} (h : cs[i]? = some (.declaration unit)) :
    ∃ r, (p.reports ctx cs)[i]? = some r ∧ r.Settled := by
  induction cs generalizing p i with
  | nil => simp at h
  | cons c cs ih =>
    cases i with
    | zero =>
      rw [List.getElem?_cons_zero, Option.some.injEq] at h
      subst h
      exact ⟨_, rfl, p.settled_stepDeclaration ctx unit⟩
    | succ i => exact ih _ h

end Pass

/-- What the tokens of a file are compiled to, by the pass over its chunks. -/
theorem PassContext.compile_of_run {ctx : PassContext} {tree : Scope.Tree} {ts : List Token}
    {p : Pass} {report : Report}
    (h : Pass.run ctx { tree } (ctx.compiler.dialect.chunks ts) = (p, report)) :
    ctx.compile tree ts = ⟨report.functions,
      report.diagnostics ++ (p.unclosed (endSpan ts)).diagnostics, p.tree⟩ := by
  rw [compile, h]
  show (⟨report.functions ++ [], _, _⟩ : Compilation) = _
  rw [List.append_nil]
  rfl

namespace Settings

/-- A source that can be cut into tokens is compiled to what the pass over its chunks reports. -/
theorem compile_of_scan (s : Settings) (name : String) {source : String} {ts : List Token}
    (h : Token.scan source = .ok ts) :
    s.compile name source = (s.context name source).compile (s.emptyTree name) ts := by
  rw [compile, h]

/-- `compile` for a source of a limited number of lexemes. It is the form that evaluates. -/
def compileWithin (s : Settings) (steps : Nat) (name source : String) : Option Compilation :=
  match Token.scanWithin steps 0 source.toList with
  | some (.ok ts) => some ((s.context name source).compile (s.emptyTree name) ts)
  | _ => none

/-- What can be seen by evaluation holds of what the source is compiled to. -/
theorem view_compile {α : Type} (s : Settings) (steps : Nat) (view : Compilation → α)
    {name source : String} {seen : α}
    (h : (s.compileWithin steps name source).map view = some seen) :
    view (s.compile name source) = seen := by
  obtain ⟨result, hresult, rfl⟩ := Option.map_eq_some_iff.mp h
  unfold compileWithin at hresult
  split at hresult
  · next ts hscan =>
    rw [s.compile_of_scan name (Token.scan_of_scanWithin steps hscan), Option.some.inj hresult]
  · exact absurd hresult (by simp)

end Settings

end FuncDecl
