import FuncDecl.Proofs.Declaration.Admission
import FuncDecl.Proofs.Source.Reports

/-!
# Where the functions of a pass come from

A chunk changes the state of a pass in few ways. A line opens and closes braces; a declaration is
refused or accepted.

* `Pass.stepDeclaration_cases`: all that a declaration can do.
* `Pass.stepToken_induct` and `Pass.stepLine_induct`: what holds behind a token and behind a line,
  if it is kept where a brace opens and where one closes.
* `Pass.run_induct`: **induction over a pass**, with the tokens taken and the report made so far at
  hand.
* `Pass.Grounded fs p`: every function that is registered anywhere is one of those reported so far,
  and so is one that is said to be hidden by another one.
* `Pass.Grounded.step` and `Pass.Grounded.run`: one chunk and a whole pass keep this.
-/

namespace FuncDecl

/-! ## One declaration -/

/-- The nearest definition of a name is one that is registered under it. -/
theorem Scope.Tree.find?_of_nearest? {tree : Scope.Tree} {name : String} {id : Scope.Id}
    {found : Scope.Id × Signature} (h : tree.nearest? name id = some found) :
    (tree.get found.1).functions.find? name = some found.2 := by
  fun_induction nearest? tree name id with
  | case1 id signature hfind =>
    obtain rfl := Option.some.inj h
    exact hfind
  | case2 id _ parent _ _ ih => exact ih h
  | case3 => exact absurd h (by simp)
  | case4 => exact absurd h (by simp)

namespace Pass

variable {ctx : PassContext} {p : Pass}

/-- The state behind a declaration that leaves the given tree. -/
def behind (p : Pass) (unit : List Token) (tree : Scope.Tree) : Pass :=
  ⟨tree, (bodyBrace? p.tree.size unit).toList ++ p.braces, none⟩

/-- All that a declaration can do. -/
theorem stepDeclaration_cases (ctx : PassContext) (hp : p.scope < p.tree.size) (unit : List Token) :
    (∃ fault, ctx.compiler.judge unit (p.tree.nest p.scope .function "") (p.tree.get p.scope) =
        .error fault ∧
      (ctx.compiler.compileBelow unit p.tree p.scope).1 = .error fault ∧
      p.stepDeclaration ctx unit =
        (p.behind unit (p.tree.nest p.scope .function ""), refused ctx fault)) ∨
    ∃ h, Header.read ctx.compiler.dialect unit = .ok h ∧ h.Suits (p.tree.get p.scope) ∧
      let c := ctx.compiler.outcome h (p.tree.nest p.scope .function "") (p.tree.get p.scope)
      (ctx.compiler.compileBelow unit p.tree p.scope).1 = .ok c ∧
      p.stepDeclaration ctx unit = (p.behind unit (p.tree.accept p.scope h), accepted ctx c) := by
  unfold stepDeclaration
  rcases ctx.compiler.compileBelow_cases unit hp with ⟨fault, hjudge, h⟩ | ⟨h, hread, hsuits, hc⟩
  · rw [h]
    exact .inl ⟨fault, hjudge, rfl, rfl⟩
  · rw [hc]
    exact .inr ⟨h, hread, hsuits, rfl, rfl⟩

/-- An accepted declaration is reported as one function. -/
theorem functions_accepted (ctx : PassContext) (c : Compiled) :
    (accepted ctx c).functions = [c] := rfl

/-- A refused declaration is reported as none. -/
theorem functions_refused (ctx : PassContext) (f : Fault) : (refused ctx f).functions = [] := by
  obtain ⟨phase, message, -, h⟩ := exists_refused ctx f
  rw [h]

/-! ## Lines -/

/-- A line is reported as no function. By induction on its tokens. -/
theorem functions_stepTokens (p : Pass) (ts : List Token) : (p.stepTokens ts).2.functions = [] := by
  induction ts generalizing p with
  | nil => rfl
  | cons t ts ih =>
    have htoken : (p.stepToken t).2.functions = [] := by
      rcases p.stepToken_cases t with
        ⟨-, h⟩ | ⟨-, brace, braces, -, h⟩ | ⟨-, -, h⟩ | ⟨-, -, h⟩ <;> rw [h]
    rw [stepTokens_cons, Report.functions_append, htoken, ih]
    rfl

/-- Stray decorators are reported as no function. -/
theorem functions_stray (ts : List Token) : (stray ts).functions = [] := by
  unfold stray
  split <;> rfl

/-- A line is blamed for nothing but braces that close none. -/
theorem eq_of_mem_stepTokens {ts : List Token} {x : Diagnostic}
    (hx : x ∈ (p.stepTokens ts).2.diagnostics) :
    ∃ span, x = .error .splitting span "unmatched `\x7d`" := by
  induction ts generalizing p with
  | nil => exact absurd hx List.not_mem_nil
  | cons t ts ih =>
    rw [stepTokens_cons] at hx
    rcases List.mem_append.mp hx with hx | hx
    · rcases p.stepToken_cases t with
        ⟨-, h⟩ | ⟨-, brace, braces, -, h⟩ | ⟨-, -, h⟩ | ⟨-, -, h⟩ <;> rw [h] at hx
      · exact absurd hx List.not_mem_nil
      · exact absurd hx List.not_mem_nil
      · exact ⟨t.span, List.mem_singleton.mp hx⟩
      · exact absurd hx List.not_mem_nil
    · exact ih hx

section Line

variable {P : Pass → Prop} (opens : ∀ {p : Pass} (span : Span), P p → P (p.openBrace span))
  (closes : ∀ {p : Pass} {brace : OpenBrace} {braces : List OpenBrace},
    p.braces = brace :: braces → P p → P { p with braces })
include opens closes

/-- What holds of a state behind a token of a line, if it is kept where a brace opens and where a brace
closes. -/
theorem stepToken_induct (h : P p) (t : Token) : P (p.stepToken t).1 := by
  rcases p.stepToken_cases t with
    ⟨-, heq⟩ | ⟨-, brace, braces, hbraces, heq⟩ | ⟨-, -, heq⟩ | ⟨-, -, heq⟩ <;> rw [heq]
  · exact opens t.span h
  · exact closes hbraces h
  · exact h
  · exact h

/-- What holds of a state behind a line, if it is also kept where the type declaration that waits
changes. -/
theorem stepLine_induct (line : List Token)
    (waits : ∀ pending : Option TypeHead,
      (∀ head ∈ pending, head ∈ p.pending ∨ TypeHead.ofLine? line = some head) →
        P { p with pending }) : P (p.stepLine line).1 := by
  have htokens : ∀ ts p, P p → P (p.stepTokens ts).1 := by
    intro ts
    induction ts with
    | nil =>
      intro p h
      exact h
    | cons t ts ih =>
      intro p h
      exact ih _ (stepToken_induct opens closes h t)
  apply htokens
  obtain ⟨pending, heq, hpending⟩ := p.announce_eq line
  rw [heq]
  exact waits pending hpending

end Line

/-! ## Runs -/

/-- **Induction over a pass.** What holds of the tokens taken, the state and the report so far holds at
the end, if every chunk keeps it. -/
theorem run_induct {P : List Token → Pass → Report → Prop} {cs : List Chunk}
    (step : ∀ c ∈ cs, ∀ {taken : List Token} {p : Pass} {report : Report}, P taken p report →
      P (taken ++ c.tokens) (p.step ctx c).1 (report ++ (p.step ctx c).2))
    {taken : List Token} {report : Report} (h : P taken p report) :
    P (taken ++ cs.flatMap Chunk.tokens) (p.run ctx cs).1 (report ++ (p.run ctx cs).2) := by
  induction cs generalizing taken p report with
  | nil =>
    show P (taken ++ []) p ⟨report.functions ++ [], report.diagnostics ++ []⟩
    rw [List.append_nil, List.append_nil, List.append_nil]
    exact h
  | cons c cs ih =>
    rw [List.flatMap_cons, ← List.append_assoc, run_cons, ← Report.append_assoc]
    exact ih (fun c hc => step c (List.mem_cons_of_mem _ hc)) (step c List.mem_cons_self h)

/-! ## Grounded states -/

/-- What a pass that has reported the functions `fs` knows was reported: a function that is registered
is one of them, and a function that hides another one hides one that came before it. -/
structure Grounded (fs : List Compiled) (p : Pass) : Prop where
  nonempty : 0 < p.tree.size
  /-- The scopes of the open braces are there. -/
  braces : ∀ brace ∈ p.braces, brace.scope < p.tree.size
  functions : ∀ id, ∀ entry ∈ (p.tree.get id).functions.entries,
    ∃ c ∈ fs, entry = (c.name, c.signature)
  shadows : ∀ front c back, fs = front ++ c :: back → ∀ span ∈ c.shadows,
    ∃ earlier ∈ front, earlier.name = c.name ∧ earlier.nameSpan = span

namespace Grounded

variable {fs : List Compiled}

/-- At the beginning of a file nothing is registered. -/
theorem new (name : String) (k : Keywords) : Grounded [] { tree := .new name k } := by
  refine ⟨Nat.one_pos, fun _ h => absurd h List.not_mem_nil, fun id entry h => ?_, by simp⟩
  rw [(Scope.Tree.Records.new name k).functions id] at h
  exact absurd h List.not_mem_nil

/-- The scope of a state is in its tree. -/
theorem scope_lt (h : p.Grounded fs) : p.scope < p.tree.size := by
  unfold scope
  split
  · next brace rest hbraces => exact h.braces brace (by rw [hbraces]; exact List.mem_cons_self)
  · exact h.nonempty

/-- A function that is found in a scope was reported. -/
theorem functions_find? (h : p.Grounded fs) {id : Scope.Id} {name : String} {s : Signature}
    (hfind : (p.tree.get id).functions.find? name = some s) :
    ∃ c ∈ fs, c.name = name ∧ c.signature = s := by
  obtain ⟨front, back, hentries, -⟩ := List.lookup_eq_some_iff.mp hfind
  obtain ⟨c, hc, heq⟩ := h.functions id (name, s) (by rw [hentries]; simp)
  obtain ⟨rfl, rfl⟩ := Prod.mk.inj heq
  exact ⟨c, hc, rfl, rfl⟩

/-- A scope that is opened has no functions. -/
theorem nest (h : p.Grounded fs) (parent : Scope.Id) (kind : Scope.Kind) (name : String) :
    Grounded fs { p with tree := p.tree.nest parent kind name } := by
  have hsize := p.tree.size_nest parent kind name
  refine ⟨by rw [hsize]; omega, fun brace hbrace => ?_, fun id entry hentry => ?_, h.shadows⟩
  · rw [hsize]
    exact Nat.lt_succ_of_lt (h.braces brace hbrace)
  · rw [Scope.Tree.functions_nest] at hentry
    exact h.functions id entry hentry

/-- A brace that opens registers nothing. -/
theorem openBrace (h : p.Grounded fs) (span : Span) : (p.openBrace span).Grounded fs := by
  rcases p.openBrace_cases span with ⟨head, -, heq⟩ | ⟨-, heq⟩
  all_goals rw [heq]
  · have hnest := h.nest p.scope head.kind head.name
    refine ⟨hnest.nonempty, ?_, hnest.functions, h.shadows⟩
    rw [List.forall_mem_cons]
    refine ⟨?_, hnest.braces⟩
    rw [Scope.Tree.size_nest]
    exact Nat.lt_succ_self _
  · refine ⟨h.nonempty, ?_, h.functions, h.shadows⟩
    rw [List.forall_mem_cons]
    exact ⟨h.scope_lt, h.braces⟩

/-- A brace that closes registers nothing. -/
theorem closeBrace (h : p.Grounded fs) {brace : OpenBrace} {braces : List OpenBrace}
    (hbraces : p.braces = brace :: braces) : Grounded fs { p with braces } := by
  refine ⟨h.nonempty, fun b hb => h.braces b ?_, h.functions, h.shadows⟩
  rw [hbraces]
  exact List.mem_cons_of_mem _ hb

/-- A line registers nothing. -/
theorem stepLine (h : p.Grounded fs) (line : List Token) : (p.stepLine line).1.Grounded fs := by
  refine stepLine_induct (P := Grounded fs) ?_ ?_ line ?_
  · intro p span h
    exact h.openBrace span
  · intro p brace braces hbraces h
    exact h.closeBrace hbraces
  · intro pending _
    exact ⟨h.nonempty, h.braces, h.functions, h.shadows⟩

/-- The brace of a declaration belongs to the scope that was added for its body. -/
theorem behind (h : p.Grounded fs) {fs' : List Compiled} (unit : List Token) {tree : Scope.Tree}
    (hsize : tree.size = p.tree.size + 1)
    (hfunctions : ∀ id, ∀ entry ∈ (tree.get id).functions.entries,
      ∃ c ∈ fs', entry = (c.name, c.signature))
    (hshadows : ∀ front c back, fs' = front ++ c :: back → ∀ span ∈ c.shadows,
      ∃ earlier ∈ front, earlier.name = c.name ∧ earlier.nameSpan = span) :
    (p.behind unit tree).Grounded fs' := by
  refine ⟨by rw [Pass.behind, hsize]; omega, fun brace hbrace => ?_, hfunctions, hshadows⟩
  rw [Pass.behind, hsize]
  rcases List.mem_append.mp hbrace with hbody | hold
  · rw [Option.mem_toList, bodyBrace?] at hbody
    split at hbody
    · split at hbody
      · rw [← Option.some.inj hbody]
        exact Nat.lt_succ_self _
      · exact absurd hbody (by simp)
    · exact absurd hbody (by simp)
  · exact Nat.lt_succ_of_lt (h.braces brace hold)

/-- A function that hides another one hides one that was reported. -/
theorem exists_of_shadowed (h : p.Grounded fs) {parent kind name} {scope : Scope} {hidden : String}
    {span : Span}
    (hspan : Compiler.shadowed? (p.tree.nest parent kind name) scope hidden = some span) :
    ∃ earlier ∈ fs, earlier.name = hidden ∧ earlier.nameSpan = span := by
  unfold Compiler.shadowed? at hspan
  split at hspan
  · next outer houter =>
    obtain ⟨found, hfound, rfl⟩ := Option.map_eq_some_iff.mp hspan
    have hfind := Scope.Tree.find?_of_nearest? hfound
    rw [Scope.Tree.functions_nest] at hfind
    obtain ⟨c, hc, hname, hsignature⟩ := h.functions_find? hfind
    exact ⟨c, hc, hname, congrArg Signature.span hsignature⟩
  · exact absurd hspan (by simp)

/-- A declaration registers the function that it reports. -/
theorem stepDeclaration (h : p.Grounded fs) (ctx : PassContext) (unit : List Token) :
    (p.stepDeclaration ctx unit).1.Grounded (fs ++ (p.stepDeclaration ctx unit).2.functions) := by
  rcases stepDeclaration_cases ctx h.scope_lt unit with
    ⟨fault, -, -, hstep⟩ | ⟨header, -, -, -, hstep⟩
  · rw [hstep, functions_refused, List.append_nil]
    have hnest := h.nest p.scope .function ""
    exact h.behind unit (p.tree.size_nest ..) hnest.functions h.shadows
  · rw [hstep, functions_accepted]
    refine h.behind unit (Scope.Tree.size_accept ..) (fun id entry hentry => ?_) ?_
    · rw [Scope.Tree.functions_accept h.scope_lt] at hentry
      split at hentry
      · rcases Table.mem_entries_insert hentry with rfl | hold
        · exact ⟨_, List.mem_append_right _ (List.mem_singleton_self _), rfl⟩
        · obtain ⟨c, hc, heq⟩ := h.functions id entry hold
          exact ⟨c, List.mem_append_left _ hc, heq⟩
      · obtain ⟨c, hc, heq⟩ := h.functions id entry hentry
        exact ⟨c, List.mem_append_left _ hc, heq⟩
    · -- the new function is the last one
      intro front c back hfs span hspan
      rcases List.eq_nil_or_concat back with rfl | ⟨back', last, rfl⟩
      · obtain ⟨rfl, hc⟩ := List.append_inj' hfs rfl
        obtain rfl := List.singleton_inj.mp hc
        exact h.exists_of_shadowed hspan
      · rw [List.concat_eq_append, ← List.cons_append, ← List.append_assoc] at hfs
        obtain ⟨hfs', -⟩ := List.append_inj' hfs rfl
        exact h.shadows front c back' hfs' span hspan

/-- Every chunk keeps a state grounded in what is reported. -/
theorem step (h : p.Grounded fs) (ctx : PassContext) (c : Chunk) :
    (p.step ctx c).1.Grounded (fs ++ (p.step ctx c).2.functions) := by
  cases c with
  | newline t =>
    rw [Pass.step, List.append_nil]
    exact h
  | declaration unit => exact h.stepDeclaration ctx unit
  | stray unit =>
    rw [Pass.step, functions_stray, List.append_nil]
    exact h
  | line line =>
    rw [Pass.step, Pass.stepLine, functions_stepTokens, List.append_nil]
    exact h.stepLine line

/-- A pass over a source ends in a state that is grounded in its report. -/
theorem run (h : p.Grounded fs) (ctx : PassContext) (cs : List Chunk) :
    (p.run ctx cs).1.Grounded (fs ++ (p.run ctx cs).2.functions) :=
  @run_induct ctx p (fun _ p report => p.Grounded report.functions) cs
    (fun c _ _ _ _ h => h.step ctx c) [] ⟨fs, []⟩ h

end Grounded

end Pass

end FuncDecl
