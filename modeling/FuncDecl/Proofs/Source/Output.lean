import FuncDecl.Proofs.Declaration.PrintedLines
import FuncDecl.Proofs.Scope.Grafting
import FuncDecl.Proofs.Source.Accounts
import FuncDecl.Proofs.Source.Chunks

/-!
# The output of a source

Every accepted declaration is printed as a function of the scope that it stands in. That scope stays
what it is while the pass goes on: it may get more functions, and it keeps its kind and its place.

* `Compiled.lines_of_samePlace`: the lines of a function depend on its scope by what it is and where
  it stands.
* `Scope.Tree.homes`: the scopes that the bodies of functions are nested in, in the order of the
  bodies.
* `Scope.Tree.Prints`: a function that was accepted has the lines of a function in its scope. This
  stays so when the tree grows (`Scope.Tree.Prints.grow`).
* `Pass.Prints ctx vs p`: all verdicts so far are printed for their scopes. One chunk keeps this
  (`Pass.Prints.step`), and so does a whole pass (`Pass.Prints.run`).
* `Settings.output_lines`: **the output of a source**. The lines of a function are those for the
  scope around its body in the finished tree.
-/

namespace FuncDecl

/-- The lines of a function depend on its scope by what it is and where it stands. -/
theorem Compiled.lines_of_samePlace (c : Compiled) (unit : String) {s s' : Scope}
    (h : s.SamePlace s') : c.lines unit s' = c.lines unit s := by
  rw [lines, h.kind, h.indent, ← lines]

/-! ## The scopes around bodies -/

namespace Scope.Tree

variable {tree tree' : Scope.Tree} {unit : String}

/-- The scopes that the bodies of functions are nested in, in the order of the bodies. -/
def homes (tree : Scope.Tree) : List (Option Scope.Id) :=
  tree.bodies.map Scope.parent

/-- A body that is opened is nested in its parent. -/
theorem homes_nest (parent : Scope.Id) (kind : Scope.Kind) (name : String) :
    (tree.nest parent kind name).homes =
      tree.homes ++ if kind = .function then [some parent] else [] := by
  rw [homes, bodies_nest, List.map_append]
  split <;> rfl

/-- The body of an accepted declaration is nested in its scope. -/
theorem homes_accept {parent : Scope.Id} (hparent : parent < tree.size) (h : Header) :
    (tree.accept parent h).homes = tree.homes ++ [some parent] :=
  map_bodies_accept hparent h fun _ => rfl

/-- The verdict is on a declaration in the given scope: a function that was accepted has the lines of
a function there. -/
def Prints (tree : Scope.Tree) (unit : String) (home : Option Scope.Id) (v : Verdict) : Prop :=
  ∃ id ∈ home, id < tree.size ∧ ∀ c, v = .ok c →
    (c.output.toList.splitOn '\n').map String.ofList = c.lines unit (tree.get id) ∧ c.Lineless

/-- A tree that grows goes on to print what it has printed. -/
theorem Prints.grow {home : Option Scope.Id} {v : Verdict} (h : tree.Prints unit home v)
    (hplaces : ∀ id, id < tree.size → (tree.get id).SamePlace (tree'.get id))
    (hsize : tree.size ≤ tree'.size) : tree'.Prints unit home v := by
  obtain ⟨id, hhome, hid, hlines⟩ := h
  refine ⟨id, hhome, Nat.lt_of_lt_of_le hid hsize, fun c hc => ?_⟩
  rw [c.lines_of_samePlace unit (hplaces id hid)]
  exact hlines c hc

end Scope.Tree

/-! ## The output of a pass -/

namespace Pass

variable {ctx : PassContext} {p : Pass} {vs : List Verdict} {source : String} {tokens : List Token}

/-- Behind the verdicts `vs`, the scopes around the bodies are those that the functions are printed
for. -/
structure Prints (ctx : PassContext) (vs : List Verdict) (p : Pass) : Prop where
  homes : List.Forall₂ (p.tree.Prints ctx.compiler.indent) p.tree.homes vs
  pending : ∀ head ∈ p.pending, head.kind ≠ .function

namespace Prints

/-- At the beginning of a file nothing was printed. -/
theorem new (ctx : PassContext) (name : String) (k : Keywords) :
    Prints ctx [] { tree := .new name k } :=
  ⟨.nil, by simp⟩

/-- What was printed stays so when a scope is opened. -/
theorem homes_nest (h : p.Prints ctx vs) (parent : Scope.Id) (kind : Scope.Kind) (name : String) :
    List.Forall₂ ((p.tree.nest parent kind name).Prints ctx.compiler.indent) p.tree.homes vs := by
  refine h.homes.imp fun _ _ hprints => hprints.grow (fun id hid => ?_) ?_
  · rw [Scope.Tree.get_nest_of_lt hid]
    exact ⟨rfl, rfl, rfl⟩
  · rw [Scope.Tree.size_nest]
    exact Nat.le_succ _

/-- What was printed stays so when a function is entered. -/
theorem homes_accept (h : p.Prints ctx vs) (parent : Scope.Id) (header : Header) :
    List.Forall₂ ((p.tree.accept parent header).Prints ctx.compiler.indent) p.tree.homes vs := by
  refine h.homes.imp fun _ _ hprints => hprints.grow (fun id hid => ?_) ?_
  · exact p.tree.samePlace_accept parent header hid
  · rw [Scope.Tree.size_accept]
    exact Nat.le_succ _

/-- A brace that opens leaves what was printed. -/
theorem openBrace (h : p.Prints ctx vs) (span : Span) : (p.openBrace span).Prints ctx vs := by
  rcases p.openBrace_cases span with ⟨head, hpending, heq⟩ | ⟨hpending, heq⟩
  all_goals rw [heq]
  · refine ⟨?_, by simp⟩
    rw [Scope.Tree.homes_nest, if_neg (h.pending head hpending), List.append_nil]
    exact h.homes_nest _ _ _
  · exact ⟨h.homes, h.pending⟩

/-- A line leaves what was printed. -/
theorem stepLine (h : p.Prints ctx vs) (line : List Token) : (p.stepLine line).1.Prints ctx vs := by
  refine stepLine_induct (P := Prints ctx vs) ?_ ?_ line ?_
  · intro p span h
    exact h.openBrace span
  · intro p brace braces _ h
    exact ⟨h.homes, h.pending⟩
  · intro pending hpending
    refine ⟨h.homes, fun head hhead => ?_⟩
    rcases hpending head hhead with hold | hline
    · exact h.pending head hold
    · exact TypeHead.kind_ne_function hline

/-- A declaration is printed for the scope that it stands in. -/
theorem stepDeclaration (h : p.Prints ctx vs) (hscope : p.scope < p.tree.size)
    (hindent : '\n' ∉ ctx.compiler.indent.toList) (hscan : Token.scan source = .ok tokens)
    {unit : List Token} (hunit : unit <:+: tokens) :
    (p.stepDeclaration ctx unit).1.Prints ctx
      (vs ++ [(ctx.compiler.compileBelow unit p.tree p.scope).1]) := by
  rcases stepDeclaration_cases ctx hscope unit with
    ⟨fault, -, hverdict, hstep⟩ | ⟨header, hread, -, hverdict, hstep⟩
  · rw [hstep, hverdict]
    refine ⟨?_, by simp [behind]⟩
    show List.Forall₂ _ (p.tree.nest p.scope .function "").homes _
    rw [Scope.Tree.homes_nest, if_pos rfl]
    refine List.rel_append (h.homes_nest _ _ _) (.cons ⟨p.scope, rfl, ?_, by simp⟩ .nil)
    show p.scope < (p.tree.nest p.scope .function "").size
    rw [Scope.Tree.size_nest]
    exact Nat.lt_succ_of_lt hscope
  · rw [hstep, hverdict]
    refine ⟨?_, by simp [behind]⟩
    show List.Forall₂ _ (p.tree.accept p.scope header).homes _
    rw [Scope.Tree.homes_accept hscope]
    refine List.rel_append (h.homes_accept _ _) (.cons ⟨p.scope, rfl, ?_, fun c hc => ?_⟩ .nil)
    · show p.scope < (p.tree.accept p.scope header).size
      rw [Scope.Tree.size_accept]
      exact Nat.lt_succ_of_lt hscope
    · obtain rfl := Except.ok.inj hc
      have hlines := Compiler.lineless_outcome hscan hunit hread ctx.compiler
        (p.tree.nest p.scope .function "") (p.tree.get p.scope)
      rw [Compiled.lines_of_samePlace _ _ (p.tree.samePlace_accept p.scope header hscope)]
      exact ⟨Compiler.splitOn_output hindent hlines, hlines⟩

/-- A chunk is printed for the scope that it stands in, if it is a declaration. -/
theorem step (h : p.Prints ctx vs) (hscope : p.scope < p.tree.size)
    (hindent : '\n' ∉ ctx.compiler.indent.toList) (hscan : Token.scan source = .ok tokens)
    {c : Chunk} (hc : c.tokens <:+: tokens) :
    (p.step ctx c).1.Prints ctx
      (vs ++ (c.unit?.map fun unit => (ctx.compiler.compileBelow unit p.tree p.scope).1).toList) := by
  cases c with
  | newline t =>
    show p.Prints ctx (vs ++ [])
    rwa [List.append_nil]
  | declaration unit => exact h.stepDeclaration hscope hindent hscan hc
  | stray unit =>
    show p.Prints ctx (vs ++ [])
    rwa [List.append_nil]
  | line line =>
    show (p.stepLine line).1.Prints ctx (vs ++ [])
    rw [List.append_nil]
    exact h.stepLine line

/-- Every verdict of a pass is printed for its scope. -/
theorem run (h : p.Prints ctx vs) {fs : List Compiled} (hground : p.Grounded fs)
    (hindent : '\n' ∉ ctx.compiler.indent.toList) (hscan : Token.scan source = .ok tokens)
    {cs : List Chunk} (hcs : cs.flatMap Chunk.tokens <:+: tokens) :
    (p.run ctx cs).1.Prints ctx (vs ++ p.verdicts ctx cs) := by
  induction cs generalizing p vs fs with
  | nil =>
    rw [verdicts, List.append_nil]
    exact h
  | cons c cs ih =>
    rw [List.flatMap_cons] at hcs
    rw [verdicts, ← List.append_assoc, run_cons]
    refine ih (h.step hground.scope_lt hindent hscan ?_) (hground.step ctx c) ?_
    · exact (List.prefix_append _ _).isInfix.trans hcs
    · exact (List.suffix_append _ _).isInfix.trans hcs

end Prints

end Pass

/-! ## The whole source -/

namespace Settings

/-- No line end is in the indentation of a project. -/
theorem newline_not_mem_indent (s : Settings) : '\n' ∉ s.indent.toList := by
  rw [indent]
  split
  · decide
  · simp

/-- At the end of a source all its verdicts are printed for their scopes. -/
theorem prints_compile (s : Settings) (name source : String) :
    List.Forall₂ ((s.compile name source).scopes.Prints s.indent)
      (s.compile name source).scopes.homes (s.verdicts name source) := by
  cases hscan : Token.scan source with
  | error fault =>
    simp only [compile, verdicts, hscan]
    exact .nil
  | ok ts =>
    have hchunks :
        ((s.context name source).compiler.dialect.chunks ts).flatMap Chunk.tokens <:+: ts :=
      ⟨[], [], by rw [List.nil_append, List.append_nil, Dialect.flatMap_tokens_chunks]⟩
    have hnew := Pass.Prints.new (s.context name source) name s.spellings
    have hrun := hnew.run (.new name s.spellings) s.newline_not_mem_indent hscan hchunks
    simp only [compile, verdicts, hscan]
    exact hrun.homes

/-- **The output of a source.** The compiled functions are the declarations that were accepted, and
their bodies are scopes of the tree. Each is printed in the lines that `Compiled.lines` specifies for
the scope around its body, and in none of its texts there is a line end.
Source: `compile`, `render` and `append_token`. -/
theorem output_lines (s : Settings) (name source : String) :
    let result := s.compile name source
    let bodies := result.scopes.scopes.toList.filter (·.kind == .function)
    let verdicts := s.verdicts name source
    result.functions = verdicts.filterMap Except.toOption ∧
      bodies.length = verdicts.length ∧
      ∀ body c, (body, .ok c) ∈ bodies.zip verdicts →
        body.name = c.name ∧ ∃ parent ∈ body.parent, parent < result.scopes.size ∧
          (c.output.toList.splitOn '\n').map String.ofList =
            c.lines s.indent (result.scopes.get parent) ∧
          c.Lineless := by
  intro result bodies verdicts
  obtain ⟨hfunctions, -, hfaces, -⟩ := s.accounts_compile name source
  have hnames : List.Forall₂ (fun body v => (body.name, body.bindings.entries) = Verdict.body v)
      bodies verdicts := by
    have hsame : List.Forall₂ (· = ·) (bodies.map fun s => (s.name, s.bindings.entries))
        (verdicts.map Verdict.body) := by
      rw [List.forall₂_eq_eq_eq]
      exact hfaces
    exact List.forall₂_map_right_iff.mp (List.forall₂_map_left_iff.mp hsame)
  have hprints : List.Forall₂ (fun body v => result.scopes.Prints s.indent body.parent v)
      bodies verdicts :=
    List.forall₂_map_left_iff.mp (s.prints_compile name source)
  refine ⟨hfunctions, hprints.length_eq, fun body c hzip => ?_⟩
  obtain ⟨parent, hparent, hlt, hlines⟩ := (List.forall₂_iff_zip.mp hprints).2 hzip
  exact ⟨congrArg Prod.fst ((List.forall₂_iff_zip.mp hnames).2 hzip), parent, hparent, hlt,
    hlines c rfl⟩

/-- A method of an interface, with a header over several lines. -/
theorem output_lines_of_interface :
    let source := "interface I \x7b\n@a.b(\n1)\nasync final fn f(self, x: Map<unknown,\nint>) -> Of<unknown>\n;\n\x7d"
    let s : Settings := {}
    let result := s.compile "v" source
    let bodies := result.scopes.scopes.toList.filter (·.kind == .function)
    ∃ body c parent, (body, .ok c) ∈ bodies.zip (s.verdicts "v" source) ∧ parent ∈ body.parent ∧
      (result.scopes.get parent).kind = .interfaceType ∧
      c.output = "    @a.b(1)\n    @final\n    @abstractmethod\n" ++
        "    async def f(self, x: Map<Any,int>) -> Of<Any>:\n        pass" ∧
      (c.output.toList.splitOn '\n').map String.ofList =
        c.lines s.indent (result.scopes.get parent) ∧
      c.Lineless := by
  intro source s result bodies
  obtain ⟨hfunctions, hlength, hlines⟩ := output_lines s "v" source
  have houtput : result.functions.map (·.output) = ["    @a.b(1)\n    @final\n    @abstractmethod\n" ++
      "    async def f(self, x: Map<Any,int>) -> Of<Any>:\n        pass"] :=
    view_compile _ 100 (fun r => r.functions.map (·.output)) (by decide +kernel)
  have hhomes : result.scopes.homes.map (·.map fun id => (result.scopes.get id).kind) =
      [some .interfaceType] :=
    view_compile _ 100 (fun r => r.scopes.homes.map (·.map fun id => (r.scopes.get id).kind))
      (by decide +kernel)
  -- there is one function, with one body
  obtain ⟨c, hc, hcout⟩ := List.map_eq_singleton_iff.mp houtput
  obtain ⟨home, hhome, hkind⟩ := List.map_eq_singleton_iff.mp hhomes
  obtain ⟨body, hbody, hparent⟩ := List.map_eq_singleton_iff.mp hhome
  obtain ⟨parent, hhome, hkind⟩ := Option.map_eq_some_iff.mp hkind
  rw [hhome] at hparent
  have hone : (s.verdicts "v" source).length = 1 := by
    rw [← hlength]
    exact congrArg List.length hbody
  obtain ⟨v, hv⟩ := List.length_eq_one_iff.mp hone
  have hverdict : v = .ok c := by
    have hsome : [v].filterMap Except.toOption = [c] := by
      rw [← hv, ← hfunctions]
      exact hc
    cases v with
    | error fault => exact absurd hsome.symm (List.cons_ne_nil c [])
    | ok c' => rw [List.singleton_inj.mp hsome]
  have hzip : (body, .ok c) ∈ bodies.zip (s.verdicts "v" source) := by
    rw [show bodies = [body] from hbody, hv, hverdict]
    exact List.mem_singleton_self _
  obtain ⟨-, parent', hparent', -, hsplit, hlineless⟩ := hlines body c hzip
  obtain rfl : parent = parent' := Option.some.inj (hparent.symm.trans hparent')
  exact ⟨body, c, parent, hzip, hparent', hkind, hcout, hsplit, hlineless⟩

end Settings

end FuncDecl
