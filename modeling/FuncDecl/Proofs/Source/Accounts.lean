import FuncDecl.Proofs.Declaration.Registry
import FuncDecl.Proofs.Source.Origins

/-!
# Every declaration is accounted for

Each declaration of a source gets a verdict: it becomes a function or is refused for a fault. The
verdicts are the books of a pass.

* `Pass.verdicts`: the verdicts on the declarations among some chunks. There is one for each
  (`Pass.length_verdicts`).
* `Scope.Tree.faces`: what the scopes of function bodies are known by, their names and their
  variables. `Scope.Tree.faces_nest` and `Scope.Tree.faces_accept` say how they grow.
* `Scope.Tree.LocalsInBodies`: only the scopes of function bodies have variables.
* `Pass.Accounts ctx vs p report`: the functions and the refusals that are reported are those of the
  verdicts, and the scopes of function bodies are one for each verdict, in the same order: that of
  an accepted function has its name and its parameters, that of a refused declaration has neither.
  One chunk keeps this (`Pass.Accounts.step`), and so does a whole pass (`Pass.Accounts.run`).
* `Settings.units_accounted`: **every declaration is accounted for once**.
-/

namespace FuncDecl

/-! ## Verdicts -/

/-- What becomes of a declaration. -/
abbrev Verdict := Except Fault Compiled

namespace Verdict

/-- The name and the variables of the scope that a declaration leaves for its body. -/
def body : Verdict → String × List (String × String)
  | .ok c => (c.name, c.params.entries.map fun (param, info) => (param, info.type))
  | .error _ => ("", [])

/-- What is reported against a declaration. -/
def refusals (ctx : PassContext) : Verdict → List Diagnostic
  | .ok _ => []
  | .error fault => (Pass.refused ctx fault).diagnostics

end Verdict

/-- Whether a diagnostic is the error of a declaration that was refused. -/
def Diagnostic.isRefusal (x : Diagnostic) : Bool :=
  x.isError && (x.phase == .compiling || x.phase == .registration)

/-- The tokens of a chunk that is a declaration. -/
def Chunk.unit? : Chunk → Option (List Token)
  | .declaration unit => some unit
  | _ => none

/-- The verdicts on the declarations among the chunks. -/
def Pass.verdicts (ctx : PassContext) (p : Pass) : List Chunk → List Verdict
  | [] => []
  | chunk :: rest =>
    (chunk.unit?.map fun unit => (ctx.compiler.compileBelow unit p.tree p.scope).1).toList ++
      verdicts ctx (p.step ctx chunk).1 rest

/-- Every declaration has one verdict. -/
theorem Pass.length_verdicts (ctx : PassContext) (p : Pass) (cs : List Chunk) :
    (p.verdicts ctx cs).length = (cs.filterMap Chunk.unit?).length := by
  induction cs generalizing p with
  | nil => rfl
  | cons c cs ih =>
    rw [verdicts, List.length_append, ih]
    cases hunit : c.unit? with
    | none => rw [List.filterMap_cons_none hunit, Option.map_none, Option.toList_none,
        List.length_nil, Nat.zero_add]
    | some unit =>
      rw [List.filterMap_cons_some hunit, List.length_cons, Nat.add_comm]
      rfl

/-! ## The scopes of bodies -/

namespace Scope.Tree

variable {tree : Scope.Tree}

/-- The scopes of function bodies, in the order of their indices. -/
def bodies (tree : Scope.Tree) : List Scope :=
  tree.scopes.toList.filter (·.kind == .function)

/-- What the scope of a body is known by: its name and its variables. -/
def faces (tree : Scope.Tree) : List (String × List (String × String)) :=
  tree.bodies.map fun s => (s.name, s.bindings.entries)

/-- A change of a scope that touches neither what scopes are chosen by nor what is looked at. -/
theorem map_filter_modify {α : Type} {f : Scope → Scope} {keep : Scope → Bool} {view : Scope → α}
    (hkeep : ∀ s, keep (f s) = keep s) (hview : ∀ s, view (f s) = view s) (scopes : List Scope)
    (id : Scope.Id) : ((scopes.modify id f).filter keep).map view = (scopes.filter keep).map view := by
  induction scopes generalizing id with
  | nil => cases id <;> rfl
  | cons s scopes ih =>
    cases id with
    | zero =>
      rw [List.modify_zero_cons, List.filter_cons, List.filter_cons, hkeep]
      split
      · rw [List.map_cons, List.map_cons, hview]
      · rfl
    | succ id =>
      rw [List.modify_succ_cons, List.filter_cons, List.filter_cons]
      split
      · rw [List.map_cons, List.map_cons, ih]
      · exact ih id

/-- A scope that is opened is the last of the bodies, if it is one. -/
theorem bodies_nest (parent : Scope.Id) (kind : Scope.Kind) (name : String) :
    (tree.nest parent kind name).bodies = tree.bodies ++ if kind = .function then
      [{ kind, name, indent := (tree.get parent).indent + 1, parent := some parent }] else [] := by
  unfold bodies
  rw [toList_nest, List.filter_append]
  congr 1
  by_cases hkind : kind = .function
  · rw [if_pos hkind, hkind]
    rfl
  · rw [if_neg hkind, List.filter_singleton, beq_eq_false_iff_ne.mpr hkind]
    rfl

/-- A function that is accepted gets the last of the bodies. What is looked at in the others is not
touched by entering it in its scope. -/
theorem map_bodies_accept {α : Type} {view : Scope → α} {parent : Scope.Id}
    (hparent : parent < tree.size) (h : Header)
    (hview : ∀ s, view (Scope.define h.name.text h.signature s) = view s) :
    (tree.accept parent h).bodies.map view =
      tree.bodies.map view ++ [view (h.body parent ((tree.get parent).indent + 1))] := by
  unfold bodies
  rw [toList_accept hparent, List.filter_append, List.map_append,
    map_filter_modify (f := Scope.define h.name.text h.signature) (fun _ => rfl) hview]
  rfl

/-- A body that is opened has its name and no variables. -/
theorem faces_nest (parent : Scope.Id) (kind : Scope.Kind) (name : String) :
    (tree.nest parent kind name).faces =
      tree.faces ++ if kind = .function then [(name, [])] else [] := by
  rw [faces, bodies_nest, List.map_append]
  split <;> rfl

/-- The scope of an accepted function has its name and its parameters. -/
theorem faces_accept {parent : Scope.Id} (hparent : parent < tree.size) {h : Header}
    (hparams : h.params.WellFormed) :
    (tree.accept parent h).faces = tree.faces ++
      [(h.name.text, h.params.entries.map fun (param, info) => (param, info.type))] := by
  have hlocals : (Table.ofList h.signature.locals).entries = h.signature.locals := by
    apply Table.entries_ofList_of_nodup
    unfold Signature.locals
    rw [List.map_map]
    exact hparams.distinct
  rw [faces, map_bodies_accept hparent h fun _ => rfl]
  show _ ++ [(h.name.text, (Table.ofList h.signature.locals).entries)] = _
  rw [hlocals]
  rfl

/-- Only the scopes of function bodies have variables. -/
def LocalsInBodies (tree : Scope.Tree) : Prop :=
  ∀ scope ∈ tree.scopes.toList, scope.kind ≠ .function → scope.bindings = .empty

/-- A scope that is opened has no variables. -/
theorem LocalsInBodies.nest (h : tree.LocalsInBodies) (parent : Scope.Id) (kind : Scope.Kind)
    (name : String) : (tree.nest parent kind name).LocalsInBodies := by
  intro scope hscope hkind
  rw [toList_nest, List.mem_append, List.mem_singleton] at hscope
  rcases hscope with hold | rfl
  · exact h scope hold hkind
  · rfl

/-- The parameters of an accepted declaration go to the scope of its body. -/
theorem LocalsInBodies.accept (h : tree.LocalsInBodies) {parent : Scope.Id}
    (hparent : parent < tree.size) (header : Header) :
    (tree.accept parent header).LocalsInBodies := by
  intro scope hscope hkind
  rw [toList_accept hparent, List.mem_append, List.mem_singleton] at hscope
  rcases hscope with hold | rfl
  · rw [List.mem_iff_getElem?] at hold
    obtain ⟨i, hi⟩ := hold
    rw [List.getElem?_modify] at hi
    obtain ⟨old, hold, rfl⟩ := Option.map_eq_some_iff.mp hi
    have hmem := List.mem_of_getElem? hold
    split at hkind
    · next hid =>
      rw [if_pos hid]
      exact h old hmem hkind
    · next hid =>
      rw [if_neg hid]
      exact h old hmem hkind
  · exact absurd rfl hkind

end Scope.Tree

/-! ## The books of a pass -/

/-- A type declaration opens a scope with methods. -/
theorem TypeHead.hasMethods_kind {line : List Token} {head : TypeHead}
    (h : TypeHead.ofLine? line = some head) : head.kind.hasMethods = true := by
  unfold TypeHead.ofLine? at h
  split at h
  · exact absurd h (by simp)
  · split at h
    · split at h
      · next t _ _ _ kind hkeyword =>
        have hmem : (t.text, kind) ∈ Scope.Kind.keywords := by
          obtain ⟨front, back, heq, -⟩ := List.lookup_eq_some_iff.mp hkeyword
          rw [heq]
          simp
        have hall : ∀ entry ∈ Scope.Kind.keywords, entry.2.hasMethods = true := by decide
        rw [← Option.some.inj h]
        exact hall _ hmem
      · exact absurd h (by simp)
    · exact absurd h (by simp)

/-- The scope of a type is no function body. -/
theorem TypeHead.kind_ne_function {line : List Token} {head : TypeHead}
    (h : TypeHead.ofLine? line = some head) : head.kind ≠ .function := by
  intro hkind
  have hmethods := hasMethods_kind h
  rw [hkind] at hmethods
  exact absurd hmethods (by decide)

namespace Pass

variable {ctx : PassContext} {p : Pass} {vs : List Verdict} {report : Report}

/-- A pass that has given the verdicts `vs` has reported them and has kept a scope for each. -/
structure Accounts (ctx : PassContext) (vs : List Verdict) (p : Pass) (report : Report) : Prop where
  grounded : p.Grounded report.functions
  functions : report.functions = vs.filterMap Except.toOption
  refusals : report.diagnostics.filter Diagnostic.isRefusal = vs.flatMap (Verdict.refusals ctx)
  faces : p.tree.faces = vs.map Verdict.body
  locals : p.tree.LocalsInBodies
  pending : ∀ head ∈ p.pending, head.kind ≠ .function

/-- What lines and stray decorators are reported for is no refusal. -/
theorem isRefusal_stepTokens (p : Pass) (ts : List Token) :
    (p.stepTokens ts).2.diagnostics.filter Diagnostic.isRefusal = [] := by
  refine List.filter_eq_nil_iff.mpr fun x hx => ?_
  obtain ⟨span, rfl⟩ := eq_of_mem_stepTokens hx
  exact Bool.false_ne_true

/-- Stray decorators are no refusal. -/
theorem isRefusal_stray (ts : List Token) :
    (stray ts).diagnostics.filter Diagnostic.isRefusal = [] := by
  refine List.filter_eq_nil_iff.mpr fun x hx => ?_
  obtain ⟨span, rfl⟩ := eq_of_mem_stray hx
  exact Bool.false_ne_true

/-- All that a refused declaration is reported for is its refusal. -/
theorem isRefusal_refused (ctx : PassContext) (f : Fault) :
    (refused ctx f).diagnostics.filter Diagnostic.isRefusal = (refused ctx f).diagnostics := by
  obtain ⟨phase, message, hphase, h⟩ := exists_refused ctx f
  rw [h]
  rcases hphase with rfl | rfl
  · rfl
  · rfl

/-- What an accepted declaration is reported for is no refusal. -/
theorem isRefusal_accepted (ctx : PassContext) (c : Compiled) :
    (accepted ctx c).diagnostics.filter Diagnostic.isRefusal = [] := by
  rw [List.filter_eq_nil_iff]
  intro x hx
  rw [Diagnostic.isRefusal, isError_accepted ctx c x hx]
  exact Bool.false_ne_true

/-- Braces that are left open are no refusal. -/
theorem isRefusal_unclosed (p : Pass) (stop : Span) :
    (p.unclosed stop).diagnostics.filter Diagnostic.isRefusal = [] := by
  rw [List.filter_eq_nil_iff]
  intro x hx
  obtain ⟨brace, -, rfl⟩ := List.mem_map.mp hx
  exact Bool.false_ne_true

namespace Accounts

/-- The books are empty at the beginning of a file. -/
theorem new (ctx : PassContext) (name : String) (k : Keywords) :
    Accounts ctx [] { tree := .new name k } {} where
  grounded := .new name k
  functions := rfl
  refusals := rfl
  faces := rfl
  locals := by
    intro scope hscope _
    obtain rfl := List.mem_singleton.mp hscope
    rfl
  pending := fun _ h => absurd h (by simp)

/-- The books are kept by lines: the scopes that they add are those of types. -/
theorem stepLine (h : p.Accounts ctx vs report) (line : List Token) :
    (p.stepLine line).1.Accounts ctx vs report := by
  refine stepLine_induct (P := fun p => p.Accounts ctx vs report) ?_ ?_ line ?_
  · intro p span h
    have hground := h.grounded.openBrace span
    rcases p.openBrace_cases span with ⟨head, hpending, heq⟩ | ⟨hpending, heq⟩
    all_goals rw [heq] at hground ⊢
    · refine ⟨hground, h.functions, h.refusals, ?_, h.locals.nest _ _ _, by simp⟩
      rw [Scope.Tree.faces_nest, if_neg (h.pending head hpending), List.append_nil]
      exact h.faces
    · exact ⟨hground, h.functions, h.refusals, h.faces, h.locals, h.pending⟩
  · intro p brace braces hbraces h
    exact ⟨h.grounded.closeBrace hbraces, h.functions, h.refusals, h.faces, h.locals, h.pending⟩
  · intro pending hpending
    have hkinds : ∀ head ∈ pending, head.kind ≠ .function := by
      intro head hhead
      rcases hpending head hhead with hold | hline
      · exact h.pending head hold
      · exact TypeHead.kind_ne_function hline
    have hground := h.grounded
    exact ⟨⟨hground.nonempty, hground.braces, hground.functions, hground.shadows⟩, h.functions,
      h.refusals, h.faces, h.locals, hkinds⟩

/-- A report that has neither functions nor refusals is not in the books. -/
theorem append_other (h : p.Accounts ctx vs report) {other : Report} (hfunctions : other.functions = [])
    (hrefusals : other.diagnostics.filter Diagnostic.isRefusal = []) :
    p.Accounts ctx vs (report ++ other) := by
  have heq : (report ++ other).functions = report.functions := by
    rw [Report.functions_append, hfunctions, List.append_nil]
  refine ⟨heq ▸ h.grounded, heq ▸ h.functions, ?_, h.faces, h.locals, h.pending⟩
  rw [Report.diagnostics_append, List.filter_append, hrefusals, List.append_nil]
  exact h.refusals

/-- Braces that are left open are not in the books. -/
theorem unclosed (h : p.Accounts ctx vs report) (stop : Span) :
    p.Accounts ctx vs (report ++ p.unclosed stop) :=
  h.append_other rfl (isRefusal_unclosed p stop)

/-- A declaration is entered with its verdict. -/
theorem stepDeclaration (h : p.Accounts ctx vs report) (unit : List Token) :
    (p.stepDeclaration ctx unit).1.Accounts ctx
      (vs ++ [(ctx.compiler.compileBelow unit p.tree p.scope).1])
      (report ++ (p.stepDeclaration ctx unit).2) := by
  have hscope := h.grounded.scope_lt
  have hground := h.grounded.stepDeclaration ctx unit
  rcases stepDeclaration_cases ctx hscope unit with
    ⟨fault, -, hverdict, hstep⟩ | ⟨header, hread, hsuits, hverdict, hstep⟩
  · rw [hstep] at hground ⊢
    rw [hverdict]
    refine ⟨hground, ?_, ?_, ?_, h.locals.nest _ _ _, by simp [behind]⟩
    · rw [Report.functions_append, functions_refused, List.append_nil, List.filterMap_append,
        h.functions]
      exact (List.append_nil _).symm
    · rw [Report.diagnostics_append, List.filter_append, h.refusals, isRefusal_refused,
        List.flatMap_append, List.flatMap_singleton]
      rfl
    · rw [List.map_append, ← h.faces]
      exact p.tree.faces_nest _ _ _
  · have hparams := (Header.wellFormed_signature hread hsuits).params
    rw [hstep] at hground ⊢
    rw [hverdict]
    refine ⟨hground, ?_, ?_, ?_, h.locals.accept hscope header, by simp [behind]⟩
    · rw [Report.functions_append, functions_accepted, List.filterMap_append, h.functions]
      rfl
    · rw [Report.diagnostics_append, List.filter_append, h.refusals, isRefusal_accepted,
        List.flatMap_append]
      rfl
    · rw [List.map_append, ← h.faces]
      exact Scope.Tree.faces_accept hscope hparams

/-- Every chunk is entered in the books. -/
theorem step (h : p.Accounts ctx vs report) (c : Chunk) :
    (p.step ctx c).1.Accounts ctx
      (vs ++ (c.unit?.map fun unit => (ctx.compiler.compileBelow unit p.tree p.scope).1).toList)
      (report ++ (p.step ctx c).2) := by
  cases c with
  | newline t =>
    show p.Accounts ctx (vs ++ []) (report ++ {})
    rw [List.append_nil]
    exact h.append_other rfl rfl
  | declaration unit => exact h.stepDeclaration unit
  | stray unit =>
    show p.Accounts ctx (vs ++ []) (report ++ stray unit)
    rw [List.append_nil]
    exact h.append_other (functions_stray unit) (isRefusal_stray unit)
  | line line =>
    show (p.stepLine line).1.Accounts ctx (vs ++ []) (report ++ (p.stepLine line).2)
    rw [List.append_nil]
    exact (h.stepLine line).append_other (functions_stepTokens _ line) (isRefusal_stepTokens _ line)

/-- The books of a whole pass. -/
theorem run (h : p.Accounts ctx vs report) (cs : List Chunk) :
    (p.run ctx cs).1.Accounts ctx (vs ++ p.verdicts ctx cs) (report ++ (p.run ctx cs).2) := by
  induction cs generalizing p vs report with
  | nil =>
    rw [verdicts, List.append_nil]
    exact h.append_other rfl rfl
  | cons c cs ih =>
    rw [verdicts, ← List.append_assoc, run_cons, ← Report.append_assoc]
    exact ih (h.step c)

end Accounts

end Pass

/-! ## The whole source -/

namespace Settings

/-- The declarations of a source, one list of tokens for each. -/
def units (s : Settings) (name source : String) : List (List Token) :=
  match Token.scan source with
  | .error _ => []
  | .ok ts => ((s.context name source).compiler.dialect.chunks ts).filterMap Chunk.unit?

/-- The verdicts on the declarations of a source. -/
def verdicts (s : Settings) (name source : String) : List Verdict :=
  match Token.scan source with
  | .error _ => []
  | .ok ts =>
    let ctx := s.context name source
    Pass.verdicts ctx { tree := s.emptyTree name } (ctx.compiler.dialect.chunks ts)

/-- Every declaration of a source has one verdict. -/
theorem length_verdicts (s : Settings) (name source : String) :
    (s.verdicts name source).length = (s.units name source).length := by
  unfold verdicts units
  cases Token.scan source with
  | error fault => rfl
  | ok ts => exact Pass.length_verdicts _ _ _

/-- The books of a source at its end. The braces that are left open are reported besides. -/
theorem accounts_compile (s : Settings) (name source : String) :
    let result := s.compile name source
    let verdicts := s.verdicts name source
    result.functions = verdicts.filterMap Except.toOption ∧
      result.diagnostics.filter Diagnostic.isRefusal =
        verdicts.flatMap (Verdict.refusals (s.context name source)) ∧
      result.scopes.faces = verdicts.map Verdict.body ∧ result.scopes.LocalsInBodies := by
  intro result verdicts
  have hnew := Pass.Accounts.new (s.context name source) name s.spellings
  cases hscan : Token.scan source with
  | error fault =>
    have hresult : result = ⟨[], [.error .lexing fault.span fault.message], s.emptyTree name⟩ := by
      simp only [result, Settings.compile, hscan]
    have hverdicts : verdicts = [] := by
      simp only [verdicts, Settings.verdicts, hscan]
    rw [hresult, hverdicts]
    exact ⟨rfl, rfl, rfl, hnew.locals⟩
  | ok ts =>
    have hresult : result = _ := s.compile_of_scan name hscan
    have hverdicts : verdicts = Pass.verdicts (s.context name source) { tree := s.emptyTree name }
        ((s.context name source).compiler.dialect.chunks ts) := by
      simp only [verdicts, Settings.verdicts, hscan]
    have h := (hnew.run ((s.context name source).compiler.dialect.chunks ts)).unclosed (endSpan ts)
    rw [hresult, hverdicts]
    exact ⟨h.functions, h.refusals, h.faces, h.locals⟩

end Settings

/-- A verdict is a function or one refusal. -/
theorem Verdict.length_split (ctx : PassContext) (vs : List Verdict) :
    (vs.filterMap Except.toOption).length + (vs.flatMap (Verdict.refusals ctx)).length =
      vs.length := by
  induction vs with
  | nil => rfl
  | cons v vs ih =>
    rw [List.flatMap_cons, List.length_append, List.length_cons, ← ih]
    cases v with
    | ok c =>
      have hsome : (Except.ok c : Verdict).toOption = some c := rfl
      rw [List.filterMap_cons_some hsome, List.length_cons, Verdict.refusals, List.length_nil]
      omega
    | error fault =>
      have hone : (Verdict.refusals ctx (.error fault)).length = 1 := by
        unfold Verdict.refusals Pass.refused
        dsimp only
        split <;> rfl
      rw [List.filterMap_cons_none rfl, hone]
      omega

/-- **Every declaration is accounted for once.** There are as many scopes of function bodies as
compiled functions and refusals together. In the order of their indices they belong to the
declarations of the source: the accepted ones are the compiled functions, in order, and their scopes
have their names and as variables their parameters with the types; the scope of a refused one has no
name and no variables. The scopes of other kinds have no variables.
Source: `compile_declaration`, `compile_source` and `register`. -/
theorem Settings.units_accounted (s : Settings) (name source : String) :
    let result := s.compile name source
    let bodies := result.scopes.scopes.toList.filter (·.kind == .function)
    let verdicts := s.verdicts name source
    result.functions.length + (result.diagnostics.filter Diagnostic.isRefusal).length =
        bodies.length ∧
      verdicts.length = (s.units name source).length ∧
      result.functions = verdicts.filterMap Except.toOption ∧
      result.diagnostics.filter Diagnostic.isRefusal =
        verdicts.flatMap (Verdict.refusals (s.context name source)) ∧
      bodies.map (fun body => (body.name, body.bindings.entries)) = verdicts.map Verdict.body ∧
      ∀ scope ∈ result.scopes.scopes.toList, scope.kind ≠ .function → scope.bindings = .empty := by
  intro result bodies verdicts
  obtain ⟨hfunctions, hrefusals, hfaces, hlocals⟩ := s.accounts_compile name source
  refine ⟨?_, s.length_verdicts name source, hfunctions, hrefusals, hfaces, hlocals⟩
  have hbodies : bodies.length = verdicts.length := by
    have := congrArg List.length hfaces
    rwa [Scope.Tree.faces, List.length_map, List.length_map] at this
  rw [hbodies, hfunctions, hrefusals]
  exact Verdict.length_split _ _

/-- A function, a second one of the same name, a method, and a function with a parameter that has no
type: two of the four are refused. -/
theorem Settings.units_accounted_of_refused :
    let source := "fn a(x: int, y: str) \x7b\n\x7d\nfn a() \x7b\n\x7d\nclass C \x7b\nfn b(self) \x7b\n\x7d\n\x7d\nfn c(x) \x7b\n\x7d"
    let result := ({} : Settings).compile "v" source
    result.functions.map (·.name) = ["a", "b"] ∧
      result.scopes.faces =
        [("a", [("x", "int"), ("y", "str")]), ("", []), ("b", [("self", "Any")]), ("", [])] ∧
      (result.diagnostics.filter Diagnostic.isRefusal).length = 2 ∧
      result.scopes.scopes.toList.map (·.kind) =
        [.root, .function, .function, .classType, .function, .function] ∧
      ∀ scope ∈ result.scopes.scopes.toList, scope.kind = .classType → scope.bindings = .empty := by
  intro source result
  have hnames : result.functions.map (·.name) = ["a", "b"] :=
    Settings.view_compile _ 100 (fun r => r.functions.map (·.name)) (by decide +kernel)
  have hfaces : result.scopes.faces =
      [("a", [("x", "int"), ("y", "str")]), ("", []), ("b", [("self", "Any")]), ("", [])] :=
    Settings.view_compile _ 100 (fun r => r.scopes.faces) (by decide +kernel)
  have hkinds : result.scopes.scopes.toList.map (·.kind) =
      [.root, .function, .function, .classType, .function, .function] :=
    Settings.view_compile _ 100 (fun r => r.scopes.scopes.toList.map (·.kind)) (by decide +kernel)
  obtain ⟨hcount, -, -, -, -, hlocals⟩ := Settings.units_accounted {} "v" source
  have hfunctions : result.functions.length = 2 := by
    rw [← List.length_map (·.name), hnames]
    rfl
  have hbodies : result.scopes.bodies.length = 4 := by
    have := congrArg List.length hfaces
    rwa [Scope.Tree.faces, List.length_map] at this
  have hsum : result.functions.length + (result.diagnostics.filter Diagnostic.isRefusal).length =
    result.scopes.bodies.length := hcount
  refine ⟨hnames, hfaces, by omega, hkinds, ?_⟩
  intro scope hscope hkind
  exact hlocals scope hscope (by rw [hkind]; decide)

end FuncDecl
