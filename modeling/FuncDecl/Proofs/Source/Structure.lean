import FuncDecl.Proofs.Declaration.Registering
import FuncDecl.Proofs.Source.Program
import FuncDecl.Proofs.Source.Reports

/-!
# The structure of a program is recovered

Compiling the printed text of a program gives its functions and its scopes back. The proof follows
the pass over the chunks of a program. The pass is between two nodes of a scope whenever no type
declaration waits for its brace.

* `Program.functions`, `Program.scopes`, `Program.signatures`: what is to be recovered.
* `Pass.stepLine_plain`, `Pass.exists_stepLine_block`, `Pass.exists_stepLine_type`,
  `Pass.stepLine_close`: what each sort of line does.
* `Pass.Runs`: the pass over some chunks ends in a state and reports functions and no error. Runs
  are put together (`Pass.Runs.append`, `Pass.Runs.close`).
* `Declaration.exists_runs`: a printed declaration is compiled in the scope it stands in.
* `Program.Passed`: passing a program leaves the open braces as they were, extends the functions of
  the scope around it by those that it declares there, and adds its scopes behind all others. There
  is one lemma for each sort of node.
* `Program.Cut.passed`: the pass over the chunks of a program does what the program says. By
  induction on the program.
* `Settings.structure_recovered`: **the structure of a program is recovered from its text**. The
  functions come in the order of their declarations, each as the scope around it prints it, and the
  scopes in the order in which they are opened, each with its kind, its name, its level, the scope
  it is nested in and the functions declared in it.
-/

namespace FuncDecl

/-! ## What is to be recovered -/

namespace Program

/-- What is registered in the scope around a program. -/
def signatures (p : Program) : List (String × Signature) :=
  p.declared.map fun d => (d.name.registered, d.signature)

/-- The functions of a program in a scope of the given kind and level, in the order of their
declarations. -/
def functions (c : Compiler) (kind : Scope.Kind) (indent : Nat) : Program → List Compiled
  | done => []
  | line _ rest => rest.functions c kind indent
  | block _ body rest => body.functions c kind indent ++ rest.functions c kind indent
  | type l body rest => body.functions c l.kind (indent + 1) ++ rest.functions c kind indent
  | function d body rest =>
    d.compiled c kind indent .body ::
      (body.functions c .function (indent + 1) ++ rest.functions c kind indent)
  | prototype d rest => d.compiled c kind indent .bodiless :: rest.functions c kind indent

/-- The scopes inside a program in the scope `parent` of the given level, where `next` scopes are
there already. A scope stands behind the one it is nested in. -/
def scopes (parent : Scope.Id) (indent next : Nat) : Program → List Scope
  | done => []
  | line _ rest => rest.scopes parent indent next
  | block _ body rest =>
    let inner := body.scopes parent indent next
    inner ++ rest.scopes parent indent (next + inner.length)
  | type l body rest =>
    let inner := body.scopes next (indent + 1) (next + 1)
    { kind := l.kind, name := l.name.text, indent := indent + 1, parent := some parent,
      functions := ⟨body.signatures⟩ } ::
        (inner ++ rest.scopes parent indent (next + 1 + inner.length))
  | function d body rest =>
    let inner := body.scopes next (indent + 1) (next + 1)
    d.scope parent (indent + 1) body.signatures ::
      (inner ++ rest.scopes parent indent (next + 1 + inner.length))
  | prototype d rest =>
    d.scope parent (indent + 1) [] :: rest.scopes parent indent (next + 1)

/-- The signatures are registered under the names of the program. -/
theorem names_signatures (p : Program) : p.signatures.map Prod.fst = p.names := by
  rw [signatures, names, List.map_map]
  rfl

end Program

/-! ## Lines -/

namespace Pass

variable {p : Pass} {ts : List Token}

/-- A token that is no brace does not matter. -/
theorem stepToken_of_noBrace {t : Token} (h : t.word.isBrace = false) (p : Pass) :
    p.stepToken t = (p, {}) := by
  rw [Word.isBrace, Bool.or_eq_false_iff, beq_eq_false_iff_ne, beq_eq_false_iff_ne] at h
  have hopen : t.kind ≠ .openBrace := h.1
  have hclose : t.kind ≠ .closeBrace := h.2
  rcases p.stepToken_cases t with ⟨hkind, -⟩ | ⟨hkind, -⟩ | ⟨hkind, -⟩ | ⟨-, -, heq⟩
  · exact absurd hkind hopen
  · exact absurd hkind hclose
  · exact absurd hkind hclose
  · exact heq

/-- Tokens that are no braces do not matter. -/
theorem stepTokens_append_of_noBrace (h : ∀ w ∈ ts.map Token.word, w.isBrace = false)
    (us : List Token) : p.stepTokens (ts ++ us) = p.stepTokens us := by
  induction ts with
  | nil => rfl
  | cons t ts ih =>
    rw [List.map_cons, List.forall_mem_cons] at h
    rw [List.cons_append, stepTokens_cons, stepToken_of_noBrace h.1, ih h.2]
    rfl

/-- An opening brace alone opens a block. -/
theorem stepTokens_openBrace {t : Token} (h : t.kind = .openBrace) :
    p.stepTokens [t] = (p.openBrace t.span, {}) := by
  rw [stepTokens_cons, stepToken, h]
  rfl

end Pass

/-- A word that opens no type is no keyword of one. -/
theorem Word.ofKeyword?_eq_none {w : Word} (h : w.isTypeKeyword = false) (hkind : w.kind = .ident) :
    Scope.Kind.ofKeyword? w.text = none := by
  rw [isTypeKeyword, hkind, beq_self_eq_true, Bool.true_and, List.contains_eq_mem,
    decide_eq_false_iff_not] at h
  rw [Scope.Kind.ofKeyword?, List.lookup_eq_none_iff]
  intro entry hentry
  rw [bne_iff_ne]
  rintro heq
  exact h (List.mem_map.mpr ⟨entry, hentry, heq.symm⟩)

/-- A line that begins with no such keyword declares no type. -/
theorem TypeHead.ofLine?_eq_none {ts : List Token}
    (h : ∀ w ∈ (ts.map Token.word).head?, w.isTypeKeyword = false) : ofLine? ts = none := by
  cases ts with
  | nil => rfl
  | cons t ts =>
    rw [ofLine?]
    split
    · next hkind => rw [show Scope.Kind.ofKeyword? t.text = none from
        Word.ofKeyword?_eq_none (h t.word rfl) hkind]
    · rfl

namespace Pass

variable {p : Pass} {ts : List Token}

/-- A line that declares no type does not matter where none waits for its brace. -/
theorem announce_eq_self (hp : p.pending = none)
    (h : ∀ w ∈ (ts.map Token.word).head?, w.isTypeKeyword = false) : p.announce ts = p := by
  obtain ⟨tree, braces, pending⟩ := p
  obtain rfl : pending = none := hp
  unfold announce
  rw [TypeHead.ofLine?_eq_none h]
  cases ts with
  | nil => rfl
  | cons t ts => exact ite_self _

/-- A line without braces does not matter. -/
theorem stepLine_plain (hp : p.pending = none)
    (htype : ∀ w ∈ (ts.map Token.word).head?, w.isTypeKeyword = false)
    (hbrace : ∀ w ∈ ts.map Token.word, w.isBrace = false) : p.stepLine ts = (p, {}) := by
  rw [stepLine, announce_eq_self hp htype, ← List.append_nil ts, stepTokens_append_of_noBrace hbrace]
  rfl

/-- A line that ends with an opening brace opens a block of the scope around it. -/
theorem exists_stepLine_block (hp : p.pending = none)
    (htype : ∀ w ∈ (ts.map Token.word).head?, w.isTypeKeyword = false) {front : List Word}
    (hts : ts.map Token.word = front ++ [.openBrace]) (hbrace : ∀ w ∈ front, w.isBrace = false) :
    ∃ span, p.stepLine ts = ({ p with braces := ⟨p.scope, span⟩ :: p.braces }, {}) := by
  have hannounce := announce_eq_self hp htype
  obtain ⟨us, vs, rfl, hus, hvs⟩ := List.map_eq_append_iff.mp hts
  obtain ⟨span, ws, rfl, hws⟩ := Token.exists_cons_of_words hvs
  obtain rfl := List.map_eq_nil_iff.mp hws
  refine ⟨span, ?_⟩
  rw [stepLine, hannounce, stepTokens_append_of_noBrace (by rwa [hus]), stepTokens_openBrace rfl,
    openBrace, hp]
  rfl

/-- The line that opens a type opens its scope. -/
theorem exists_stepLine_type {l : TypeLine} (hts : ts.map Token.word = l.layout.words) :
    ∃ span, p.stepLine ts = (⟨p.tree.nest p.scope l.kind l.name.text,
      ⟨p.tree.size, span⟩ :: p.braces, none⟩, {}) := by
  rw [TypeLine.layout, Layout.words_apart] at hts
  obtain ⟨sk, us, rfl, hus⟩ := Token.exists_cons_of_words hts
  obtain ⟨sn, vs, rfl, hvs⟩ := Token.exists_cons_of_words hus
  obtain ⟨so, ws, rfl, hws⟩ := Token.exists_cons_of_words hvs
  obtain rfl := List.map_eq_nil_iff.mp hws
  have hall : ∀ entry ∈ Scope.Kind.keywords, Scope.Kind.ofKeyword? entry.1 = some entry.2 := by
    decide
  have hname : Scope.Kind.ofKeyword? l.name.text = none := Word.ofKeyword?_eq_none l.notKeyword rfl
  have hhead : TypeHead.ofLine? [Word.at ⟨.ident, l.keyword⟩ sk, l.name.word.at sn,
      Word.openBrace.at so] = some ⟨l.kind, l.name.text⟩ := by
    simp [TypeHead.ofLine?, Word.at, hall _ l.isKeyword, Name.word, hname]
  refine ⟨so, ?_⟩
  rw [stepLine, announce, hhead]
  rfl

/-- A closing brace on a line of its own closes the innermost block. -/
theorem stepLine_close {close : Token} (hclose : close.word = .closeBrace) {tree : Scope.Tree}
    {brace : OpenBrace} {braces : List OpenBrace} :
    (⟨tree, brace :: braces, none⟩ : Pass).stepLine [close] = (⟨tree, braces, none⟩, {}) := by
  have hkind : close.kind = .closeBrace := congrArg Word.kind hclose
  have htype : ∀ w ∈ ([close].map Token.word).head?, w.isTypeKeyword = false := by
    rintro w ⟨⟩
    rw [hclose]
    rfl
  rw [stepLine, announce_eq_self rfl htype, stepTokens_cons, stepToken, hkind]
  rfl

end Pass

/-! ## Declarations -/

/-- The header of a declaration suits the scopes that the declaration suits. -/
theorem Declaration.suits_header {d : Declaration} {ending : HeaderEnd} {s : Scope}
    (hsuits : d.Suits s.kind) (hindent : ending = .bodiless → s.indent ≠ 0)
    (hnew : d.name.registered ∉ s.functions.names) : (d.header ending).Suits s := by
  have hflag : ∀ m, (d.modifiers.contains m = true) = (m ∈ d.modifiers) := fun m =>
    propext List.contains_iff_mem
  refine ⟨hsuits.operator, ?_, ?_, ?_, hindent, fun h => ?_⟩
  · simpa only [Header.flags, header, Flags.ofModifiers, hflag] using hsuits.static
  · simpa only [Header.flags, header, Flags.ofModifiers, hflag] using hsuits.notPrivateStatic
  · simpa only [Header.flags, header, Flags.ofModifiers, hflag] using hsuits.notAsyncUnchecked
  · exact absurd ((Table.contains_iff_mem_names _ _).mp h) hnew

/-- The brace that a header leaves open: a header without a body leaves none. -/
def HeaderEnd.braces (brace : OpenBrace) : HeaderEnd → List OpenBrace
  | body => [brace]
  | bodiless => []

/-- The brace that a header leaves open is told by its mark. -/
theorem HeaderEnd.toList_bodyBrace? {ending : HeaderEnd} {mark : Token}
    (h : mark.word = ending.word) (scope : Scope.Id) (ts : List Token) :
    (Pass.bodyBrace? scope (ts ++ [mark])).toList = ending.braces ⟨scope, mark.span⟩ := by
  have hkind : mark.kind = ending.word.kind := congrArg Word.kind h
  rw [Pass.bodyBrace?, List.getLast?_concat]
  show (if mark.kind = .openBrace then some (OpenBrace.mk scope mark.span) else none).toList = _
  rw [hkind]
  cases ending <;> rfl

/-! ## Runs -/

/-- The pass over the chunks ends in the given state and reports the given functions and no error.
Places are left out. -/
structure Pass.Runs (ctx : PassContext) (p : Pass) (cs : List Chunk) (p' : Pass)
    (fs : List Compiled) : Prop where
  state : (p.run ctx cs).1 = p'
  functions : (p.run ctx cs).2.functions.map Compiled.unplaced = fs
  clean : ∀ x ∈ (p.run ctx cs).2.diagnostics, x.isError = false

namespace Pass.Runs

variable {ctx : PassContext} {p p' p'' : Pass} {cs ds : List Chunk} {fs gs : List Compiled}

/-- No chunks are passed without a report. -/
theorem nil : Runs ctx p [] p [] :=
  ⟨rfl, rfl, fun _ hx => absurd hx List.not_mem_nil⟩

/-- Two runs, one after the other. -/
theorem append (h : Runs ctx p cs p' fs) (h' : Runs ctx p' ds p'' gs) :
    Runs ctx p (cs ++ ds) p'' (fs ++ gs) := by
  obtain ⟨rfl, rfl, hclean⟩ := h
  obtain ⟨rfl, rfl, hclean'⟩ := h'
  refine ⟨?_, ?_, ?_⟩
  · rw [run_append]
  · rw [run_append, Report.functions_append, List.map_append]
  · rw [run_append, Report.diagnostics_append, List.forall_mem_append]
    exact ⟨hclean, hclean'⟩

/-- A chunk that is passed in silence. -/
theorem cons {c : Chunk} (h : p.step ctx c = (p', {})) (h' : Runs ctx p' cs p'' fs) :
    Runs ctx p (c :: cs) p'' fs := by
  have hrun : p.run ctx [c] = (p', {}) := by rw [run_cons, h]; rfl
  have hstep : Runs ctx p [c] p' [] := by
    refine ⟨?_, ?_, ?_⟩ <;> rw [hrun]
    · rfl
    · exact fun _ hx => absurd hx List.not_mem_nil
  exact hstep.append h'

/-- A declaration that is accepted. -/
theorem accepted {c : Chunk} {result : Compiled}
    (h : p.step ctx c = (p', Pass.accepted ctx result)) : Runs ctx p [c] p' [result.unplaced] := by
  refine ⟨?_, ?_, ?_⟩ <;> rw [run_cons, h]
  · rfl
  · rfl
  · show ∀ x ∈ (Pass.accepted ctx result ++ {}).diagnostics, _
    rw [Report.diagnostics_append, List.append_nil]
    exact isError_accepted ctx result

/-- A line end is passed in silence. -/
theorem newline (t : Token) (h : Runs ctx p cs p' fs) : Runs ctx p (.newline t :: cs) p' fs :=
  cons rfl h

/-- A body with the brace that closes it, and what comes behind. -/
theorem close {tree : Scope.Tree} {brace : OpenBrace} {braces : List OpenBrace}
    (h : Runs ctx p cs ⟨tree, brace :: braces, none⟩ fs) {close newline : Token}
    (hclose : close.word = .closeBrace) (h' : Runs ctx ⟨tree, braces, none⟩ ds p' gs) :
    Runs ctx p (cs ++ .line [close] :: .newline newline :: ds) p' (fs ++ gs) :=
  h.append (cons (stepLine_close hclose) (.newline newline h'))

end Pass.Runs

/-- A printed declaration is compiled in the scope it stands in. -/
theorem Declaration.exists_runs {ctx : PassContext} (hctx : ctx.compiler.dialect = .usual)
    {d : Declaration} {ending : HeaderEnd} {lines head : List Token}
    (hlines : Decoration.Printed d.decorations lines)
    (hhead : head.map Token.word = d.words {} ending) {p : Pass} {s : Scope}
    (hs : p.tree.view[p.scope]? = some s) (hsuits : d.Suits s.kind)
    (hindent : ending = .bodiless → s.indent ≠ 0) (hnew : d.name.registered ∉ s.functions.names) :
    ∃ tree span, tree.view =
        p.tree.view.modify p.scope (Scope.register [(d.name.registered, d.signature)]) ++
          [d.scope p.scope (s.indent + 1) []] ∧
      Pass.Runs ctx p [.declaration (lines ++ head)]
        ⟨tree, ending.braces ⟨p.tree.size, span⟩ ++ p.braces, none⟩
        [d.compiled ctx.compiler s.kind s.indent ending] := by
  obtain ⟨h, hread, hh⟩ := d.exists_read Keywords.proper_usual hlines hhead
  obtain ⟨front, mark, rfl, hmark, -⟩ := d.exists_crosses Keywords.proper_usual hhead
  obtain ⟨hlt, hget⟩ := Scope.Tree.get_of_view hs
  have hsuits' : h.Suits (p.tree.get p.scope) := by
    refine Header.suits_of_unplaced ?_
    rw [hh, hget]
    exact suits_header hsuits hindent hnew
  have hread' : Header.read ctx.compiler.dialect (lines ++ (front ++ [mark])) = .ok h := by
    rw [hctx]
    exact hread
  have hcompile := Compiler.compileBelow_of_read hlt hread' hsuits'
  have hbrace := HeaderEnd.toList_bodyBrace? hmark p.tree.size (lines ++ front)
  rw [List.append_assoc] at hbrace
  have hresult : (ctx.compiler.outcome h (p.tree.nest p.scope .function "")
      (p.tree.get p.scope)).unplaced = d.compiled ctx.compiler s.kind s.indent ending := by
    rw [← hget]
    exact unplaced_outcome hh ctx.compiler _ _
  refine ⟨_, mark.span, view_register hh hs hnew, ?_⟩
  rw [← hresult, ← hbrace]
  refine .accepted ?_
  rw [Pass.step, Pass.stepDeclaration, hcompile]
  rfl

/-! ## Programs -/

/-- A line of a program begins with no keyword of a type. -/
theorem Line.isTypeKeyword_head? (l : Line) {ts : List Token} (hts : ts.map Token.word = l.words) :
    ∀ w ∈ (ts.map Token.word).head?, w.isTypeKeyword = false := by
  rw [hts, Line.words, List.head?_map]
  intro w hw
  obtain ⟨t, ht, rfl⟩ := Option.map_eq_some_iff.mp hw
  exact l.noType t ht

/-- Between two nodes of a scope that the program suits, the pass over the chunks does what the
program says: it reports the functions of the program, registers those that are declared in the scope,
and adds the scopes of the program. -/
def Program.Passed (ctx : PassContext) (P : Program) (cs : List Chunk) : Prop :=
  ∀ (p : Pass) (s : Scope), p.pending = none → p.tree.view[p.scope]? = some s →
    P.Suits s.kind s.indent → (s.functions.names ++ P.names).Nodup →
      ∃ tree : Scope.Tree, tree.view = p.tree.view.modify p.scope (Scope.register P.signatures) ++
          P.scopes p.scope s.indent p.tree.size ∧
        p.Runs ctx cs { p with tree } (P.functions ctx.compiler s.kind s.indent)

namespace Program.Passed

variable {ctx : PassContext} {body rest : Program} {bs cs : List Chunk} {p : Pass} {s : Scope}

/-- The end of a program does nothing. -/
theorem done : Program.done.Passed ctx [] := by
  rintro ⟨tree, braces, pending⟩ s rfl - - -
  refine ⟨tree, ?_, .nil⟩
  simp [signatures, declared, scopes]

section Behind

variable (hp : p.pending = none) (hs : p.tree.view[p.scope]? = some s)
include hp hs

/-- A program behind nodes that have registered functions and added scopes already. -/
theorem exists_runs_behind (hrest : rest.Passed ctx cs) (hsuits : rest.Suits s.kind s.indent)
    {tree : Scope.Tree} {more : List (String × Signature)} {added : List Scope}
    (htree : tree.view = p.tree.view.modify p.scope (Scope.register more) ++ added)
    (hnew : (s.functions.names ++ (more.map Prod.fst ++ rest.names)).Nodup) :
    ∃ tree' : Scope.Tree,
      tree'.view = p.tree.view.modify p.scope (Scope.register (more ++ rest.signatures)) ++
        (added ++ rest.scopes p.scope s.indent (p.tree.size + added.length)) ∧
      Pass.Runs ctx { p with tree } cs { p with tree := tree' }
        (rest.functions ctx.compiler s.kind s.indent) := by
  have hsize : tree.size = p.tree.size + added.length := by
    rw [← Scope.Tree.length_view, ← Scope.Tree.length_view]
    exact Scope.length_grow htree
  have hnew' : ((s.register more).functions.names ++ rest.names).Nodup := by
    rwa [Scope.names_register, List.append_assoc]
  obtain ⟨tree', hview, hruns⟩ :=
    hrest { p with tree } (s.register more) hp (Scope.getElem?_grow hs htree) hsuits hnew'
  refine ⟨tree', ?_, hruns⟩
  rw [← hsize]
  exact Scope.grow_grow (List.getElem?_eq_some_iff.mp hs).1 htree hview

/-- A body with a scope of its own, and what comes behind. -/
theorem exists_runs_scoped {tree : Scope.Tree} {scope : Scope} {more : List (String × Signature)}
    (htree : tree.view = p.tree.view.modify p.scope (Scope.register more) ++ [scope])
    (hbody : body.Passed ctx bs) (hsuits : body.Suits scope.kind scope.indent)
    (hnew : (scope.functions.names ++ body.names).Nodup) {span : Span} {close newline : Token}
    (hclose : close.word = .closeBrace) (hrest : rest.Passed ctx cs)
    (hsuits' : rest.Suits s.kind s.indent)
    (hnew' : (s.functions.names ++ (more.map Prod.fst ++ rest.names)).Nodup) :
    ∃ tree' : Scope.Tree,
      tree'.view = p.tree.view.modify p.scope (Scope.register (more ++ rest.signatures)) ++
        (scope.register body.signatures ::
          (body.scopes p.tree.size scope.indent (p.tree.size + 1) ++
            rest.scopes p.scope s.indent (p.tree.size + 1 +
              (body.scopes p.tree.size scope.indent (p.tree.size + 1)).length))) ∧
      Pass.Runs ctx ⟨tree, ⟨p.tree.size, span⟩ :: p.braces, none⟩
        (bs ++ .line [close] :: .newline newline :: cs) { p with tree := tree' }
        (body.functions ctx.compiler scope.kind scope.indent ++
          rest.functions ctx.compiler s.kind s.indent) := by
  have hscope := Scope.getElem?_last p.tree.length_view htree
  have hsize : tree.size = p.tree.size + 1 := by
    rw [← Scope.Tree.length_view, ← Scope.Tree.length_view]
    exact Scope.length_grow htree
  obtain ⟨tree₁, hview₁, hruns₁⟩ :=
    hbody ⟨tree, ⟨p.tree.size, span⟩ :: p.braces, none⟩ scope rfl hscope hsuits hnew
  rw [hsize] at hview₁
  obtain ⟨tree₂, hview₂, hruns₂⟩ := exists_runs_behind hp hs hrest hsuits'
    (Scope.grow_last p.tree.length_view htree hview₁) hnew'
  refine ⟨tree₂, ?_, ?_⟩
  · rw [hview₂, List.length_cons, ← Nat.add_assoc, Nat.add_right_comm _ _ 1]
    rfl
  · obtain ⟨ptree, braces, pending⟩ := p
    obtain rfl : pending = none := hp
    exact hruns₁.close hclose hruns₂

end Behind

/-! ### One kind of node after the other -/

/-- A line without braces, and what comes behind. -/
theorem line {l : PlainLine} {ts : List Token} (hts : ts.map Token.word = l.words) {newline : Token}
    (hrest : rest.Passed ctx cs) :
    (Program.line l rest).Passed ctx (lineChunks ts ++ .newline newline :: cs) := by
  intro p s hp hs hsuits hnew
  obtain ⟨tree, hview, hruns⟩ := hrest p s hp hs hsuits hnew
  refine ⟨tree, hview, ?_⟩
  have htype := l.toLine.isTypeKeyword_head? hts
  have hstep := Pass.stepLine_plain hp htype (by rw [hts]; exact l.noBrace)
  cases ts with
  | nil => exact .newline newline hruns
  | cons t ts => exact .cons hstep (.newline newline hruns)

/-- A block without a scope of its own: the functions in it are those of the scope around it. -/
theorem block {l : BlockLine} {ts : List Token} (hts : ts.map Token.word = l.words)
    {newline close newline' : Token} (hbody : body.Passed ctx bs) (hclose : close.word = .closeBrace)
    (hrest : rest.Passed ctx cs) :
    (Program.block l body rest).Passed ctx
      (.line ts :: .newline newline :: (bs ++ .line [close] :: .newline newline' :: cs)) := by
  intro p s hp hs hsuits hnew
  have hnames : (Program.block l body rest).names = body.names ++ rest.names := List.map_append
  have hsignatures : (Program.block l body rest).signatures = body.signatures ++ rest.signatures :=
    List.map_append
  rw [hnames] at hnew
  have hbodyNew : (s.functions.names ++ body.names).Nodup := by
    rw [← List.append_assoc] at hnew
    exact (List.nodup_append.mp hnew).1
  have htype := l.toLine.isTypeKeyword_head? hts
  obtain ⟨span, hstep⟩ := Pass.exists_stepLine_block hp htype (hts.trans l.words_eq) l.noBrace
  obtain ⟨tree₁, hview₁, hruns₁⟩ :=
    hbody { p with braces := ⟨p.scope, span⟩ :: p.braces } s hp hs hsuits.1 hbodyNew
  obtain ⟨tree₂, hview₂, hruns₂⟩ := exists_runs_behind hp hs hrest hsuits.2 hview₁
    (by rwa [names_signatures])
  refine ⟨tree₂, by rw [hview₂, hsignatures]; rfl, ?_⟩
  obtain ⟨tree, braces, pending⟩ := p
  obtain rfl : pending = none := hp
  exact .cons hstep (.newline newline (hruns₁.close hclose hruns₂))

/-- A type with its body, and what comes behind. -/
theorem type {l : TypeLine} {ts : List Token} (hts : ts.map Token.word = l.layout.words)
    {newline close newline' : Token} (hbody : body.Passed ctx bs) (hclose : close.word = .closeBrace)
    (hrest : rest.Passed ctx cs) :
    (Program.type l body rest).Passed ctx
      (.line ts :: .newline newline :: (bs ++ .line [close] :: .newline newline' :: cs)) := by
  intro p s hp hs hsuits hnew
  obtain ⟨hlt, hget⟩ := Scope.Tree.get_of_view hs
  have hindent : (p.tree.get p.scope).indent = s.indent := by
    rw [← hget]
    rfl
  have htree : (p.tree.nest p.scope l.kind l.name.text).view =
      p.tree.view.modify p.scope (Scope.register []) ++
        [{ kind := l.kind, name := l.name.text, indent := s.indent + 1, parent := some p.scope }] := by
    rw [Scope.Tree.view_nest, Scope.register_nil, List.modify_id, hindent]
  obtain ⟨span, hstep⟩ := Pass.exists_stepLine_type (p := p) hts
  obtain ⟨tree, hview, hruns⟩ := exists_runs_scoped hp hs htree hbody hsuits.1.1 hsuits.1.2
    hclose hrest hsuits.2 hnew
  exact ⟨tree, hview, .cons hstep (.newline newline hruns)⟩

section Declarations

variable (hctx : ctx.compiler.dialect = .usual) {d : Declaration} {lines head : List Token}
  (hlines : Decoration.Printed d.decorations lines)
include hctx hlines

/-- A function with its body, and what comes behind. -/
theorem function (hhead : head.map Token.word = d.words {} .body) {newline close newline' : Token}
    (hbody : body.Passed ctx bs) (hclose : close.word = .closeBrace) (hrest : rest.Passed ctx cs) :
    (Program.function d body rest).Passed ctx
      (.declaration (lines ++ head) :: .newline newline ::
        (bs ++ .line [close] :: .newline newline' :: cs)) := by
  intro p s hp hs hsuits hnew
  have hname : d.name.registered ∉ s.functions.names := fun hmem =>
    (List.nodup_append.mp hnew).2.2 _ hmem _ List.mem_cons_self rfl
  obtain ⟨tree, span, htree, hdecl⟩ :=
    d.exists_runs hctx hlines hhead hs hsuits.1 nofun hname
  obtain ⟨tree', hview, hruns⟩ := exists_runs_scoped hp hs htree hbody hsuits.2.1.1 hsuits.2.1.2
    hclose hrest hsuits.2.2 hnew
  exact ⟨tree', hview, hdecl.append (.newline newline hruns)⟩

/-- A function without a body, and what comes behind. -/
theorem prototype (hhead : head.map Token.word = d.words {} .bodiless) {newline : Token}
    (hrest : rest.Passed ctx cs) :
    (Program.prototype d rest).Passed ctx
      (.declaration (lines ++ head) :: .newline newline :: cs) := by
  intro p s hp hs hsuits hnew
  have hname : d.name.registered ∉ s.functions.names := fun hmem =>
    (List.nodup_append.mp hnew).2.2 _ hmem _ List.mem_cons_self rfl
  obtain ⟨tree, span, htree, hdecl⟩ :=
    d.exists_runs hctx hlines hhead hs hsuits.1 (fun _ => hsuits.2.1) hname
  obtain ⟨tree', hview, hruns⟩ := exists_runs_behind hp hs hrest hsuits.2.2 htree hnew
  obtain ⟨ptree, braces, pending⟩ := p
  obtain rfl : pending = none := hp
  exact ⟨tree', hview, hdecl.append (.newline newline hruns)⟩

end Declarations

end Program.Passed

/-- **The pass over the chunks of a program does what the program says.** -/
theorem Program.Cut.passed {ctx : PassContext} (hctx : ctx.compiler.dialect = .usual)
    {P : Program} {cs : List Chunk} (hcut : P.Cut cs) : P.Passed ctx cs := by
  induction hcut with
  | done => exact .done
  | line hts _ ih => exact .line hts ih
  | block hts _ hclose _ ihbody ih => exact .block hts ihbody hclose ih
  | type hts _ hclose _ ihbody ih => exact .type hts ihbody hclose ih
  | function hlines hhead _ hclose _ ihbody ih =>
    exact .function hctx hlines hhead ihbody hclose ih
  | prototype hlines hhead _ ih => exact .prototype hctx hlines hhead ih

/-! ## Sources -/

/-- The scopes of a file with the given name: the file itself and those inside the program. -/
def Program.fileScopes (name : String) (p : Program) : List Scope :=
  { kind := .root, name, indent := 0, parent := none, functions := ⟨p.signatures⟩ } ::
    p.scopes Scope.Tree.root 0 1

/-- A pass that ends with no brace open is the compilation. -/
theorem PassContext.compile_of_runs {ctx : PassContext} {tree tree' : Scope.Tree} {ts : List Token}
    {fs : List Compiled}
    (h : Pass.Runs ctx { tree } (ctx.compiler.dialect.chunks ts) { tree := tree' } fs) :
    (ctx.compile tree ts).hasErrors = false ∧
      (ctx.compile tree ts).functions.map Compiled.unplaced = fs ∧
      (ctx.compile tree ts).scopes = tree' := by
  obtain ⟨hstate, hfunctions, hclean⟩ := h
  have hcompile : ctx.compile tree ts =
      ⟨(Pass.run ctx { tree } (ctx.compiler.dialect.chunks ts)).2.functions,
        (Pass.run ctx { tree } (ctx.compiler.dialect.chunks ts)).2.diagnostics, tree'⟩ := by
    rw [compile]
    simp [hstate, Pass.unclosed]
  rw [hcompile]
  refine ⟨?_, hfunctions, rfl⟩
  rw [Compilation.hasErrors, List.any_eq_false]
  intro x hx
  simp [hclean x hx]

/-- **The structure of a program is recovered from its text.** Nothing in the printed text of a program
is refused, its functions are compiled in the order of their declarations, and its scopes are opened
in the order of their braces, each with the functions that are declared in it.
Source: `compile_source`, `compile_declaration`, `scan_line` and `declaration_end`. -/
theorem Settings.structure_recovered (s : Settings) (hk : s.spellings = {}) (name : String)
    {margin : Nat → List Char} (hmargin : ∀ n, Text.IsMargin (margin n)) (p : Program)
    (hsuits : p.Suits .root 0) (hnodup : p.names.Nodup) :
    let result := s.compile name (p.source margin)
    result.hasErrors = false ∧
      result.functions.map Compiled.unplaced = p.functions ⟨.usual, s.indent⟩ .root 0 ∧
      result.scopes.view = p.fileScopes name := by
  obtain ⟨ts, ⟨cs, hcut, hchunks⟩, hscan⟩ := (Program.yields_print hmargin hsuits 0).scan_eq
  have hcompiler : (s.context name (p.source margin)).compiler = ⟨.usual, s.indent⟩ :=
    congrArg (Compiler.mk · s.indent) (congrArg Dialect.ofKeywords hk)
  have hdialect : (s.context name (p.source margin)).compiler.dialect = .usual :=
    congrArg Compiler.dialect hcompiler
  have hcs : (s.context name (p.source margin)).compiler.dialect.chunks ts = cs := by
    have h := hchunks []
    rwa [List.append_nil, Dialect.chunks, List.append_nil, ← hdialect] at h
  obtain ⟨tree, hview, hruns⟩ := hcut.passed hdialect { tree := s.emptyTree name }
    { kind := .root, name, indent := 0, parent := none } rfl rfl hsuits hnodup
  rw [← hcs] at hruns
  obtain ⟨herrors, hfunctions, hscopes⟩ := PassContext.compile_of_runs hruns
  rw [hcompiler] at hfunctions
  rw [show s.compile name (p.source margin) = _ from s.compile_of_scan name hscan]
  refine ⟨herrors, hfunctions, ?_⟩
  rw [hscopes, hview]
  rfl

/-! ### A class -/

namespace Program

/-- `@log.trace(1, x)` and `static fn of(items: List<int> = [1, 2]) -> Stack`. -/
def stackOf : Declaration :=
  let one : Atom := .digits ⟨"1", by decide, by simp⟩
  let two : Atom := .digits ⟨"2", by decide, by simp⟩
  let x : Atom := .name ⟨"x", by decide +kernel⟩
  let intList : TypeExpr :=
    .apply ⟨"List", by decide +kernel⟩ (.last (.name ⟨"int", by decide +kernel⟩))
  { decorations := [⟨⟨"log", by decide +kernel⟩, [⟨"trace", by decide +kernel⟩],
      some (.atom one (.comma (.atom x .nil)))⟩]
    modifiers := [.static]
    name := .name ⟨"of", by decide +kernel⟩
    params := [.preset ⟨"items", by decide +kernel⟩ intList rfl
      (.group .square (.atom one (.comma (.atom two .nil))) .nil) rfl]
    distinct := by decide
    returnType := some (.name ⟨"Stack", by decide +kernel⟩) }

/-- `fn each()`. -/
def stackEach : Declaration :=
  ⟨[], [], .name ⟨"each", by decide +kernel⟩, [], by decide, none⟩

/-- `fn +(self)`. -/
def stackPlus : Declaration :=
  ⟨[], [], .operator "+" "__add__" (by decide), [.receiver ⟨"self", by decide +kernel⟩ (by decide)],
    by decide, none⟩

/-- The line `if items` with its brace. -/
def stackIf : BlockLine where
  text := "if items \x7b"
  tokens := [⟨.ident, "if", ⟨0, 2⟩⟩, ⟨.ident, "items", ⟨3, 8⟩⟩, ⟨.openBrace, "\x7b", ⟨9, 10⟩⟩]
  scan_text := Token.scan_of_scanWithin 20 (by decide +kernel)
  oneLine := by decide
  noSign := by decide
  noType := by decide
  noHeader := by decide
  front := [⟨.ident, "if"⟩, ⟨.ident, "items"⟩]
  words_eq := rfl
  noBrace := by decide

/-- The line `return items`. -/
def stackReturn : PlainLine where
  text := "return items"
  tokens := [⟨.ident, "return", ⟨0, 6⟩⟩, ⟨.ident, "items", ⟨7, 12⟩⟩]
  scan_text := Token.scan_of_scanWithin 20 (by decide +kernel)
  oneLine := by decide
  noSign := by decide
  noType := by decide
  noHeader := by decide
  noBrace := by decide

/-- A class with a method, a function in a block of that method, and an operator without a body. -/
def stack : Program :=
  .type ⟨"class", .classType, by decide, ⟨"Stack", by decide +kernel⟩, by decide⟩
    (.function stackOf
      (.block stackIf (.function stackEach .done .done) (.line stackReturn .done))
      (.prototype stackPlus .done))
    .done

end Program

/-- The class is compiled, with its margin of two spaces a level. -/
theorem Settings.structure_recovered_of_stack :
    let source := Program.stack.source fun n => List.replicate (2 * n) ' '
    let result := ({} : Settings).compile "stack" source
    source =
        "class Stack \x7b\n" ++
        "  @log.trace(1, x)\n" ++
        "  static fn of(items: List<int> = [1, 2]) -> Stack \x7b\n" ++
        "    if items \x7b\n" ++
        "      fn each() \x7b\n" ++
        "      \x7d\n" ++
        "    \x7d\n" ++
        "    return items\n" ++
        "  \x7d\n" ++
        "  fn +(self);\n" ++
        "\x7d\n" ∧
      result.hasErrors = false ∧
      result.functions.map Compiled.output =
        ["    @log.trace(1, x)\n    static def of(items: List<int>) -> Stack:",
          "        def each():", "    def __add__(self):\n        pass"] ∧
      result.scopes.view.map (fun s => (s.name, s.indent, s.parent, s.functions.names)) =
        [("stack", 0, none, []), ("Stack", 1, some 0, ["of", "__add__"]),
          ("of", 2, some 1, ["each"]), ("each", 3, some 2, []), ("__add__", 2, some 1, [])] := by
  intro source result
  have hmargin : ∀ n, Text.IsMargin (List.replicate (2 * n) ' ') := by
    intro n c hc
    rw [List.eq_of_mem_replicate hc]
    decide +kernel
  obtain ⟨herrors, hfunctions, hscopes⟩ :=
    structure_recovered {} rfl "stack" hmargin Program.stack (by decide) (by decide)
  have houtputs := congrArg (List.map Compiled.output) hfunctions
  rw [List.map_map] at houtputs
  refine ⟨by decide +kernel, herrors, houtputs.trans (by decide +kernel), ?_⟩
  rw [hscopes]
  decide +kernel

end FuncDecl
