import FuncDecl.Proofs.Scope.Grafting
import FuncDecl.Proofs.Source.Positions

/-!
# The scopes of open braces

The open braces of a pass lead inwards from the file. Scopes are opened at two places, by the brace
of a type declaration and by a declaration of a function, and the latter also if it is refused or
has no brace.

* `Scope.Tree.Extends`: the scopes of one tree are at their places in another one. None of the steps
  of a pass moves a scope (`Scope.Tree.Extends.nest`, `Scope.Tree.Extends.compile`).
* `Scope.Tree.Leads tree braces`: each brace belongs to the scope of the brace around it, or to a
  scope that is nested in that one. This stays so when the tree grows (`Scope.Tree.Leads.extend`).
* `Pass.LeadsIn`: the open braces of a state do so. A token, a line, a declaration and a chunk keep
  this, and so does a whole pass (`Pass.LeadsIn.run`).
* `Pass.BracesAmong`: the open braces are among some tokens, in the order in which they were opened.
* `Pass.Reached`: all states that a pass comes to, also those in the middle of a line and of a
  declaration.
* `Settings.braces_lead_inwards`: **the open braces lead inwards** in every state that the
  compilation of a source comes to.
-/

namespace FuncDecl

/-! ## Trees that grow -/

namespace Scope.Tree

/-- The second tree has the scopes of the first one at their places, and perhaps more behind them. -/
structure Extends (tree tree' : Scope.Tree) : Prop where
  size_le : tree.size ≤ tree'.size
  places : ∀ id, id < tree.size → (tree.get id).SamePlace (tree'.get id)

namespace Extends

variable {tree tree' tree'' : Scope.Tree}

/-- A tree has its scopes at their places. -/
theorem refl (tree : Scope.Tree) : tree.Extends tree :=
  ⟨Nat.le_refl _, fun _ _ => ⟨rfl, rfl, rfl⟩⟩

/-- A tree that grows twice has grown. -/
theorem trans (h : tree.Extends tree') (h' : tree'.Extends tree'') : tree.Extends tree'' :=
  ⟨Nat.le_trans h.size_le h'.size_le, fun id hid =>
    (h.places id hid).trans (h'.places id (Nat.lt_of_lt_of_le hid h.size_le))⟩

/-- Opening a scope moves none. -/
theorem nest (tree : Scope.Tree) (parent : Scope.Id) (kind : Scope.Kind) (name : String) :
    tree.Extends (tree.nest parent kind name) := by
  refine ⟨?_, fun id hid => ?_⟩
  · rw [size_nest]
    exact Nat.le_succ _
  · rw [get_nest_of_lt hid]
    exact ⟨rfl, rfl, rfl⟩

/-- A change of a scope that does not move it moves none. -/
theorem modify (tree : Scope.Tree) (id : Scope.Id) {f : Scope → Scope}
    (hf : ∀ s : Scope, s.SamePlace (f s)) : tree.Extends (tree.modify id f) :=
  ⟨Nat.le_of_eq (size_modify ..).symm, fun other _ => tree.samePlace_modify id hf other⟩

/-- A declaration enters something in scopes that are there. -/
theorem compile (c : Compiler) (ts : List Token) (tree : Scope.Tree) (chain : Chain) :
    tree.Extends (c.compile ts tree chain).2 := by
  rcases c.compile_cases ts tree chain with ⟨fault, hcompile⟩ | ⟨h, -, -, hcompile⟩
  · rw [hcompile]
    exact refl tree
  · have hbind := modify tree chain.current (f := Scope.bind h.signature.locals)
      fun _ => ⟨rfl, rfl, rfl⟩
    have hdefine := modify (tree.modify chain.current (Scope.bind h.signature.locals)) chain.parent
      (f := Scope.define h.name.text h.signature) fun _ => ⟨rfl, rfl, rfl⟩
    rw [hcompile]
    exact hbind.trans hdefine

end Extends

end Scope.Tree

/-! ## Braces that lead inwards -/

/-- The scope inside the first of some open braces, which are given from the innermost on. -/
def OpenBrace.inside : List OpenBrace → Scope.Id
  | brace :: _ => brace.scope
  | [] => Scope.Tree.root

open OpenBrace (inside)
open Token (Row)

/-- The braces, from the innermost on, belong to scopes of the tree. The scope of each is the one
around the brace or is nested in it, and around the outermost brace is the file. -/
inductive Scope.Tree.Leads (tree : Scope.Tree) : List OpenBrace → Prop
  | nil : Leads tree []
  | same {braces : List OpenBrace} (span : Span) (hscope : inside braces < tree.size)
      (outer : Leads tree braces) : Leads tree (⟨inside braces, span⟩ :: braces)
  | nested {braces : List OpenBrace} {scope : Scope.Id} (span : Span) (hscope : scope < tree.size)
      (hparent : (tree.get scope).parent = some (inside braces)) (outer : Leads tree braces) :
      Leads tree (⟨scope, span⟩ :: braces)

namespace Scope.Tree.Leads

variable {tree tree' : Scope.Tree} {braces : List OpenBrace}

/-- The braces around the innermost one lead inwards. -/
theorem tail {brace : OpenBrace} (h : tree.Leads (brace :: braces)) : tree.Leads braces := by
  cases h with
  | same _ _ outer => exact outer
  | nested _ _ _ outer => exact outer

/-- The scope inside the innermost brace is in the tree. -/
theorem inside_lt (h : tree.Leads braces) (hsize : 0 < tree.size) : inside braces < tree.size := by
  cases h with
  | nil => exact hsize
  | same _ hscope _ => exact hscope
  | nested _ hscope _ _ => exact hscope

/-- Braces that lead inwards go on to do so when the tree grows. -/
theorem extend (h : tree.Leads braces) (hgrow : tree.Extends tree') : tree'.Leads braces := by
  induction h with
  | nil => exact .nil
  | same span hscope _ ih => exact .same span (Nat.lt_of_lt_of_le hscope hgrow.size_le) ih
  | nested span hscope hparent _ ih =>
    refine .nested span (Nat.lt_of_lt_of_le hscope hgrow.size_le) ?_ ih
    rw [(hgrow.places _ hscope).parent, hparent]

/-- What holds of a brace, wherever it stands among the others. -/
theorem of_append {front below : List OpenBrace} {brace : OpenBrace}
    (h : tree.Leads (front ++ brace :: below)) :
    brace.scope < tree.size ∧
      (brace.scope = inside below ∨ (tree.get brace.scope).parent = some (inside below)) := by
  induction front with
  | nil =>
    cases h with
    | same _ hscope _ => exact ⟨hscope, .inl rfl⟩
    | nested _ hscope hparent _ => exact ⟨hscope, .inr hparent⟩
  | cons x front ih => exact ih h.tail

end Scope.Tree.Leads

namespace Pass

variable {ctx : PassContext} {p : Pass}

/-- The scope of a state is that inside its innermost brace. -/
theorem scope_eq_inside (p : Pass) : p.scope = inside p.braces := by
  unfold scope inside
  split <;> simp_all

/-- A brace that opens moves no scope. -/
theorem extends_openBrace (p : Pass) (span : Span) : p.tree.Extends (p.openBrace span).tree := by
  rcases p.openBrace_cases span with ⟨head, -, heq⟩ | ⟨-, heq⟩
  · rw [heq]
    exact .nest ..
  · rw [heq]
    exact .refl _

/-- The open braces of a state lead inwards from its file. -/
structure LeadsIn (p : Pass) : Prop where
  nonempty : 0 < p.tree.size
  braces : p.tree.Leads p.braces

namespace LeadsIn

/-- At the beginning of a file no brace is open. -/
theorem new (name : String) (k : Keywords) : LeadsIn { tree := .new name k } :=
  ⟨Nat.one_pos, .nil⟩

/-- The braces of a state lead inwards in a tree that has grown. -/
theorem extend (h : p.LeadsIn) {tree : Scope.Tree} (hgrow : p.tree.Extends tree)
    (pending : Option TypeHead) : LeadsIn ⟨tree, p.braces, pending⟩ :=
  ⟨Nat.lt_of_lt_of_le h.nonempty hgrow.size_le, h.braces.extend hgrow⟩

/-- A scope that was just opened can take a brace. -/
theorem nest (h : p.LeadsIn) {kind : Scope.Kind} {name : String} {tree : Scope.Tree}
    (hgrow : (p.tree.nest p.scope kind name).Extends tree) (span : Span)
    (pending : Option TypeHead) :
    LeadsIn ⟨tree, ⟨p.tree.size, span⟩ :: p.braces, pending⟩ := by
  have hopened := Scope.Tree.Extends.nest p.tree p.scope kind name
  have hsize : p.tree.size < (p.tree.nest p.scope kind name).size := by
    rw [Scope.Tree.size_nest]
    exact Nat.lt_succ_self _
  obtain ⟨hnonempty, hbraces⟩ := h.extend (hopened.trans hgrow) pending
  refine ⟨hnonempty, .nested span (Nat.lt_of_lt_of_le hsize hgrow.size_le) ?_ hbraces⟩
  rw [(hgrow.places _ hsize).parent, Scope.Tree.get_nest_size, scope_eq_inside]

/-! ### Lines -/

/-- A brace that opens leads inwards: it belongs to the scope around it or to that of a type below
it. -/
theorem openBrace (h : p.LeadsIn) (span : Span) : (p.openBrace span).LeadsIn := by
  rcases p.openBrace_cases span with ⟨head, -, heq⟩ | ⟨-, heq⟩
  · rw [heq]
    exact h.nest (.refl _) span none
  · rw [heq, scope_eq_inside]
    exact ⟨h.nonempty, .same span (h.braces.inside_lt h.nonempty) h.braces⟩

/-- Closing a brace leaves those around it. -/
theorem closeBrace (h : p.LeadsIn) {brace : OpenBrace} {braces : List OpenBrace}
    (hbraces : p.braces = brace :: braces) : LeadsIn { p with braces } := by
  refine ⟨h.nonempty, ?_⟩
  have hleads := h.braces
  rw [hbraces] at hleads
  exact hleads.tail

/-- The tokens of a line keep the braces leading inwards. By induction on the tokens. -/
theorem stepTokens (h : p.LeadsIn) (ts : List Token) : (p.stepTokens ts).1.LeadsIn := by
  induction ts generalizing p with
  | nil => exact h
  | cons t ts ih =>
    refine ih (stepToken_induct (P := LeadsIn) ?_ ?_ h t)
    · intro p span h
      exact h.openBrace span
    · intro p brace braces hbraces h
      exact h.closeBrace hbraces

/-- Announcing a type opens no brace. -/
theorem announce (h : p.LeadsIn) (line : List Token) : (p.announce line).LeadsIn := by
  obtain ⟨pending, heq, -⟩ := p.announce_eq line
  rw [heq]
  exact ⟨h.nonempty, h.braces⟩

end LeadsIn

/-! ### Declarations -/

/-- A declaration is compiled in the scope that was just opened for its body, below the scope of the
innermost brace. -/
theorem stepDeclaration_of_compile (ctx : PassContext) (p : Pass) (unit : List Token) :
    let chain : Chain := ⟨p.tree.size, inside p.braces, 0⟩
    let compiled := ctx.compiler.compile unit (p.tree.nest (inside p.braces) .function "") chain
    let braces := (bodyBrace? chain.current unit).toList ++ p.braces
    (∃ c, compiled.1 = .ok c ∧ p.stepDeclaration ctx unit =
      (⟨compiled.2.modify chain.current (Scope.rename c.name), braces, none⟩, accepted ctx c)) ∨
    ∃ fault, compiled.1 = .error fault ∧
      p.stepDeclaration ctx unit = (⟨compiled.2, braces, none⟩, refused ctx fault) := by
  intro chain compiled braces
  have hbelow : ctx.compiler.compileBelow unit p.tree p.scope = (compiled.1, compiled.2, chain) := by
    rw [Compiler.compileBelow, Scope.Tree.chainOf_nest, scope_eq_inside]
    rfl
  unfold stepDeclaration
  rw [hbelow]
  cases hresult : compiled.1 with
  | ok c => exact .inl ⟨c, rfl, rfl⟩
  | error fault => exact .inr ⟨fault, rfl, rfl⟩

/-- The trees that a declaration leads through: the one it finds, the one with the scope of its body,
the one it is compiled to, and the one in which the body has its name. -/
def declarationTrees (ctx : PassContext) (p : Pass) (unit : List Token) : List Scope.Tree :=
  let opened := p.tree.nest p.scope .function ""
  [p.tree, opened, (ctx.compiler.compile unit opened (opened.chainOf p.tree.size)).2,
    (p.stepDeclaration ctx unit).1.tree]

/-- Once its scope is open, a declaration moves none. -/
theorem extends_stepDeclaration (ctx : PassContext) (p : Pass) (unit : List Token) :
    (p.tree.nest p.scope .function "").Extends (p.stepDeclaration ctx unit).1.tree := by
  have hcompile := Scope.Tree.Extends.compile ctx.compiler unit (p.tree.nest p.scope .function "")
    ⟨p.tree.size, p.scope, 0⟩
  rw [scope_eq_inside] at hcompile ⊢
  rcases stepDeclaration_of_compile ctx p unit with ⟨c, -, hstep⟩ | ⟨fault, -, hstep⟩
  · rw [hstep]
    exact hcompile.trans (.modify _ _ fun _ => ⟨rfl, rfl, rfl⟩)
  · rw [hstep]
    exact hcompile

/-- None of the trees that a declaration leads through has a scope moved. -/
theorem extends_of_mem_declarationTrees {unit : List Token} {tree : Scope.Tree}
    (h : tree ∈ p.declarationTrees ctx unit) : p.tree.Extends tree := by
  have hopened := Scope.Tree.Extends.nest p.tree p.scope .function ""
  simp only [declarationTrees, List.mem_cons, List.not_mem_nil, or_false] at h
  rcases h with rfl | rfl | rfl | rfl
  · exact .refl _
  · exact hopened
  · exact hopened.trans (.compile ..)
  · exact hopened.trans (extends_stepDeclaration ctx p unit)

/-! ### Chunks -/

namespace LeadsIn

/-- A declaration keeps the braces leading inwards. -/
theorem stepDeclaration (h : p.LeadsIn) (ctx : PassContext) (unit : List Token) :
    (p.stepDeclaration ctx unit).1.LeadsIn := by
  have hgrow := extends_stepDeclaration ctx p unit
  have hstate : (p.stepDeclaration ctx unit).1 = ⟨(p.stepDeclaration ctx unit).1.tree,
      (bodyBrace? p.tree.size unit).toList ++ p.braces, none⟩ := by
    rcases stepDeclaration_of_compile ctx p unit with ⟨c, -, hstep⟩ | ⟨fault, -, hstep⟩ <;> rw [hstep]
  rw [hstate]
  unfold bodyBrace?
  split
  · split
    · exact h.nest hgrow _ none
    · exact h.extend ((Scope.Tree.Extends.nest ..).trans hgrow) none
  · exact h.extend ((Scope.Tree.Extends.nest ..).trans hgrow) none

/-- A chunk keeps the braces leading inwards. -/
theorem step (h : p.LeadsIn) (ctx : PassContext) (c : Chunk) : (p.step ctx c).1.LeadsIn := by
  cases c with
  | newline t => exact h
  | declaration unit => exact h.stepDeclaration ctx unit
  | stray unit => exact h
  | line line => exact (h.announce line).stepTokens line

/-- A row of chunks keeps the braces leading inwards. -/
theorem run (h : p.LeadsIn) (ctx : PassContext) (cs : List Chunk) : (p.run ctx cs).1.LeadsIn :=
  @run_induct ctx p (fun _ p _ => p.LeadsIn) cs (fun c _ _ _ _ h => h.step ctx c) [] {} h

end LeadsIn

/-! ## All states of a pass -/

/-- The open braces of a state are among some tokens, in the order in which they were opened. -/
def BracesAmong (ts : List Token) (p : Pass) : Prop :=
  (p.braces.reverse.map (·.span)).Sublist (ts.map (·.span))

namespace BracesAmong

variable {ts us : List Token}

/-- Braces among some tokens are among more tokens. -/
theorem mono (h : p.BracesAmong ts) (hsub : ts.Sublist us) : p.BracesAmong us :=
  h.trans (hsub.map _)

/-- The braces of a line come behind those that were open, from `braces_stepTokens`. -/
theorem stepTokens (h : p.BracesAmong ts) (us : List Token) :
    (p.stepTokens us).1.BracesAmong (ts ++ us) := by
  unfold BracesAmong
  rw [List.map_append]
  exact (p.braces_stepTokens us).trans (h.append_right _)

/-- Announcing a type opens no brace. -/
theorem announce (h : p.BracesAmong ts) (line : List Token) : (p.announce line).BracesAmong ts := by
  obtain ⟨pending, heq, -⟩ := p.announce_eq line
  rw [heq]
  exact h

/-- A brace is not empty, and it ends where a brace inside it begins or before. -/
theorem apart {source : String} (h : p.BracesAmong ts) (hrow : Row source ts) :
    (∀ brace ∈ p.braces, brace.span.start < brace.span.stop) ∧
      p.braces.Pairwise fun inner outer => outer.span.stop ≤ inner.span.start := by
  constructor
  · intro brace hbrace
    have hmem := h.subset (List.mem_map_of_mem (List.mem_reverse.mpr hbrace))
    obtain ⟨t, ht, heq⟩ := List.mem_map.mp hmem
    rw [← heq]
    exact hrow.nonempty t ht
  · have hspans : (ts.map (·.span)).Pairwise fun a b => a.stop ≤ b.start :=
      List.pairwise_map.mpr hrow.apart
    have hbraces := hspans.sublist h
    rwa [List.pairwise_map, List.pairwise_reverse] at hbraces

end BracesAmong

/-- The states that a pass over some chunks comes to: between two chunks, between two tokens of a line,
and in the middle of a brace or of a declaration, when a scope may be there that has no brace yet. -/
inductive Reached (ctx : PassContext) (start : Pass) (chunks : List Chunk) : Pass → Prop
  | between {front back : List Chunk} (h : chunks = front ++ back) :
      Reached ctx start chunks (start.run ctx front).1
  | inLine {front back : List Chunk} {line taken rest : List Token}
      (h : chunks = front ++ .line line :: back) (hline : line = taken ++ rest) :
      Reached ctx start chunks (((start.run ctx front).1.announce line).stepTokens taken).1
  | inBrace {front back : List Chunk} {line taken rest : List Token} {t : Token} {p : Pass}
      (h : chunks = front ++ .line line :: back) (hline : line = taken ++ t :: rest)
      (ht : t.kind = .openBrace)
      (hp : p = (((start.run ctx front).1.announce line).stepTokens taken).1) :
      Reached ctx start chunks ⟨(p.openBrace t.span).tree, p.braces, none⟩
  | inDeclaration {front back : List Chunk} {unit : List Token} {tree : Scope.Tree}
      (h : chunks = front ++ .declaration unit :: back)
      (htree : tree ∈ (start.run ctx front).1.declarationTrees ctx unit) :
      Reached ctx start chunks ⟨tree, (start.run ctx front).1.braces, none⟩

namespace Reached

variable {start : Pass} {chunks : List Chunk}

/-- The braces of every state that is reached lead inwards. -/
theorem leadsIn (h : Reached ctx start chunks p) (hstart : start.LeadsIn) : p.LeadsIn := by
  cases h with
  | between => exact hstart.run ctx _
  | inLine => exact ((hstart.run ctx _).announce _).stepTokens _
  | inBrace _ _ _ hp =>
    subst hp
    exact (((hstart.run ctx _).announce _).stepTokens _).extend (extends_openBrace _ _) none
  | inDeclaration _ htree =>
    exact (hstart.run ctx _).extend (extends_of_mem_declarationTrees htree) none

/-- The braces of every state that is reached are among the tokens of the chunks. -/
theorem bracesAmong {name : String} {k : Keywords} {source : String}
    (h : Reached ctx { tree := .new name k } chunks p) (hne : ∀ c ∈ chunks, c.tokens ≠ [])
    (hrow : Row source (chunks.flatMap Chunk.tokens)) :
    p.BracesAmong (chunks.flatMap Chunk.tokens) := by
  have hrun : ∀ front back, chunks = front ++ back →
      (run ctx { tree := .new name k } front).1.BracesAmong (front.flatMap Chunk.tokens) := by
    rintro front back rfl
    rw [List.flatMap_append] at hrow
    exact (placed_run_chunks ctx name k (fun c hc => hne c (List.mem_append_left _ hc))
      hrow.left).braces
  have hfront : ∀ front back, chunks = front ++ back →
      (front.flatMap Chunk.tokens).Sublist (chunks.flatMap Chunk.tokens) := by
    rintro front back rfl
    rw [List.flatMap_append]
    exact List.sublist_append_left _ _
  have hline : ∀ front line back taken rest, chunks = front ++ .line line :: back →
      line = taken ++ rest →
      (((run ctx { tree := .new name k } front).1.announce line).stepTokens taken).1.BracesAmong
        (chunks.flatMap Chunk.tokens) := by
    intro front line back taken rest hchunks hline
    refine (((hrun front _ hchunks).announce line).stepTokens taken).mono ?_
    rw [hchunks, List.flatMap_append, List.flatMap_cons]
    refine (List.Sublist.refl _).append (List.Sublist.trans ?_ (List.sublist_append_left _ _))
    show taken.Sublist line
    rw [hline]
    exact List.sublist_append_left _ _
  cases h with
  | between hchunks => exact (hrun _ _ hchunks).mono (hfront _ _ hchunks)
  | inLine hchunks hsplit => exact hline _ _ _ _ _ hchunks hsplit
  | inBrace hchunks hsplit _ hp =>
    subst hp
    exact hline _ _ _ _ _ hchunks hsplit
  | inDeclaration hchunks => exact (hrun _ _ hchunks).mono (hfront _ _ hchunks)

end Reached

end Pass

/-! ## The whole source -/

/-- **The open braces lead inwards.** In every state that the compilation of a source comes to, an open
brace belongs to a scope of the tree that is the scope of the brace around it or is nested in that one,
the file being around the outermost brace, and the braces stand one behind the other in the source.
Every declaration opens a function scope inside the innermost brace and is compiled with that scope as
the current one, below the scope of the brace and the file, whether it is accepted or refused.
Source: `current_scope`, `compile_declaration`, `scan_line` and `push_child`. -/
theorem Settings.braces_lead_inwards (s : Settings) (name : String) {source : String}
    {ts : List Token} (hscan : Token.scan source = .ok ts) :
    let ctx := s.context name source
    let start : Pass := { tree := s.emptyTree name }
    let chunks := ctx.compiler.dialect.chunks ts
    (s.compile name source).scopes = (start.run ctx chunks).1.tree ∧
    (∀ p, Pass.Reached ctx start chunks p →
      (∀ inner brace outer, p.braces = inner ++ brace :: outer → brace.scope < p.tree.size ∧
        (brace.scope = inside outer ∨ (p.tree.get brace.scope).parent = some (inside outer))) ∧
      (∀ brace ∈ p.braces, brace.span.start < brace.span.stop) ∧
      p.braces.Pairwise fun inner outer => outer.span.stop ≤ inner.span.start) ∧
    ∀ front unit back, chunks = front ++ .declaration unit :: back →
      let p := (start.run ctx front).1
      let opened := p.tree.nest (inside p.braces) .function ""
      let chain : Chain := ⟨p.tree.size, inside p.braces, 0⟩
      let compiled := ctx.compiler.compile unit opened chain
      let braces := (Pass.bodyBrace? chain.current unit).toList ++ p.braces
      opened.size = p.tree.size + 1 ∧ (opened.get chain.current).kind = .function ∧
        (opened.get chain.current).parent = some (inside p.braces) ∧
        opened.chainOf p.tree.size = chain ∧
        ((∃ c, compiled.1 = .ok c ∧ p.step ctx (.declaration unit) =
          (⟨compiled.2.modify chain.current (Scope.rename c.name), braces, none⟩,
            Pass.accepted ctx c)) ∨
        ∃ fault, compiled.1 = .error fault ∧ p.step ctx (.declaration unit) =
          (⟨compiled.2, braces, none⟩, Pass.refused ctx fault)) := by
  intro ctx start chunks
  have htokens : chunks.flatMap Chunk.tokens = ts := ctx.compiler.dialect.flatMap_tokens_chunks ts
  have hne := ctx.compiler.dialect.tokens_ne_nil_of_mem_chunks ts
  have hrow := Token.row_of_scan hscan
  refine ⟨?_, fun p hp => ?_, fun front unit back _ => ?_⟩
  · rw [s.compile_of_scan name hscan]
    exact congrArg Compilation.scopes (PassContext.compile_of_run rfl)
  · have hleads := hp.leadsIn (.new _ _)
    have hamong := hp.bracesAmong hne (htokens.symm ▸ hrow)
    rw [htokens] at hamong
    refine ⟨fun inner brace outer hbraces => ?_, hamong.apart hrow⟩
    have hbrace := hleads.braces
    rw [hbraces] at hbrace
    exact hbrace.of_append
  · intro p opened chain compiled braces
    have hget := p.tree.get_nest_size (inside p.braces) .function ""
    refine ⟨Scope.Tree.size_nest .., congrArg Scope.kind hget, congrArg Scope.parent hget,
      Scope.Tree.chainOf_nest .., Pass.stepDeclaration_of_compile ctx p unit⟩

/-- A brace too many, a class with a block in it, and two functions. The first one is refused, yet the
second one is compiled inside it. -/
theorem Settings.braces_lead_inwards_of_refused :
    let source := "\x7d\nclass A\n\x7b \x7b\nfn 1 \x7b\nfn g() \x7b"
    let unit : List Token := [⟨.ident, "fn", ⟨21, 23⟩⟩, ⟨.ident, "g", ⟨24, 25⟩⟩,
      ⟨.openParen, "(", ⟨25, 26⟩⟩, ⟨.closeParen, ")", ⟨26, 27⟩⟩, ⟨.openBrace, "\x7b", ⟨28, 29⟩⟩]
    let ts : List Token := [⟨.closeBrace, "\x7d", ⟨0, 1⟩⟩, ⟨.newline, "\n", ⟨1, 2⟩⟩,
      ⟨.ident, "class", ⟨2, 7⟩⟩, ⟨.ident, "A", ⟨8, 9⟩⟩, ⟨.newline, "\n", ⟨9, 10⟩⟩,
      ⟨.openBrace, "\x7b", ⟨10, 11⟩⟩, ⟨.openBrace, "\x7b", ⟨12, 13⟩⟩, ⟨.newline, "\n", ⟨13, 14⟩⟩,
      ⟨.ident, "fn", ⟨14, 16⟩⟩, ⟨.number, "1", ⟨17, 18⟩⟩, ⟨.openBrace, "\x7b", ⟨19, 20⟩⟩,
      ⟨.newline, "\n", ⟨20, 21⟩⟩] ++ unit
    let ctx := ({} : Settings).context "v" source
    let start : Pass := { tree := ({} : Settings).emptyTree "v" }
    let chunks := ctx.compiler.dialect.chunks ts
    let before := (start.run ctx (chunks.take 8)).1
    let behind := (start.run ctx chunks).1
    Token.scan source = .ok ts ∧
      behind.braces.map (fun brace => (brace.scope, brace.span)) =
        [(3, ⟨28, 29⟩), (2, ⟨19, 20⟩), (1, ⟨12, 13⟩), (1, ⟨10, 11⟩)] ∧
      (∀ inner brace outer, behind.braces = inner ++ brace :: outer → brace.scope < behind.tree.size ∧
        (brace.scope = inside outer ∨
          (behind.tree.get brace.scope).parent = some (inside outer))) ∧
      (behind.braces.Pairwise fun inner outer => outer.span.stop ≤ inner.span.start) ∧
      chunks = chunks.take 8 ++ [.declaration unit] ∧
      before.tree.size = 3 ∧ inside before.braces = 2 ∧
      (before.tree.nest 2 .function "").chainOf 3 = ⟨3, 2, 0⟩ := by
  intro source unit ts ctx start chunks before behind
  have hscan : Token.scan source = .ok ts := Token.scan_of_scanWithin 40 (by decide +kernel)
  have hbraces : behind.braces.map (fun brace => (brace.scope, brace.span)) =
      [(3, ⟨28, 29⟩), (2, ⟨19, 20⟩), (1, ⟨12, 13⟩), (1, ⟨10, 11⟩)] := by decide +kernel
  have hchunks : chunks = chunks.take 8 ++ [.declaration unit] := by decide +kernel
  have hsize : before.tree.size = 3 := by decide +kernel
  have hinside : inside before.braces = 2 := by decide +kernel
  obtain ⟨-, hstates, hunits⟩ := Settings.braces_lead_inwards {} "v" hscan
  obtain ⟨hleads, -, hspans⟩ := hstates behind (.between (List.append_nil chunks).symm)
  obtain ⟨-, -, -, hchain, -⟩ := hunits _ unit [] hchunks
  have hchain : (before.tree.nest (inside before.braces) .function "").chainOf before.tree.size =
    ⟨before.tree.size, inside before.braces, 0⟩ := hchain
  rw [hsize, hinside] at hchain
  exact ⟨hscan, hbraces, hleads, hspans, hchunks, hsize, hinside, hchain⟩

end FuncDecl
