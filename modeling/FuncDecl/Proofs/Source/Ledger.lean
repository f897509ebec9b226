import FuncDecl.Proofs.Declaration.Sessions
import FuncDecl.Proofs.Scope.Lookup
import FuncDecl.Proofs.Source.Enclosure

/-!
# The ledger of a pass

A pass over the chunks of a source accepts functions one after the other, each in the scope of its
declaration.

* `Dialect.Declares`: a declaration among the chunks, and the token that is the name it gives.
* `Pass.ledger`: the functions that a pass accepts, each with the scope it is registered in. They
  are those that it reports (`Pass.map_snd_ledger`).
* `Pass.Recorded`: what the scopes of a pass know is what its ledger says. A scope has, under a
  name, the function that was entered last for it, and the name of every function is a token of an
  earlier declaration.
* `Pass.Recorded.step` and `Pass.Recorded.run`: one chunk and a row of chunks keep this.
* `Settings.functions_eq_ledger`: the functions of a file are those that its pass enters in the
  ledger.
-/

namespace FuncDecl

/-! ## The names of functions -/

/-- The token gives the name to a function. -/
def Token.Names (t : Token) (name : String) : Prop :=
  (FunctionName.ofToken? t).map FunctionName.text = some name

/-- The name of a header is one of its tokens. -/
theorem Header.exists_name_of_read {d : Dialect} {ts : List Token} {h : Header}
    (hread : read d ts = .ok h) :
    ∃ t ∈ ts, t.Names h.name.text ∧ t.span = h.name.span := by
  obtain ⟨c, hparts⟩ := read_eq_ok_iff.mp hread
  have hmodifiers := readModifiers_suffix d.modifiers c.head
  have hdecorators := Decorator.readAll_suffix (skipNewlines ts)
  rw [hparts.modifiers] at hmodifiers
  rw [hparts.decorators] at hdecorators
  have hmem : c.name ∈ skipNewlines ts := hdecorators.subset (hmodifiers.subset (by simp))
  refine ⟨c.name, (List.dropWhile_suffix _).subset hmem, ?_, ?_⟩
  · rw [Token.Names, hparts.name]
    rfl
  · exact (FunctionName.span_of_ofToken? hparts.name).symm

/-- Behind the first chunks `front` there is a declaration, and the token `t` is the name that it
gives. -/
def Dialect.Declares (d : Dialect) (cs front : List Chunk) (name : String) (t : Token) : Prop :=
  ∃ unit back h, cs = front ++ .declaration unit :: back ∧ Header.read d unit = .ok h ∧
    h.name.text = name ∧ h.name.span = t.span ∧ t ∈ unit ∧ t.Names name

namespace Dialect.Declares

variable {d : Dialect} {cs front : List Chunk} {name : String} {t : Token}

/-- What is declared among some chunks is declared among more. -/
theorem append (h : d.Declares cs front name t) (more : List Chunk) :
    d.Declares (cs ++ more) front name t := by
  obtain ⟨unit, back, header, rfl, hgiven⟩ := h
  exact ⟨unit, back ++ more, header, by simp, hgiven⟩

/-- The name that is given is a token of the chunks. -/
theorem mem_tokens (h : d.Declares cs front name t) : t ∈ cs.flatMap Chunk.tokens := by
  obtain ⟨unit, back, header, rfl, -, -, -, ht, -⟩ := h
  exact List.mem_flatMap.mpr ⟨.declaration unit, by simp, ht⟩

/-- A declaration that can be read gives a name. -/
theorem of_read {unit : List Token} {h : Header} (hread : Header.read d unit = .ok h)
    (front back : List Chunk) :
    ∃ t ∈ unit, h.name.span = t.span ∧
      d.Declares (front ++ .declaration unit :: back) front h.name.text t := by
  obtain ⟨t, ht, hnames, hspan⟩ := Header.exists_name_of_read hread
  exact ⟨t, ht, hspan.symm, unit, back, h, rfl, hread, rfl, hspan.symm, ht, hnames⟩

end Dialect.Declares

/-! ## The ledger of a pass -/

namespace Scope.Tree

variable {tree : Scope.Tree}

/-- What an accepted declaration does to the tree is to register it and to name its scope. -/
theorem accept_eq_of_registers {parent : Scope.Id} (hparent : parent < tree.size) (c : Compiler)
    (h : Header) :
    ∃ tree', (tree.nest parent .function "").Registers ⟨tree.size, parent, root⟩
        (c.outcome h (tree.nest parent .function "") (tree.get parent)) tree' ∧
      tree.accept parent h = tree'.modify tree.size (Scope.rename h.name.text) := by
  have hsize : (tree.nest parent .function "").size = tree.size + 1 := size_nest ..
  have hchain : Chain.InTree ⟨tree.size, parent, root⟩ (tree.nest parent .function "") := by
    refine ⟨?_, ?_, ?_⟩
    · rw [hsize]
      exact Nat.lt_succ_self _
    · rw [hsize]
      exact Nat.lt_succ_of_lt hparent
    · rw [hsize]
      exact Nat.succ_pos _
  exact ⟨_, (registers_iff hchain).mpr rfl, rfl⟩

/-- An accepted declaration keeps the scopes nested. -/
theorem Nested.accept (h : tree.Nested) {parent : Scope.Id} (hparent : parent < tree.size)
    (c : Compiler) (header : Header) : (tree.accept parent header).Nested := by
  obtain ⟨tree', hregisters, heq⟩ := accept_eq_of_registers hparent c header
  rw [heq]
  exact ((h.nest hparent .function "").register hregisters).modify _ fun _ => ⟨rfl, rfl, rfl⟩

/-- An accepted declaration is entered in the ledger of its scope. -/
theorem Records.accept {ledger : Ledger} (h : tree.Records ledger) {parent : Scope.Id}
    (hparent : parent < tree.size) (c : Compiler) {header : Header}
    (hsuits : header.Suits (tree.get parent)) :
    (tree.accept parent header).Records
      (ledger ++ [(parent, c.outcome header (tree.nest parent .function "") (tree.get parent))]) := by
  obtain ⟨tree', hregisters, heq⟩ := accept_eq_of_registers hparent c header
  have hrecords := (h.nest parent .function "").register hregisters fun hcontains => by
    rw [get_nest_of_lt hparent] at hcontains
    exact Header.unchecked_iff.mp (hsuits.fresh hcontains)
  refine ⟨fun s => ?_, hrecords.replacing⟩
  rw [heq, functions_rename, hrecords.functions]

end Scope.Tree

namespace Pass

variable {ctx : PassContext} {p : Pass}

/-- The functions that a pass over some chunks accepts, each with the scope it is registered in. -/
def ledger (ctx : PassContext) (p : Pass) : List Chunk → Ledger
  | [] => []
  | chunk :: rest =>
    (p.step ctx chunk).2.functions.map (p.scope, ·) ++ ledger ctx (p.step ctx chunk).1 rest

/-- The ledger has the functions that the pass reports. By induction on the chunks. -/
theorem map_snd_ledger (ctx : PassContext) (p : Pass) (cs : List Chunk) :
    (p.ledger ctx cs).map Prod.snd = (p.run ctx cs).2.functions := by
  induction cs generalizing p with
  | nil => rfl
  | cons c cs ih =>
    rw [ledger, List.map_append, ih, run_cons, Report.functions_append, List.map_map]
    exact congrArg (· ++ _) (List.map_id _)

/-- What is known of a pass that has taken some chunks and accepted the functions of a ledger. -/
structure Recorded (d : Dialect) (taken : List Chunk) (ledger : Ledger) (p : Pass) : Prop where
  leadsIn : p.LeadsIn
  nested : p.tree.Nested
  records : p.tree.Records ledger
  /-- A declaration among the chunks gives the name of a function. -/
  names : ∀ entry ∈ ledger, ∃ front t,
    d.Declares taken front entry.2.name t ∧ entry.2.nameSpan = t.span

namespace Recorded

variable {d : Dialect} {taken : List Chunk} {ledger : Ledger}

/-- At the beginning of a file the ledger is empty. -/
theorem new (d : Dialect) (name : String) (k : Keywords) :
    Recorded d [] [] { tree := .new name k } :=
  ⟨.new name k, .new name k, .new name k, fun _ h => absurd h List.not_mem_nil⟩

/-- The scope of a state is in its tree. -/
theorem scope_lt (h : p.Recorded d taken ledger) : p.scope < p.tree.size := by
  rw [scope_eq_inside]
  exact h.leadsIn.braces.inside_lt h.leadsIn.nonempty

/-- A brace that opens registers nothing. -/
theorem openBrace (h : p.Recorded d taken ledger) (span : Span) :
    (p.openBrace span).Recorded d taken ledger := by
  have hleads := h.leadsIn.openBrace span
  rcases p.openBrace_cases span with ⟨head, -, heq⟩ | ⟨-, heq⟩
  all_goals rw [heq] at hleads ⊢
  · exact ⟨hleads, h.nested.nest h.scope_lt head.kind head.name,
      h.records.nest p.scope head.kind head.name, h.names⟩
  · exact ⟨hleads, h.nested, h.records, h.names⟩

/-- A line registers nothing. -/
theorem stepLine (h : p.Recorded d taken ledger) (line : List Token) :
    (p.stepLine line).1.Recorded d taken ledger := by
  refine stepLine_induct (P := Recorded d taken ledger) ?_ ?_ line ?_
  · intro p span h
    exact h.openBrace span
  · intro p brace braces hbraces h
    exact ⟨h.leadsIn.closeBrace hbraces, h.nested, h.records, h.names⟩
  · intro pending _
    exact ⟨⟨h.leadsIn.nonempty, h.leadsIn.braces⟩, h.nested, h.records, h.names⟩

/-- More chunks are taken. -/
theorem append (h : p.Recorded d taken ledger) (more : List Chunk) :
    p.Recorded d (taken ++ more) ledger := by
  refine ⟨h.leadsIn, h.nested, h.records, fun entry hentry => ?_⟩
  obtain ⟨front, t, hdeclares, hspan⟩ := h.names entry hentry
  exact ⟨front, t, hdeclares.append more, hspan⟩

/-- A function that is accepted is entered in the ledger. -/
theorem stepDeclaration (h : p.Recorded ctx.compiler.dialect taken ledger) (unit : List Token) :
    (p.stepDeclaration ctx unit).1.Recorded ctx.compiler.dialect (taken ++ [.declaration unit])
      (ledger ++ (p.stepDeclaration ctx unit).2.functions.map (p.scope, ·)) := by
  have hleads := h.leadsIn.stepDeclaration ctx unit
  rcases stepDeclaration_cases ctx h.scope_lt unit with
    ⟨fault, -, -, hstep⟩ | ⟨header, hread, hsuits, -, hstep⟩
  all_goals rw [hstep] at hleads ⊢
  · rw [functions_refused, List.map_nil, List.append_nil]
    exact ⟨hleads, h.nested.nest h.scope_lt .function "", h.records.nest p.scope .function "",
      (h.append _).names⟩
  · rw [functions_accepted, List.map_singleton]
    refine ⟨hleads, h.nested.accept h.scope_lt ctx.compiler header,
      h.records.accept h.scope_lt ctx.compiler hsuits, ?_⟩
    rw [List.forall_mem_append, List.forall_mem_singleton]
    refine ⟨(h.append _).names, ?_⟩
    obtain ⟨t, -, hspan, hdeclares⟩ := Dialect.Declares.of_read hread taken []
    exact ⟨taken, t, hdeclares, hspan⟩

/-- A chunk enters the functions that it reports. -/
theorem step (h : p.Recorded ctx.compiler.dialect taken ledger) (c : Chunk) :
    (p.step ctx c).1.Recorded ctx.compiler.dialect (taken ++ [c])
      (ledger ++ (p.step ctx c).2.functions.map (p.scope, ·)) := by
  cases c with
  | newline t =>
    rw [Pass.step, List.map_nil, List.append_nil]
    exact h.append _
  | declaration unit => exact h.stepDeclaration unit
  | stray unit =>
    rw [Pass.step, functions_stray, List.map_nil, List.append_nil]
    exact h.append _
  | line line =>
    rw [Pass.step, Pass.stepLine, functions_stepTokens, List.map_nil, List.append_nil]
    exact (h.stepLine line).append _

/-- A ledger is kept over a row of chunks. -/
theorem run (h : p.Recorded ctx.compiler.dialect taken ledger) (cs : List Chunk) :
    (p.run ctx cs).1.Recorded ctx.compiler.dialect (taken ++ cs) (ledger ++ p.ledger ctx cs) := by
  induction cs generalizing p taken ledger with
  | nil =>
    rw [Pass.ledger, List.append_nil, List.append_nil]
    exact h
  | cons c cs ih =>
    rw [Pass.ledger, ← List.append_assoc, List.append_cons]
    exact ih (h.step c)

/-- The ledger of a pass over a file records it. -/
theorem of_run (ctx : PassContext) (name : String) (k : Keywords) (cs : List Chunk) :
    (Pass.run ctx { tree := .new name k } cs).1.Recorded ctx.compiler.dialect cs
      (Pass.ledger ctx { tree := .new name k } cs) :=
  (new ctx.compiler.dialect name k).run cs

end Recorded

end Pass

/-- The functions of a file are those that its pass enters in the ledger. -/
theorem Settings.functions_eq_ledger (s : Settings) (name : String) {source : String}
    {ts : List Token} (hscan : Token.scan source = .ok ts) :
    (s.compile name source).functions =
      (Pass.ledger (s.context name source) { tree := s.emptyTree name }
        ((s.context name source).compiler.dialect.chunks ts)).map Prod.snd := by
  rw [s.compile_of_scan name hscan, Pass.map_snd_ledger]
  exact List.append_nil _

end FuncDecl
