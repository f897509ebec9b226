import FuncDecl.Proofs.Declaration.Sessions
import FuncDecl.Proofs.Declaration.ReturnTypes

/-!
# What a registered function is like

The checks on a declaration are spread over its reading: a parameter is looked at when it ends, a
return type when it ends, the modifiers once the header is read. Together they see to it that every
signature that is registered is well formed.

* `ParamTable.WellFormed`: the parameters have different names, and each is one that may stand in a
  list. One token of a list keeps this (`ParamScan.wellFormed_step`), and so does the whole list
  (`ParamScan.wellFormed_run`).
* `Signature.WellFormed kind`: what a signature is like that is registered in a scope of this kind.
  A header that suits a scope has one (`Header.wellFormed_signature`).
* `Scope.Tree.WellFormed`: every function of every scope has one. Opening a scope and registering a
  function keep this (`Scope.Tree.WellFormed.nest`, `Scope.Tree.WellFormed.register`): a scope keeps
  its kind, and a function that replaces another one has passed the same checks.
* `Scope.Tree.registry_wellFormed`: **registered functions are well formed**, after any session.
-/

namespace FuncDecl

/-! ## Parameters -/

/-- What may be known of a parameter of the given name. -/
inductive ParamInfo.Admissible (name : String) : ParamInfo → Prop
  | typed {type : String} (hne : type ≠ "") (hvoid : type ≠ "void") (generic : Bool)
    (default : Option String) : Admissible name ⟨type, generic, default, true⟩
  | receiver (hname : name ∈ receivers) (default : Option String) :
    Admissible name ⟨"Any", false, default, false⟩

/-- The parameters have different names, and each is one that may stand in a list. -/
structure ParamTable.WellFormed (table : ParamTable) : Prop where
  distinct : table.names.Nodup
  named : "" ∉ table.names
  admissible : ∀ param ∈ table.entries, param.2.Admissible param.1

/-- The empty table is well formed. -/
theorem ParamTable.wellFormed_empty : ParamTable.WellFormed .empty :=
  ⟨List.nodup_nil, List.not_mem_nil, fun _ h => absurd h List.not_mem_nil⟩

namespace Draft

variable {d : Draft}

/-- What is known of a parameter that ends well may be known of it. -/
theorem admissible_info {info : ParamInfo} (h : d.info = .ok info) : info.Admissible d.name := by
  unfold Draft.info at h
  split at h
  · split at h
    · next hname =>
      obtain rfl := Except.ok.inj h
      exact .receiver (List.contains_iff_mem.mp hname) d.default
    · cases h
  · split at h
    · cases h
    · next hne =>
      split at h
      · cases h
      · next hvoid =>
        obtain rfl := Except.ok.inj h
        exact .typed hne hvoid d.generic d.default

/-- All that the end of a parameter can do to the table. -/
theorem commit_eq_ok_cases {table table' : ParamTable} {ending : Span}
    (h : d.commit table ending = .ok table') :
    d.isBlank = true ∧ table' = table ∨
      d.isBlank = false ∧ d.name ≠ "" ∧ d.name ∉ table.names ∧
        ∃ info, d.info = .ok info ∧ table' = table.insert d.name info := by
  unfold commit at h
  split at h
  · next hblank => exact .inl ⟨hblank, (Except.ok.inj h).symm⟩
  · next hblank =>
    split at h
    · cases h
    · next hname =>
      split at h
      · cases h
      · next info hinfo =>
        split at h
        · cases h
        · next hnew =>
          refine .inr ⟨eq_false_of_ne_true hblank, hname, ?_, info, hinfo, (Except.ok.inj h).symm⟩
          rwa [Table.contains_iff_mem_names] at hnew

/-- The table stays well formed when a parameter is entered. -/
theorem wellFormed_commit {table table' : ParamTable} {ending : Span} (ht : table.WellFormed)
    (h : d.commit table ending = .ok table') : table'.WellFormed := by
  rcases commit_eq_ok_cases h with ⟨-, rfl⟩ | ⟨-, hname, hnew, info, hinfo, rfl⟩
  · exact ht
  · have hnames : (table.insert d.name info).names = table.names ++ [d.name] := by
      rw [Table.names, Table.entries_insert_of_new hnew, List.map_append]
      rfl
    refine ⟨?_, ?_, fun param hparam => ?_⟩
    · rw [hnames, List.nodup_append]
      refine ⟨ht.distinct, List.nodup_singleton _, ?_⟩
      rintro name hmem _ hlast rfl
      rw [List.mem_singleton.mp hlast] at hmem
      exact hnew hmem
    · rw [hnames, List.mem_append, List.mem_singleton]
      rintro (hmem | hmem)
      · exact ht.named hmem
      · exact hname hmem.symm
    · rw [Table.entries_insert_of_new hnew] at hparam
      rcases List.mem_append.mp hparam with hmem | hmem
      · exact ht.admissible param hmem
      · rw [List.mem_singleton.mp hmem]
        exact admissible_info hinfo

end Draft

namespace ParamScan

/-- The tables that the scan goes on or ends with are well formed. -/
def Outcome.WellFormed : Outcome → Prop
  | more s => s.table.WellFormed
  | done result => ∀ table, result = .ok table → table.WellFormed

/-- In front of a default value no parameter is entered. -/
theorem wellFormed_stepTyped {s : ParamScan} (hs : s.table.WellFormed) (t : Token) :
    (s.stepTyped t).WellFormed := by
  unfold stepTyped
  split
  · exact hs
  · split
    · exact fun _ h => nomatch h
    · exact hs
  · split
    · exact hs
    · exact hs
  · split
    · exact hs
    · exact hs
  · exact hs

/-- One token keeps the table well formed. -/
theorem wellFormed_step {s : ParamScan} (hs : s.table.WellFormed) (t : Token) :
    (s.step t).WellFormed := by
  unfold step
  split
  · exact hs
  · split
    · -- a comma that parts two parameters
      split
      · next hcommit => exact Draft.wellFormed_commit hs hcommit
      · exact fun _ h => nomatch h
    · split
      · -- the parenthesis that ends the list
        split
        · exact fun _ hcommit => Draft.wellFormed_commit hs hcommit
        · exact fun _ h => nomatch h
      · split
        · exact hs
        · exact wellFormed_stepTyped hs t

/-- The scan of a list ends with a well-formed table. -/
theorem wellFormed_run {stop : Span} {s : ParamScan} (hs : s.table.WellFormed) {ts rest : List Token}
    {table : ParamTable} (h : run stop s ts = (.ok table, rest)) : table.WellFormed := by
  induction ts generalizing s with
  | nil => exact nomatch congrArg Prod.fst h
  | cons t ts ih =>
    have hstep := wellFormed_step hs t
    rw [run] at h
    cases hnext : s.step t with
    | more s' =>
      rw [hnext] at h hstep
      exact ih hstep h
    | done result =>
      rw [hnext] at h hstep
      exact hstep table (congrArg Prod.fst h)

end ParamScan

/-! ## Return types -/

/-- A return type that was written is not empty. -/
theorem readReturnType_ne_empty {ts rest : List Token} {type : Option String}
    (h : readReturnType ts = .ok (type, rest)) : type ≠ some "" := by
  cases ts with
  | nil =>
    obtain ⟨rfl, -⟩ := Prod.mk.inj (Except.ok.inj h)
    exact (Option.some_ne_none "").symm
  | cons t ts =>
    rw [readReturnType] at h
    split at h
    · obtain ⟨⟨text, behind⟩, hrun, heq⟩ := Except.map_eq_ok_iff.mp h
      obtain ⟨rfl, -⟩ := Prod.mk.inj heq
      rw [Ne, Option.some_inj]
      exact (TypeScan.exists_type_of_run hrun).1
    · obtain ⟨rfl, -⟩ := Prod.mk.inj (Except.ok.inj h)
      exact (Option.some_ne_none "").symm

/-! ## Signatures -/

/-- What a signature is like that is registered in a scope of the given kind. -/
structure Signature.WellFormed (kind : Scope.Kind) (m : Signature) : Prop where
  notPrivateStatic : ¬(m.flags.priv = true ∧ m.flags.static = true)
  notAsyncUnchecked : ¬(m.flags.async = true ∧ m.flags.unchecked = true)
  static : m.flags.static = true → kind.hasMethods = true
  returnType : m.returnType ≠ some ""
  params : m.params.WellFormed

/-- A header that suits a scope has a signature that is well formed there. -/
theorem Header.wellFormed_signature {d : Dialect} {ts : List Token} {h : Header} {parent : Scope}
    (hread : read d ts = .ok h) (hsuits : h.Suits parent) : h.signature.WellFormed parent.kind := by
  obtain ⟨c, hparts⟩ := read_eq_ok_iff.mp hread
  exact {
    notPrivateStatic := hsuits.notPrivateStatic
    notAsyncUnchecked := hsuits.notAsyncUnchecked
    static := hsuits.static
    returnType := readReturnType_ne_empty hparts.returnType
    params := ParamScan.wellFormed_run ParamTable.wellFormed_empty (hparts.params (endSpan ts)) }

/-! ## The functions of all scopes -/

namespace Scope.Tree

variable {tree tree' : Scope.Tree}

/-- Every function that is registered in a scope of the tree is well formed there. -/
def WellFormed (tree : Scope.Tree) : Prop :=
  ∀ s, ∀ entry ∈ (tree.get s).functions.entries, entry.2.WellFormed (tree.get s).kind

/-- A new file has no functions. -/
theorem wellFormed_new (file : String) (k : Keywords) : (new file k).WellFormed := by
  intro s entry hentry
  rw [(Records.new file k).functions s] at hentry
  exact absurd hentry List.not_mem_nil

/-- A scope that is opened has no functions. -/
theorem WellFormed.nest (h : tree.WellFormed) (parent : Scope.Id) (kind : Scope.Kind)
    (name : String) : (tree.nest parent kind name).WellFormed := by
  intro s entry hentry
  rw [functions_nest] at hentry
  by_cases hs : s < tree.size
  · rw [get_nest_of_lt hs]
    exact h s entry hentry
  · -- there are no functions in a scope that is not there yet
    rw [get_of_size_le (Nat.le_of_not_lt hs)] at hentry
    exact absurd hentry List.not_mem_nil

/-- A scope that a function is registered in keeps its kind. -/
theorem Registers.kind {chain : Chain} {r : Compiled} (h : tree.Registers chain r tree')
    (s : Scope.Id) : (tree'.get s).kind = (tree.get s).kind := by
  rw [h.rest s]
  rfl

/-- Registering a function that is well formed keeps all of them so. -/
theorem WellFormed.register (h : tree.WellFormed) {chain : Chain} {r : Compiled}
    (hregisters : tree.Registers chain r tree')
    (hr : r.signature.WellFormed (tree.get chain.parent).kind) : tree'.WellFormed := by
  intro s entry hentry
  rw [hregisters.kind]
  by_cases hs : s = chain.parent
  · subst hs
    rw [Table.sets_iff.mp hregisters.defined] at hentry
    rcases Table.mem_entries_insert hentry with rfl | hold
    · exact hr
    · exact h _ entry hold
  · rw [hregisters.functions s hs] at hentry
    exact h s entry hentry

end Scope.Tree

/-- **Registered functions are well formed.** After any session, every function that is registered in
any scope has modifiers that go together and suit the kind of the scope, a return type that is not
empty if there is one, and parameters of different names, each of which has a type other than `void`
or is a receiver without one.
Source: `compile`, `register`, `commit` and `return_type`. -/
theorem Scope.Tree.registry_wellFormed (file : String) (k : Keywords) {steps : List Step}
    (hsteps : (new file k).Allows steps) : ((new file k).run steps).WellFormed :=
  run_invariant (fun {_ parent} kind name _ h => h.nest parent kind name)
    (fun _ hread hsuits hregisters h =>
      h.register hregisters (Header.wellFormed_signature hread hsuits))
    hsteps (wellFormed_new file k)

/-- A static method of a class, and the function without the modifier that replaces it. -/
theorem Scope.Tree.registry_wellFormed_of_replaced :
    let c : Compiler := { dialect := .ofKeywords {} }
    -- `static fn of(cls) {` and `unsafe fn of(x: N = 1) -> N;`
    let first : List Token := [⟨.ident, "static", ⟨0, 6⟩⟩, ⟨.ident, "fn", ⟨7, 9⟩⟩,
      ⟨.ident, "of", ⟨10, 12⟩⟩, ⟨.openParen, "(", ⟨12, 13⟩⟩, ⟨.ident, "cls", ⟨13, 16⟩⟩,
      ⟨.closeParen, ")", ⟨16, 17⟩⟩, ⟨.openBrace, "\x7b", ⟨18, 19⟩⟩]
    let second : List Token := [⟨.ident, "unsafe", ⟨0, 6⟩⟩, ⟨.ident, "fn", ⟨7, 9⟩⟩,
      ⟨.ident, "of", ⟨10, 12⟩⟩, ⟨.openParen, "(", ⟨12, 13⟩⟩, ⟨.ident, "x", ⟨13, 14⟩⟩,
      ⟨.colon, ":", ⟨14, 15⟩⟩, ⟨.ident, "N", ⟨16, 17⟩⟩, ⟨.equals, "=", ⟨18, 19⟩⟩,
      ⟨.number, "1", ⟨20, 21⟩⟩, ⟨.closeParen, ")", ⟨21, 22⟩⟩, ⟨.arrow, "->", ⟨23, 25⟩⟩,
      ⟨.ident, "N", ⟨26, 27⟩⟩, ⟨.semicolon, ";", ⟨27, 28⟩⟩]
    let steps : List Step := [.nest 0 .classType "V", .nest 1 .function "",
      .compile c first ⟨2, 1, 0⟩, .compile c second ⟨2, 1, 0⟩]
    let m : Signature := ⟨⟨[("x", ⟨"N", false, some "1", true⟩)]⟩, some "N",
      { unchecked := true }, ⟨10, 12⟩⟩
    (new "v" {}).Allows steps ∧ ((new "v" {}).ledger steps).length = 2 ∧
      (((new "v" {}).run steps).get 1).functions.entries = [("of", m)] ∧
      m.WellFormed .classType := by
  intro c first second steps m
  have hsteps : (new "v" {}).Allows steps := by decide +kernel
  have hentries : (((new "v" {}).run steps).get 1).functions.entries = [("of", m)] := by
    decide +kernel
  have hkind : (((new "v" {}).run steps).get 1).kind = .classType := by decide +kernel
  have hm := registry_wellFormed "v" {} hsteps 1 ("of", m) (by rw [hentries]; exact .head _)
  rw [hkind] at hm
  exact ⟨hsteps, by decide +kernel, hentries, hm⟩

end FuncDecl
