import FuncDecl.Proofs.Scope.Grafting

/-!
# Looking up a name

The scopes around a scope are found by going from each scope to the one it is nested in, and a name
is looked up on the way. Nothing in these steps says that the way ends. It ends because of how a
tree grows: a scope is opened below one that is there, and no declaration moves a scope.

* `Scope.Tree.Enclosing` and `Scope.Tree.Search`: the way out of a scope, and the search for a name
  on it, as relations.
* `Scope.Tree.firstDefining`: the first of some scopes that defines a name.
* `Scope.Tree.Rooted.search_iff`: where a scope comes behind the one it is nested in, the search
  always ends, and with what `nearest?` gives.
* `Scope.Tree.Nested`: every scope but that of the file is nested in an earlier one, one level below
  it. Every step of a session keeps this (`Scope.Tree.Nested.nest`, `Scope.Tree.Nested.register`),
  so it holds after a session (`Scope.Tree.Nested.run`).
* `Scope.Tree.Nested.exists_enclosing`: the way out ends, and its length is the level of the scope.
* `Scope.Tree.lookup_nearest`: **lookup finds the nearest definition**, after any session, and an
  accepted declaration tells the first definition around the scope that it is registered in.
-/

namespace FuncDecl

namespace Scope.Tree

/-! ## The way out -/

/-- The scopes around a scope, from the inside out. -/
inductive Enclosing (tree : Scope.Tree) : Scope.Id → List Scope.Id → Prop
  | outermost {id : Scope.Id} (h : (tree.get id).parent = none) : Enclosing tree id []
  | nested {id parent : Scope.Id} {outer : List Scope.Id} (h : (tree.get id).parent = some parent)
    (houter : Enclosing tree parent outer) : Enclosing tree id (parent :: outer)

/-- The search for a name from a scope on, with what it ends with: a scope that defines the name ends
it, and any other scope leads to the one that it is nested in, if there is one. -/
inductive Search (tree : Scope.Tree) (name : String) :
    Option Scope.Id → Option (Scope.Id × Signature) → Prop
  | nowhere : Search tree name none none
  | found {id : Scope.Id} {signature : Signature}
    (h : (tree.get id).functions.find? name = some signature) :
    Search tree name (some id) (some (id, signature))
  | around {id : Scope.Id} {result : Option (Scope.Id × Signature)}
    (h : (tree.get id).functions.find? name = none)
    (houter : Search tree name (tree.get id).parent result) : Search tree name (some id) result

/-- The first of some scopes that defines a name, with the definition. -/
def firstDefining (tree : Scope.Tree) (name : String) (ids : List Scope.Id) :
    Option (Scope.Id × Signature) :=
  ids.findSome? fun id => ((tree.get id).functions.find? name).map (id, ·)

/-- The first scope is asked before the others. -/
theorem firstDefining_cons (tree : Scope.Tree) (name : String) (id : Scope.Id) (ids : List Scope.Id) :
    tree.firstDefining name (id :: ids) =
      (((tree.get id).functions.find? name).map (id, ·)).or (tree.firstDefining name ids) := by
  rw [firstDefining, List.findSome?_cons]
  cases (tree.get id).functions.find? name <;> rfl

/-- None of some scopes defines a name exactly if it is among the names of none. -/
theorem firstDefining_eq_none_iff {tree : Scope.Tree} {name : String} {ids : List Scope.Id} :
    tree.firstDefining name ids = none ↔ ∀ id ∈ ids, name ∉ (tree.get id).functions.names := by
  rw [firstDefining, List.findSome?_eq_none_iff]
  simp only [← Table.contains_iff_mem_names, Table.contains, Option.map_eq_none_iff,
    Option.not_isSome_iff_eq_none]

/-- Opening a scope changes no definition. -/
theorem firstDefining_nest (tree : Scope.Tree) (parent : Scope.Id) (kind : Scope.Kind)
    (name hidden : String) (ids : List Scope.Id) :
    (tree.nest parent kind name).firstDefining hidden ids = tree.firstDefining hidden ids := by
  unfold firstDefining
  simp only [functions_nest]

namespace Rooted

variable {tree : Scope.Tree} (htree : tree.Rooted)
include htree

/-- Where a scope comes behind the one it is nested in, the search always ends, and with what is
nearest. -/
theorem search_iff {name : String} {id : Scope.Id} {result : Option (Scope.Id × Signature)} :
    tree.Search name (some id) result ↔ result = tree.nearest? name id := by
  constructor
  · intro h
    generalize hfrom : some id = start at h
    induction h generalizing id with
    | nowhere => exact absurd hfrom (Option.some_ne_none id)
    | found hfind =>
      obtain rfl := Option.some.inj hfrom
      rw [nearest?, hfind]
    | around hfind houter ih =>
      obtain rfl := Option.some.inj hfrom
      rw [nearest?, hfind]
      cases hparent : (tree.get id).parent with
      | none =>
        rw [hparent] at houter
        cases houter
        rfl
      | some parent =>
        rw [ih hparent.symm]
        exact (if_pos (htree.parents id parent hparent)).symm
  · rintro rfl
    fun_induction tree.nearest? name id with
    | case1 id signature hfind => exact .found hfind
    | case2 id hfind parent hparent hlt ih => exact .around hfind (hparent ▸ ih)
    | case3 id hfind parent hparent hlt => exact absurd (htree.parents id parent hparent) hlt
    | case4 id hfind hparent => exact .around hfind (hparent ▸ .nowhere)

/-- What is nearest is the first definition on the way out. -/
theorem nearest?_eq {id : Scope.Id} {outer : List Scope.Id} (h : tree.Enclosing id outer)
    (name : String) : tree.nearest? name id = tree.firstDefining name (id :: outer) := by
  induction h with
  | @outermost id hparent =>
    rw [nearest?, firstDefining_cons, hparent]
    cases (tree.get id).functions.find? name <;> rfl
  | @nested id parent outer hparent houter ih =>
    rw [nearest?, firstDefining_cons, hparent, ← ih]
    cases (tree.get id).functions.find? name with
    | none => exact if_pos (htree.parents id parent hparent)
    | some signature => rfl

/-- A function hides the first definition around its scope. -/
theorem shadowed?_eq {id : Scope.Id} {outer : List Scope.Id} (h : tree.Enclosing id outer)
    (name : String) :
    Compiler.shadowed? tree (tree.get id) name = (tree.firstDefining name outer).map (·.2.span) := by
  cases h with
  | outermost hparent =>
    rw [Compiler.shadowed?, hparent]
    rfl
  | nested hparent houter =>
    rw [Compiler.shadowed?, hparent, ← htree.nearest?_eq houter]

/-- Opening a scope leaves the ways out of those that are there. -/
theorem enclosing_nest {id : Scope.Id} {outer : List Scope.Id} (h : tree.Enclosing id outer)
    (hid : id < tree.size) (parent : Scope.Id) (kind : Scope.Kind) (name : String) :
    (tree.nest parent kind name).Enclosing id outer := by
  induction h with
  | outermost hparent => exact .outermost (by rw [get_nest_of_lt hid, hparent])
  | nested hparent _ ih =>
    have hlt := htree.parents _ _ hparent
    exact .nested (by rw [get_nest_of_lt hid, hparent]) (ih (Nat.lt_trans hlt hid))

end Rooted

/-! ## Nested scopes -/

/-- Every scope but that of the file is nested in an earlier one, one level below it. -/
structure Nested (tree : Scope.Tree) : Prop extends tree.Rooted where
  levels : ∀ id, id < tree.size → id ≠ root →
    ∃ parent, (tree.get id).parent = some parent ∧
      (tree.get id).indent = (tree.get parent).indent + 1

namespace Nested

variable {tree tree' : Scope.Tree}

/-- The tree of a new file is nested. -/
theorem new (file : String) (k : Keywords) : (new file k).Nested := by
  refine ⟨Rooted.new file k, fun id hid hroot => ?_⟩
  exact absurd (Nat.lt_one_iff.mp hid) hroot

/-- Opening a scope below one that is there keeps the scopes nested. -/
theorem nest (h : tree.Nested) {parent : Scope.Id} (hparent : parent < tree.size)
    (kind : Scope.Kind) (name : String) : (tree.nest parent kind name).Nested := by
  refine ⟨h.toRooted.nest hparent kind name, fun id hid hroot => ?_⟩
  rcases Nat.lt_or_eq_of_le (Nat.le_of_lt_succ (size_nest .. ▸ hid)) with hlt | rfl
  · obtain ⟨outer, houter, hlevel⟩ := h.levels id hlt hroot
    have houterlt : outer < tree.size := Nat.lt_trans (h.parents id outer houter) hlt
    refine ⟨outer, ?_, ?_⟩
    · rw [get_nest_of_lt hlt, houter]
    · rw [get_nest_of_lt hlt, get_nest_of_lt houterlt, hlevel]
  · refine ⟨parent, ?_, ?_⟩
    · rw [get_nest_size]
    · rw [get_nest_size, get_nest_of_lt hparent]

/-- A change of a scope that does not move it keeps the scopes nested. -/
theorem modify (h : tree.Nested) (id : Scope.Id) {f : Scope → Scope}
    (hf : ∀ s : Scope, s.SamePlace (f s)) : (tree.modify id f).Nested := by
  refine ⟨h.toRooted.modify id hf, fun other hother hroot => ?_⟩
  rw [size_modify] at hother
  obtain ⟨parent, hparent, hlevel⟩ := h.levels other hother hroot
  refine ⟨parent, ?_, ?_⟩
  · rw [(tree.samePlace_modify id hf other).parent, hparent]
  · rw [(tree.samePlace_modify id hf other).indent, (tree.samePlace_modify id hf parent).indent,
      hlevel]

/-- A declaration that is registered moves no scope. -/
theorem register (h : tree.Nested) {chain : Chain} {r : Compiled}
    (hregisters : tree.Registers chain r tree') : tree'.Nested := by
  have hkind : ∀ id, (tree'.get id).kind = (tree.get id).kind := fun id => by
    rw [hregisters.rest id]
    rfl
  have hindent : ∀ id, (tree'.get id).indent = (tree.get id).indent := fun id => by
    rw [hregisters.rest id]
    rfl
  have hparent : ∀ id, (tree'.get id).parent = (tree.get id).parent := fun id => by
    rw [hregisters.rest id]
    rfl
  refine ⟨⟨?_, ?_, ?_, fun id parent hmem => ?_⟩, fun id hid hroot => ?_⟩
  · rw [hregisters.size]
    exact h.nonempty
  · rw [hkind]
    exact h.kind
  · rw [hindent]
    exact h.indent
  · rw [hparent] at hmem
    exact h.parents id parent hmem
  · rw [hregisters.size] at hid
    simp only [hparent, hindent]
    exact h.levels id hid hroot

/-- The scopes of a session are nested. -/
theorem run (file : String) (k : Keywords) {steps : List Step}
    (hsteps : (Tree.new file k).Allows steps) : ((Tree.new file k).run steps).Nested :=
  run_invariant (fun kind name hparent h => h.nest hparent kind name)
    (fun _ _ _ hregisters h => h.register hregisters) hsteps (Nested.new file k)

/-- Only the scope of the file is nested in no other. -/
theorem parent_eq_none_iff (h : tree.Nested) {id : Scope.Id} (hid : id < tree.size) :
    (tree.get id).parent = none ↔ id = root := by
  constructor
  · intro hnone
    by_contra hroot
    obtain ⟨parent, hparent, -⟩ := h.levels id hid hroot
    rw [hnone] at hparent
    cases hparent
  · rintro rfl
    exact h.parent_root

/-- The way out of a scope ends, and its length is the level of the scope. -/
theorem exists_enclosing (h : tree.Nested) {id : Scope.Id} (hid : id < tree.size) :
    ∃ outer, tree.Enclosing id outer ∧ (tree.get id).indent = outer.length := by
  induction id using Nat.strongRecOn with
  | ind id ih =>
    by_cases hroot : id = root
    · subst hroot
      exact ⟨[], .outermost h.parent_root, h.indent⟩
    · obtain ⟨parent, hparent, hlevel⟩ := h.levels id hid hroot
      have hlt : parent < id := h.parents id parent hparent
      obtain ⟨outer, houter, hlength⟩ := ih parent hlt (Nat.lt_trans hlt hid)
      exact ⟨parent :: outer, .nested hparent houter, by rw [hlevel, hlength, List.length_cons]⟩

/-- What a declaration hides is found on the way out of the scope that it stands in, and no scope
before that has the name. -/
theorem exists_of_shadowed? (h : tree.Nested) {id : Scope.Id} (hid : id < tree.size)
    {hidden : String} {earlier : Span}
    (hshadows : Compiler.shadowed? (tree.nest id .function "") (tree.get id) hidden = some earlier) :
    ∃ inner scope outer previous, tree.Enclosing id (inner ++ scope :: outer) ∧
      (∀ i ∈ inner, (tree.get i).functions.find? hidden = none) ∧
      (tree.get scope).functions.find? hidden = some previous ∧ earlier = previous.span := by
  obtain ⟨ids, hids, -⟩ := h.exists_enclosing hid
  have heq := (h.nest hid .function "").shadowed?_eq
    (h.enclosing_nest hids hid id .function "") hidden
  rw [get_nest_of_lt hid, hshadows, firstDefining_nest] at heq
  obtain ⟨⟨scope, previous⟩, hfirst, rfl⟩ := Option.map_eq_some_iff.mp heq.symm
  obtain ⟨inner, scope', outer, rfl, hscope, hinner⟩ := List.findSome?_eq_some_iff.mp hfirst
  obtain ⟨previous', hfind, hpair⟩ := Option.map_eq_some_iff.mp hscope
  obtain ⟨rfl, rfl⟩ := Prod.mk.inj hpair
  exact ⟨inner, scope', outer, previous', hids,
    fun i hi => Option.map_eq_none_iff.mp (hinner i hi), hfind, rfl⟩

end Nested

end Scope.Tree

/-! ## Sessions -/

/-- An accepted declaration tells what its function hides, as the tree was before. -/
theorem Compiler.shadows_of_compile {c : Compiler} {ts : List Token} {tree : Scope.Tree}
    {chain : Chain} {r : Compiled} (h : (c.compile ts tree chain).1 = .ok r) :
    r.shadows = shadowed? tree (tree.get chain.parent) r.name := by
  rcases c.compile_cases ts tree chain with ⟨fault, hcompile⟩ | ⟨header, -, -, hcompile⟩
  · rw [hcompile] at h
    cases h
  · rw [hcompile] at h
    obtain rfl := Except.ok.inj h
    rfl

/-- **Lookup finds the nearest definition.** After any session the scope of the file is the only one
that is nested in no other, and every other scope is nested in an earlier one. So the way out of a
scope ends, after as many steps as the level of the scope says. A search ends from every scope, with
the first definition of the name in the scope or on the way out of it, and with nothing exactly if
none of these scopes defines the name. What an accepted declaration hides is the first definition of
its name on the way out of the scope that it is registered in, as the tree was before.
Source: `push_child`, `chain_for`, `resolve_function` and `compile`. -/
theorem Scope.Tree.lookup_nearest (file : String) (k : Keywords) {steps : List Step}
    (hsteps : (new file k).Allows steps) :
    let tree := (new file k).run steps
    (root < tree.size ∧ ∀ id < tree.size, (tree.get id).parent = none ↔ id = root) ∧
      (∀ id < tree.size, ∀ parent, (tree.get id).parent = some parent → parent < id) ∧
      (∀ id < tree.size, ∃ outer, tree.Enclosing id outer ∧
        (tree.get id).indent = outer.length ∧
        ∀ name, (∀ result, tree.Search name (some id) result ↔ result = tree.nearest? name id) ∧
          tree.nearest? name id = tree.firstDefining name (id :: outer) ∧
          (tree.nearest? name id = none ↔
            ∀ s ∈ id :: outer, name ∉ (tree.get s).functions.names)) ∧
      ∀ (c : Compiler) (ts : List Token) (chain : Chain) (r : Compiled), chain.InTree tree →
        (c.compile ts tree chain).1 = .ok r →
        ∃ outer, tree.Enclosing chain.parent outer ∧
          r.shadows = (tree.firstDefining r.name outer).map (·.2.span) := by
  intro tree
  have htree : tree.Nested := .run file k hsteps
  refine ⟨⟨htree.nonempty, fun id hid => htree.parent_eq_none_iff hid⟩,
    fun id _ => htree.parents id, fun id hid => ?_, fun c ts chain r hchain hr => ?_⟩
  · obtain ⟨outer, houter, hlength⟩ := htree.exists_enclosing hid
    refine ⟨outer, houter, hlength, fun name => ⟨fun _ => htree.search_iff,
      htree.nearest?_eq houter name, ?_⟩⟩
    rw [htree.nearest?_eq houter, firstDefining_eq_none_iff]
  · obtain ⟨outer, houter, -⟩ := htree.exists_enclosing hchain.parent
    exact ⟨outer, houter, by rw [Compiler.shadows_of_compile hr, htree.shadowed?_eq houter]⟩

/-- A function two levels below the file hides the one of the file; the class between them has none of
that name. A declaration on the way is refused. -/
theorem Scope.Tree.lookup_nearest_past_class :
    let c : Compiler := { dialect := .ofKeywords {} }
    -- `fn f() {` at a place
    let f (n : Nat) : List Token := [⟨.ident, "fn", ⟨n, n + 2⟩⟩, ⟨.ident, "f", ⟨n + 3, n + 4⟩⟩,
      ⟨.openParen, "(", ⟨n + 4, n + 5⟩⟩, ⟨.closeParen, ")", ⟨n + 5, n + 6⟩⟩,
      ⟨.openBrace, "\x7b", ⟨n + 7, n + 8⟩⟩]
    let steps : List Step := [.nest 0 .function "", .compile c (f 0) ⟨1, 0, 0⟩,
      .nest 0 .classType "A", .compile c (f 10) ⟨1, 0, 0⟩, .nest 2 .function "", .nest 3 .function ""]
    let tree := (new "v" {}).run steps
    let chain : Chain := ⟨4, 3, 0⟩
    let r : Compiled := ⟨"f", ⟨23, 24⟩, "        def f():", ⟨[]⟩, none, [], [], .body, some ⟨3, 4⟩⟩
    (new "v" {}).Allows steps ∧ tree.size = 5 ∧
      (∃ outer, tree.Enclosing 4 outer ∧ outer.length = 3) ∧
      (tree.nearest? "f" 4).map (·.2.span) = some ⟨3, 4⟩ ∧
      tree.Search "f" (some 4) (tree.nearest? "f" 4) ∧
      chain.InTree tree ∧ (c.compile (f 20) tree chain).1 = .ok r ∧
      ∃ outer, tree.Enclosing 3 outer ∧ some ⟨3, 4⟩ = (tree.firstDefining "f" outer).map (·.2.span) := by
  intro c f steps tree chain r
  have hsteps : (new "v" {}).Allows steps := by decide +kernel
  have hchain : chain.InTree tree := by decide +kernel
  have hr : (c.compile (f 20) tree chain).1 = .ok r := by decide +kernel
  obtain ⟨-, -, hlookup, hshadows⟩ := lookup_nearest "v" {} hsteps
  obtain ⟨outer, houter, hlevel, hname⟩ := hlookup 4 (by decide +kernel)
  refine ⟨hsteps, by decide +kernel, ⟨outer, houter, ?_⟩, by decide +kernel,
    ((hname "f").1 _).mpr rfl, hchain, hr, hshadows c (f 20) chain r hchain hr⟩
  rw [← hlevel]
  decide +kernel

end FuncDecl
