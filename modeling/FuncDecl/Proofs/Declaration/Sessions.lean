import FuncDecl.Declaration.Session
import FuncDecl.Proofs.Declaration.Frame

/-!
# What sessions leave behind

A session is a list of steps on the tree of a file, each of which names scopes that are there when
it is taken. Its ledger lists the declarations that were accepted, each with the scope it was
registered in.

* `Scope.Tree.Allows` and `Scope.Tree.ledger`: the steps that may be taken, and what they register.
* `Scope.Tree.run_induct`: **induction over sessions**. A refused declaration changes neither the
  tree nor the ledger, so it has no case of its own. `Scope.Tree.run_invariant` is the case without
  the ledger.
* `Scope.Tree.Records tree ledger`: the table of every scope is what comes of entering its
  declarations one after the other, and a declaration that replaces another one is unchecked. Each
  step keeps this (`Scope.Tree.Records.nest`, `Scope.Tree.Records.register`), so it holds after a
  session (`Scope.Tree.records_run`).
* `Compiler.compile_eq_error_iff`: when a header that suits the scope otherwise is refused for its
  name.
* `Scope.Tree.duplicate_policy`: **which names may be given again**, after any session.
-/

namespace FuncDecl

/-- A function is unchecked exactly if its modifiers say so. -/
theorem Header.unchecked_iff {h : Header} : h.flags.unchecked = true ↔ .unchecked ∈ h.modifiers :=
  List.contains_iff_mem

/-! ## Sessions -/

instance (chain : Chain) (tree : Scope.Tree) : Decidable (chain.InTree tree) :=
  decidable_of_iff (chain.current < tree.size ∧ chain.parent < tree.size ∧ chain.root < tree.size)
    ⟨fun h => ⟨h.1, h.2.1, h.2.2⟩, fun h => ⟨h.current, h.parent, h.root⟩⟩

/-- Accepted declarations in their order, each with the scope it was registered in. -/
abbrev Ledger := List (Scope.Id × Compiled)

namespace Step

/-- The scopes that the step names are in the tree. -/
def Valid (tree : Scope.Tree) : Step → Prop
  | nest parent _ _ => parent < tree.size
  | compile _ _ chain => chain.InTree tree

instance (tree : Scope.Tree) (step : Step) : Decidable (step.Valid tree) :=
  match step with
  | nest parent _ _ => inferInstanceAs (Decidable (parent < tree.size))
  | compile _ _ chain => inferInstanceAs (Decidable (chain.InTree tree))

/-- The declaration that the step registers, with the scope it is registered in. -/
def registered? (tree : Scope.Tree) : Step → Option (Scope.Id × Compiled)
  | nest _ _ _ => none
  | compile c ts chain =>
    match (c.compile ts tree chain).1 with
    | .ok r => some (chain.parent, r)
    | .error _ => none

end Step

namespace Scope.Tree

/-- Every step names scopes that are there when it is taken. -/
def Allows (tree : Scope.Tree) : List Step → Prop
  | [] => True
  | step :: steps => step.Valid tree ∧ (tree.step step).Allows steps

instance decidableAllows : (tree : Scope.Tree) → (steps : List Step) → Decidable (tree.Allows steps)
  | _, [] => .isTrue trivial
  | tree, step :: steps =>
    have := decidableAllows (tree.step step) steps
    inferInstanceAs (Decidable (step.Valid tree ∧ (tree.step step).Allows steps))

/-- The declarations that a list of steps registers. -/
def ledger (tree : Scope.Tree) : List Step → Ledger
  | [] => []
  | step :: steps => (step.registered? tree).toList ++ (tree.step step).ledger steps

/-- **Induction over sessions.** What holds of a tree and its ledger holds of them after a session, if
it is kept where a scope is opened and where a declaration is registered. -/
theorem run_induct {P : Scope.Tree → Ledger → Prop}
    (nest : ∀ {tree : Scope.Tree} {ledger : Ledger} {parent : Scope.Id} (kind : Scope.Kind)
      (name : String), parent < tree.size → P tree ledger → P (tree.nest parent kind name) ledger)
    (register : ∀ {tree tree' : Scope.Tree} {ledger : Ledger} {c : Compiler} {ts : List Token}
      {h : Header} {chain : Chain}, chain.InTree tree → Header.read c.dialect ts = .ok h →
      h.Suits (tree.get chain.parent) →
      tree.Registers chain (c.outcome h tree (tree.get chain.parent)) tree' → P tree ledger →
      P tree' (ledger ++ [(chain.parent, c.outcome h tree (tree.get chain.parent))]))
    {tree : Scope.Tree} {ledger : Ledger} {steps : List Step} (hsteps : tree.Allows steps)
    (h : P tree ledger) : P (tree.run steps) (ledger ++ tree.ledger steps) := by
  induction steps generalizing tree ledger with
  | nil =>
    rw [Scope.Tree.ledger, List.append_nil]
    exact h
  | cons step steps ih =>
    have hstep : P (tree.step step) (ledger ++ (step.registered? tree).toList) := by
      cases step with
      | nest parent kind name =>
        rw [show (Step.nest parent kind name).registered? tree = none from rfl, Option.toList_none,
          List.append_nil]
        exact nest kind name hsteps.1 h
      | compile c ts chain =>
        rw [step, Step.registered?]
        rcases c.compile_cases ts tree chain with ⟨fault, hc⟩ | ⟨header, hread, hsuits, hc⟩
        · simpa [hc] using h
        · rw [hc]
          exact register hsteps.1 hread hsuits ((registers_iff hsteps.1).mpr rfl) h
    rw [Scope.Tree.ledger, ← List.append_assoc]
    exact ih hsteps.2 hstep

/-- `run_induct` for what does not depend on the ledger. -/
theorem run_invariant {P : Scope.Tree → Prop}
    (nest : ∀ {tree : Scope.Tree} {parent : Scope.Id} (kind : Scope.Kind) (name : String),
      parent < tree.size → P tree → P (tree.nest parent kind name))
    (register : ∀ {tree tree' : Scope.Tree} {c : Compiler} {ts : List Token} {h : Header}
      {chain : Chain}, chain.InTree tree → Header.read c.dialect ts = .ok h →
      h.Suits (tree.get chain.parent) →
      tree.Registers chain (c.outcome h tree (tree.get chain.parent)) tree' → P tree → P tree')
    {tree : Scope.Tree} {steps : List Step} (hsteps : tree.Allows steps) (h : P tree) :
    P (tree.run steps) :=
  @run_induct (fun tree _ => P tree) (fun kind name hparent h => nest kind name hparent h)
    (fun hchain hread hsuits hregisters h => register hchain hread hsuits hregisters h)
    tree [] steps hsteps h

end Scope.Tree

/-! ## Reading a ledger -/

namespace Ledger

variable (ledger : Ledger) (s : Scope.Id)

/-- The declarations that were registered in a scope. -/
def inScope : List Compiled :=
  (ledger.filter (·.1 = s)).map Prod.snd

/-- The declarations that were registered in a scope under a name. -/
def named (name : String) : List Compiled :=
  (ledger.inScope s).filter (·.name = name)

/-- The declarations of a scope are those of the ledger that name it. -/
theorem mem_inScope {r : Compiled} : r ∈ ledger.inScope s ↔ (s, r) ∈ ledger := by
  simp [inScope]

/-- A declaration that is entered comes behind those of its scope. -/
theorem inScope_concat_self (r : Compiled) :
    inScope (ledger ++ [(s, r)]) s = ledger.inScope s ++ [r] := by
  simp [inScope]

/-- It does not come up in other scopes. -/
theorem inScope_concat_of_ne {s other : Scope.Id} (h : other ≠ s) (r : Compiled) :
    inScope (ledger ++ [(other, r)]) s = ledger.inScope s := by
  simp [inScope, h]

/-- A declaration that is entered comes behind those of its scope and name. -/
theorem named_concat_self (r : Compiled) :
    named (ledger ++ [(s, r)]) s r.name = ledger.named s r.name ++ [r] := by
  rw [named, inScope_concat_self, List.filter_append, List.filter_cons_of_pos (by simp)]
  rfl

/-- It does not come up in other scopes and under other names. -/
theorem named_concat_of_ne {s other : Scope.Id} {r : Compiled} {name : String}
    (h : ¬(other = s ∧ r.name = name)) :
    named (ledger ++ [(other, r)]) s name = ledger.named s name := by
  by_cases hs : other = s
  · subst hs
    have hname : r.name ≠ name := fun hname => h ⟨rfl, hname⟩
    rw [named, inScope_concat_self, List.filter_append, List.filter_cons_of_neg (by simpa using hname),
      List.filter_nil, List.append_nil]
    rfl
  · rw [named, inScope_concat_of_ne ledger hs]
    rfl

end Ledger

/-! ## The functions of a scope -/

namespace Scope.Tree

variable {tree tree' : Scope.Tree} {ledger : Ledger}

/-- Opening a scope adds one. -/
theorem size_nest (tree : Scope.Tree) (parent : Scope.Id) (kind : Scope.Kind) (name : String) :
    (tree.nest parent kind name).size = tree.size + 1 :=
  Array.size_push _

/-- A scope that is opened has no functions yet. -/
theorem functions_nest (tree : Scope.Tree) (parent : Scope.Id) (kind : Scope.Kind) (name : String)
    (s : Scope.Id) : ((tree.nest parent kind name).get s).functions = (tree.get s).functions := by
  rcases Nat.lt_trichotomy s tree.size with hlt | rfl | hgt
  · rw [get_nest_of_lt hlt]
  · rw [get_nest_size, get_of_size_le (Nat.le_refl tree.size)]
    rfl
  · rw [get_of_size_le (by rw [size_nest]; exact hgt), get_of_size_le (Nat.le_of_lt hgt)]

/-- The name of a scope does not matter to its functions. -/
theorem functions_rename (tree : Scope.Tree) (id : Scope.Id) (name : String) (s : Scope.Id) :
    ((tree.modify id (Scope.rename name)).get s).functions = (tree.get s).functions := by
  by_cases hs : s = id
  · subst hs
    by_cases hlt : s < tree.size
    · rw [get_modify_self hlt]
      rfl
    · have hle := Nat.le_of_not_lt hlt
      rw [get_of_size_le hle, get_of_size_le (by rwa [size_modify])]
  · rw [get_modify_of_ne hs]

/-- The ledger tells the functions of every scope of the tree. -/
structure Records (tree : Scope.Tree) (ledger : Ledger) : Prop where
  functions : ∀ s, (tree.get s).functions =
    .ofList ((ledger.inScope s).map fun r => (r.name, r.signature))
  /-- Only unchecked functions replace others. -/
  replacing : ∀ s name, ∀ r ∈ (ledger.named s name).tail, .unchecked ∈ r.modifiers

namespace Records

/-- A new file has no declarations. -/
theorem new (file : String) (k : Keywords) : (new file k).Records [] := by
  refine ⟨fun s => ?_, by simp [Ledger.named, Ledger.inScope]⟩
  cases s with
  | zero => rfl
  | succ s =>
    rw [get_of_size_le (Nat.succ_le_succ (Nat.zero_le s))]
    rfl

/-- The table of a scope has the names of its declarations in the order of the first ones. -/
theorem names (h : tree.Records ledger) (s : Scope.Id) :
    (tree.get s).functions.names = ((ledger.inScope s).map Compiled.name).eraseDups := by
  rw [h.functions, Table.names_ofList, List.map_map]
  rfl

/-- A name stands for the last declaration that was registered under it. -/
theorem find? (h : tree.Records ledger) (s : Scope.Id) (name : String) :
    (tree.get s).functions.find? name =
      (ledger.named s name).getLast?.map Compiled.signature := by
  rw [h.functions, Table.find?_ofList, List.filter_map, List.getLast?_map, Option.map_map]
  rfl

/-- Nothing was registered under a name that is not found. -/
theorem named_eq_nil (h : tree.Records ledger) {s : Scope.Id} {name : String}
    (hfind : (tree.get s).functions.find? name = none) : ledger.named s name = [] := by
  rw [h.find?, Option.map_eq_none_iff] at hfind
  exact List.getLast?_eq_none_iff.mp hfind

/-- A scope has the names that were registered in it. -/
theorem mem_names_iff (h : tree.Records ledger) {s : Scope.Id} {name : String} :
    name ∈ (tree.get s).functions.names ↔ ∃ r, (s, r) ∈ ledger ∧ r.name = name := by
  rw [h.names, List.mem_eraseDups, List.mem_map]
  simp only [Ledger.mem_inScope]

/-- Opening a scope registers nothing. -/
theorem nest (h : tree.Records ledger) (parent : Scope.Id) (kind : Scope.Kind) (name : String) :
    (tree.nest parent kind name).Records ledger := by
  refine ⟨fun s => ?_, h.replacing⟩
  rw [functions_nest, h.functions]

/-- A declaration that is registered is entered into the ledger. -/
theorem register (h : tree.Records ledger) {chain : Chain} {r : Compiled}
    (hregisters : tree.Registers chain r tree')
    (hfresh : (tree.get chain.parent).functions.contains r.name = true → .unchecked ∈ r.modifiers) :
    tree'.Records (ledger ++ [(chain.parent, r)]) := by
  refine ⟨fun s => ?_, fun s name => ?_⟩
  · by_cases hs : s = chain.parent
    · subst hs
      rw [Table.sets_iff.mp hregisters.defined, h.functions, Ledger.inScope_concat_self,
        List.map_append]
      exact (Table.ofList_concat ..).symm
    · rw [hregisters.functions s hs, h.functions, Ledger.inScope_concat_of_ne _ (Ne.symm hs)]
  · by_cases hnew : chain.parent = s ∧ r.name = name
    · obtain ⟨rfl, rfl⟩ := hnew
      rw [Ledger.named_concat_self]
      by_cases hnone : ledger.named chain.parent r.name = []
      · simp [hnone]
      · -- the declaration replaces another one
        rw [List.tail_append_of_ne_nil hnone, List.forall_mem_append, List.forall_mem_singleton]
        refine ⟨h.replacing chain.parent r.name, hfresh ?_⟩
        obtain ⟨earlier, hearlier⟩ := List.exists_mem_of_ne_nil _ hnone
        obtain ⟨hmem, hname⟩ := List.mem_filter.mp hearlier
        rw [Table.contains_iff_mem_names, h.mem_names_iff]
        exact ⟨earlier, (Ledger.mem_inScope ..).mp hmem, of_decide_eq_true hname⟩
    · rw [Ledger.named_concat_of_ne _ hnew]
      exact h.replacing s name

end Records

/-- A session is recorded by its ledger. -/
theorem records_run (file : String) (k : Keywords) {steps : List Step}
    (hsteps : (new file k).Allows steps) :
    ((new file k).run steps).Records ((new file k).ledger steps) := by
  have h := run_induct (P := Records)
    (fun {_ _ parent} kind name _ h => h.nest parent kind name)
    (fun _ _ hsuits hregisters hrecords =>
      hrecords.register hregisters fun hcontains =>
        Header.unchecked_iff.mp (hsuits.fresh hcontains))
    hsteps (Records.new file k)
  rwa [List.nil_append] at h

end Scope.Tree

/-! ## Names that are given again -/

/-- The scope without its functions. -/
def Scope.emptied (s : Scope) : Scope :=
  { s with functions := .empty }

/-- A header that would suit the scope without its functions can only be refused for its name. -/
theorem Header.objection?_eq_duplicate? {h : Header} {k : Keywords} {parent : Scope}
    (hsuits : h.Suits parent.emptied) : h.objection? k parent = h.duplicate? parent := by
  have hnone := objection?_eq_none_iff (k := k).mpr hsuits
  rw [objection?, List.findSome?_eq_none_iff] at hnone
  simp only [List.forall_mem_cons, id_eq] at hnone
  obtain ⟨hop, hstatic, hpriv, hasync, hbody, -⟩ := hnone
  have hop' : h.operatorOutsideClass? parent = none := hop
  have hstatic' : h.staticOutsideClass? k parent = none := hstatic
  have hbody' : h.bodilessGlobal? parent = none := hbody
  rw [objection?, hop', hstatic', hpriv, hasync, hbody']
  cases hdup : h.duplicate? parent <;> rfl

/-- A header that suits the scope apart from its name is refused exactly if the name is there and the
function is not unchecked. -/
theorem Compiler.compile_eq_error_iff {c : Compiler} {ts : List Token} {tree : Scope.Tree}
    {chain : Chain} {h : Header} (hread : Header.read c.dialect ts = .ok h)
    (hsuits : h.Suits (tree.get chain.parent).emptied) {fault : Fault} :
    (c.compile ts tree chain).1 = .error fault ↔
      .unchecked ∉ h.modifiers ∧
        ∃ previous, (tree.get chain.parent).functions.find? h.name.text = some previous ∧
          fault = ⟨.duplicateFunction h.name.text previous.span, h.name.span⟩ := by
  rw [← Header.unchecked_iff, compile, judge, hread]
  simp only [Header.objection?_eq_duplicate? hsuits]
  rw [Header.duplicate?]
  cases (tree.get chain.parent).functions.find? h.name.text with
  | none => simp
  | some previous =>
    by_cases hunchecked : h.flags.unchecked = true
    · simp [hunchecked]
    · simp [hunchecked, eq_comm]

/-- **Which names may be given again.** After a session, a scope has the names that were registered in
it, in the order of their first declarations. A name stands for its last declaration, and all of its
declarations but the first are unchecked. Another declaration of a name that is there is refused
unless it is unchecked, and the fault tells the place of the last one.
Source: `compile` and `register`. -/
theorem Scope.Tree.duplicate_policy (file : String) (k : Keywords) {steps : List Step}
    (hsteps : (new file k).Allows steps) (s : Scope.Id) (name : String) :
    let tree := (new file k).run steps
    let ledger := (new file k).ledger steps
    (name ∈ (tree.get s).functions.names ↔ ∃ r, (s, r) ∈ ledger ∧ r.name = name) ∧
      (tree.get s).functions.find? name =
        (ledger.named s name).getLast?.map Compiled.signature ∧
      (∀ r ∈ (ledger.named s name).tail, .unchecked ∈ r.modifiers) ∧
      (∀ (c : Compiler) (ts : List Token) (chain : Chain) (h : Header), chain.parent = s →
        Header.read c.dialect ts = .ok h → h.name.text = name → h.Suits (tree.get s).emptied →
        ∀ fault, (c.compile ts tree chain).1 = .error fault ↔
          name ∈ (tree.get s).functions.names ∧ .unchecked ∉ h.modifiers ∧
            ∃ last ∈ (ledger.named s name).getLast?,
              fault = ⟨.duplicateFunction name last.nameSpan, h.name.span⟩) ∧
      (tree.get s).functions.names = ((ledger.inScope s).map Compiled.name).eraseDups := by
  intro tree ledger
  have hrecords : tree.Records ledger := records_run file k hsteps
  refine ⟨hrecords.mem_names_iff, hrecords.find? s name, hrecords.replacing s name, ?_,
    hrecords.names s⟩
  rintro c ts chain h rfl hread rfl hsuits fault
  rw [Compiler.compile_eq_error_iff hread hsuits, hrecords.find?, ← Table.contains_iff_mem_names,
    Table.contains, hrecords.find?]
  cases (ledger.named chain.parent h.name.text).getLast? with
  | none => simp
  | some last => simp [Compiled.signature]

/-- An operator is declared, refused under the name of its method, and replaced under that name. -/
theorem Scope.Tree.duplicate_policy_of_operator :
    let c : Compiler := { dialect := .ofKeywords {} }
    let behindName : List Token := [⟨.openParen, "(", ⟨20, 21⟩⟩, ⟨.ident, "self", ⟨21, 25⟩⟩,
      ⟨.closeParen, ")", ⟨25, 26⟩⟩, ⟨.openBrace, "\x7b", ⟨27, 28⟩⟩]
    -- `fn +(self) {`, `fn __add__(self) {` and `unsafe fn __add__(self) {`
    let plus : List Token := ⟨.ident, "fn", ⟨0, 2⟩⟩ :: ⟨.operator, "+", ⟨3, 4⟩⟩ :: behindName
    let add : List Token := ⟨.ident, "fn", ⟨7, 9⟩⟩ :: ⟨.ident, "__add__", ⟨10, 17⟩⟩ :: behindName
    let again : List Token := ⟨.ident, "unsafe", ⟨0, 6⟩⟩ :: add
    let h : Header := ⟨[], [], ⟨7, 9⟩, ⟨"__add__", ⟨10, 17⟩, none⟩,
      ⟨[("self", ⟨"Any", false, none, false⟩)]⟩, none, .body⟩
    let chain : Chain := ⟨2, 1, 0⟩
    let steps : List Step := [.nest 0 .classType "V", .nest 1 .function "", .compile c plus chain,
      .compile c add chain, .compile c again chain]
    let tree := (new "v" {}).run steps
    let ledger := (new "v" {}).ledger steps
    (new "v" {}).Allows steps ∧
      (ledger.named 1 "__add__").map Compiled.nameSpan = [⟨3, 4⟩, ⟨10, 17⟩] ∧
      ((tree.get 1).functions.find? "__add__").map Signature.span = some ⟨10, 17⟩ ∧
      Header.read c.dialect add = .ok h ∧ h.Suits (tree.get 1).emptied ∧
      (c.compile add tree chain).1 =
        .error ⟨.duplicateFunction "__add__" ⟨10, 17⟩, ⟨10, 17⟩⟩ ∧
      (tree.get 1).functions.names = ["__add__"] := by
  intro c behindName plus add again h chain steps tree ledger
  have hsteps : (new "v" {}).Allows steps := by decide +kernel
  have hledger : (ledger.named 1 "__add__").map Compiled.nameSpan = [⟨3, 4⟩, ⟨10, 17⟩] := by
    decide +kernel
  have hread : Header.read c.dialect add = .ok h := by decide +kernel
  have hsuits : h.Suits (tree.get 1).emptied :=
    Header.objection?_eq_none_iff (k := {}).mp (by decide +kernel)
  have hinScope : (ledger.inScope 1).map Compiled.name = ["__add__", "__add__"] := by decide +kernel
  obtain ⟨-, hfind, -, hverdict, hnames⟩ := duplicate_policy "v" {} hsteps 1 "__add__"
  have hlast : (ledger.named 1 "__add__").getLast?.map Compiled.nameSpan = some ⟨10, 17⟩ := by
    rw [← List.getLast?_map, hledger]
    rfl
  obtain ⟨last, hmem, hspan⟩ := Option.map_eq_some_iff.mp hlast
  have hnames' : (tree.get 1).functions.names = ["__add__"] := by
    rw [hnames, hinScope]
    rfl
  refine ⟨hsteps, hledger, ?_, hread, hsuits, ?_, hnames'⟩
  · rw [hfind, hmem]
    exact congrArg some hspan
  · refine (hverdict c add chain h rfl hread rfl hsuits _).mpr ⟨?_, by decide, last, hmem, ?_⟩
    · rw [hnames']
      exact List.mem_singleton_self _
    · rw [hspan]

end FuncDecl
