import FuncDecl.Proofs.Declaration.Registering

/-!
# What compiling a declaration changes

A declaration that is refused changes nothing. One that is accepted is entered into the functions of
the scope around it, and its parameters into the variables of the scope of its body. Nothing else
changes, also where these scopes are one.

* `Chain.InTree`: the scopes of a chain are in the tree.
* `Scope.Tree.Registers tree chain r tree'`: the second tree is the first one with an accepted
  declaration registered in it, said field by field and without the order in which the tree is
  written.
* `Scope.Tree.registers_iff`: this leaves no choice. In a tree that has the scopes of the chain
  there is one tree that it allows.
* `Compiler.compile_cases`: all that compiling can do.
* `Compiler.compile_exact_frame`: **compiling a declaration is all or nothing**.
-/

namespace FuncDecl

/-! ## Changing one scope -/

namespace Scope.Tree

variable {tree tree' : Scope.Tree} {id : Scope.Id}

/-- A change of a scope adds none. -/
theorem size_modify (tree : Scope.Tree) (id : Scope.Id) (f : Scope → Scope) :
    (tree.modify id f).size = tree.size :=
  Array.size_modify

/-- A scope that is changed. -/
theorem get_modify_self (h : id < tree.size) (f : Scope → Scope) :
    (tree.modify id f).get id = f (tree.get id) := by
  have hsome : tree.scopes[id]? = some (tree.scopes[id]) := Array.getElem?_eq_getElem h
  rw [get, get, modify, Array.getD_eq_getD_getElem?, Array.getD_eq_getD_getElem?,
    Array.getElem?_modify, if_pos rfl, hsome]
  rfl

/-- The other scopes stay as they are. -/
theorem get_modify_of_ne {other : Scope.Id} (h : other ≠ id) (f : Scope → Scope) :
    (tree.modify id f).get other = tree.get other := by
  rw [get, get, modify, Array.getD_eq_getD_getElem?, Array.getD_eq_getD_getElem?,
    Array.getElem?_modify, if_neg (Ne.symm h)]

/-- Behind the last scope there is nothing. -/
theorem get_of_size_le (h : tree.size ≤ id) : tree.get id = default := by
  rw [get, Array.getD_eq_getD_getElem?, Array.getElem?_eq_none h]
  rfl

/-- Trees that are read alike are equal. -/
theorem ext_get (hkeywords : tree.keywords = tree'.keywords) (hsize : tree.size = tree'.size)
    (hget : ∀ id, tree.get id = tree'.get id) : tree = tree' := by
  obtain ⟨keywords, scopes⟩ := tree
  obtain ⟨keywords', scopes'⟩ := tree'
  have hscopes : scopes = scopes' := by
    apply Array.ext hsize
    intro i hi hi'
    have := hget i
    rwa [get, get, Array.getD_eq_getD_getElem?, Array.getD_eq_getD_getElem?,
      Array.getElem?_eq_getElem hi, Array.getElem?_eq_getElem hi'] at this
  obtain rfl : keywords = keywords' := hkeywords
  rw [hscopes]

end Scope.Tree

/-! ## Registering along a chain -/

/-- The scopes of a chain are in the tree. -/
structure Chain.InTree (chain : Chain) (tree : Scope.Tree) : Prop where
  current : chain.current < tree.size
  parent : chain.parent < tree.size
  root : chain.root < tree.size

/-- What is registered of an accepted declaration. -/
def Compiled.signature (r : Compiled) : Signature :=
  ⟨r.params, r.returnType, Flags.ofModifiers r.modifiers, r.nameSpan⟩

/-- The scope with other functions and variables in it. -/
def Scope.holding (s : Scope) (functions : Table Signature) (bindings : Table String) : Scope :=
  { s with functions, bindings }

namespace Scope.Tree

/-- The second tree is the first one with an accepted declaration registered along a chain. -/
structure Registers (tree : Scope.Tree) (chain : Chain) (r : Compiled) (tree' : Scope.Tree) :
    Prop where
  keywords : tree'.keywords = tree.keywords
  size : tree'.size = tree.size
  /-- Functions and variables are all of a scope that may change. -/
  rest : ∀ id, tree'.get id =
    (tree.get id).holding (tree'.get id).functions (tree'.get id).bindings
  /-- The function is entered in the scope around it. -/
  defined : Table.Sets r.name r.signature (tree.get chain.parent).functions
    (tree'.get chain.parent).functions
  functions : ∀ id, id ≠ chain.parent → (tree'.get id).functions = (tree.get id).functions
  /-- The parameters are entered in the scope of the body, one after the other. -/
  bound : Table.SetsAll r.signature.locals (tree.get chain.current).bindings
    (tree'.get chain.current).bindings
  bindings : ∀ id, id ≠ chain.current → (tree'.get id).bindings = (tree.get id).bindings

variable {tree tree' : Scope.Tree} {chain : Chain}

/-- A scope after a function was registered. -/
theorem get_register (hchain : chain.InTree tree) (name : String) (s : Signature) (id : Scope.Id) :
    (Compiler.register tree chain name s).get id =
      (tree.get id).holding
        (if id = chain.parent then (tree.get id).functions.insert name s
          else (tree.get id).functions)
        (if id = chain.current then (tree.get id).bindings.insertAll s.locals
          else (tree.get id).bindings) := by
  have hbind : (tree.modify chain.current (Scope.bind s.locals)).get id =
      (tree.get id).holding (tree.get id).functions
        (if id = chain.current then (tree.get id).bindings.insertAll s.locals
          else (tree.get id).bindings) := by
    by_cases hcurrent : id = chain.current
    · subst hcurrent
      rw [get_modify_self hchain.current, if_pos rfl]
      rfl
    · rw [get_modify_of_ne hcurrent, if_neg hcurrent]
      rfl
  show ((tree.modify chain.current (Scope.bind s.locals)).modify chain.parent
    (Scope.define name s)).get id = _
  by_cases hparent : id = chain.parent
  · subst hparent
    rw [get_modify_self (by rw [size_modify]; exact hchain.parent), hbind, if_pos rfl]
    rfl
  · rw [get_modify_of_ne hparent, hbind, if_neg hparent]

/-- Registering a function adds no scope. -/
theorem size_register (tree : Scope.Tree) (chain : Chain) (name : String) (s : Signature) :
    (Compiler.register tree chain name s).size = tree.size := by
  unfold Compiler.register
  rw [size_modify, size_modify]

/-- Registering along a chain is all that `Registers` allows. -/
theorem registers_iff (hchain : chain.InTree tree) {r : Compiled} :
    tree.Registers chain r tree' ↔ tree' = Compiler.register tree chain r.name r.signature := by
  have hget := get_register hchain r.name r.signature
  have hsize := size_register tree chain r.name r.signature
  constructor
  · intro h
    -- two trees are compared scope by scope, and a scope table by table
    refine ext_get h.keywords (h.size.trans hsize.symm) fun id => ?_
    rw [h.rest id, hget]
    congr 1
    · by_cases hparent : id = chain.parent
      · subst hparent
        rw [if_pos rfl]
        exact Table.sets_iff.mp h.defined
      · rw [if_neg hparent, h.functions id hparent]
    · by_cases hcurrent : id = chain.current
      · subst hcurrent
        rw [if_pos rfl]
        exact Table.setsAll_iff.mp h.bound
      · rw [if_neg hcurrent, h.bindings id hcurrent]
  · rintro rfl
    refine ⟨rfl, hsize, fun id => ?_, ?_, fun id hid => ?_, ?_, fun id hid => ?_⟩
    · rw [hget]
      rfl
    · rw [hget]
      exact Table.sets_iff.mpr (if_pos rfl)
    · rw [hget]
      exact if_neg hid
    · rw [hget]
      exact Table.setsAll_iff.mpr (if_pos rfl)
    · rw [hget]
      exact if_neg hid

end Scope.Tree

/-! ## Compiling -/

namespace Compiler

/-- All that compiling can do: the declaration is refused and the tree stays, or its header suits the
scope and is registered. -/
theorem compile_cases (c : Compiler) (ts : List Token) (tree : Scope.Tree) (chain : Chain) :
    (∃ fault, c.compile ts tree chain = (.error fault, tree)) ∨
      ∃ h, Header.read c.dialect ts = .ok h ∧ h.Suits (tree.get chain.parent) ∧
        c.compile ts tree chain = (.ok (c.outcome h tree (tree.get chain.parent)),
          register tree chain h.name.text h.signature) := by
  unfold compile
  cases hjudge : c.judge ts tree (tree.get chain.parent) with
  | error fault => exact .inl ⟨fault, rfl⟩
  | ok found =>
    obtain ⟨h, r⟩ := found
    obtain ⟨hread, hsuits, rfl⟩ := judge_eq_ok_iff.mp hjudge
    exact .inr ⟨h, hread, hsuits, rfl⟩

/-- **Compiling a declaration is all or nothing.** If the declaration is refused, the tree is what it
was. If it is accepted, the tree that is left is the one that differs only in what was registered.
Source: `compile` and `register`. -/
theorem compile_exact_frame (c : Compiler) (ts : List Token) {tree : Scope.Tree} {chain : Chain}
    (hchain : chain.InTree tree) :
    (∀ fault, (c.compile ts tree chain).1 = .error fault → (c.compile ts tree chain).2 = tree) ∧
      ∀ r, (c.compile ts tree chain).1 = .ok r →
        ∀ tree', tree.Registers chain r tree' ↔ tree' = (c.compile ts tree chain).2 := by
  rcases c.compile_cases ts tree chain with ⟨fault, hcompile⟩ | ⟨h, -, -, hcompile⟩
  · rw [hcompile]
    exact ⟨fun _ _ => rfl, fun r hr => absurd hr (by simp)⟩
  · rw [hcompile]
    refine ⟨fun fault hfault => absurd hfault (by simp), fun r hr tree' => ?_⟩
    obtain rfl := Except.ok.inj hr
    exact Scope.Tree.registers_iff hchain

/-- A function takes the place of an earlier one in a class that is the scope of its body, too. -/
theorem compile_exact_frame_in_one_scope :
    let c : Compiler := { dialect := .ofKeywords {} }
    let chain : Chain := ⟨1, 1, 0⟩
    let stack : Scope := {
      kind := .classType, name := "Stack", indent := 1, parent := some 0
      functions := ⟨[("of", ⟨⟨[]⟩, none, {}, ⟨3, 5⟩⟩), ("top", ⟨⟨[]⟩, none, {}, ⟨9, 12⟩⟩)]⟩
      bindings := ⟨[("n", "int"), ("at", "str")]⟩ }
    let tree : Scope.Tree := ⟨{}, #[{ kind := .root, name := "", indent := 0, parent := none }, stack]⟩
    -- `unsafe fn of(n: float, by: int) {`
    let ts : List Token := [⟨.ident, "unsafe", ⟨20, 26⟩⟩, ⟨.ident, "fn", ⟨27, 29⟩⟩,
      ⟨.ident, "of", ⟨30, 32⟩⟩, ⟨.openParen, "(", ⟨32, 33⟩⟩, ⟨.ident, "n", ⟨33, 34⟩⟩,
      ⟨.colon, ":", ⟨34, 35⟩⟩, ⟨.ident, "float", ⟨36, 41⟩⟩, ⟨.comma, ",", ⟨41, 42⟩⟩,
      ⟨.ident, "by", ⟨43, 45⟩⟩, ⟨.colon, ":", ⟨45, 46⟩⟩, ⟨.ident, "int", ⟨47, 50⟩⟩,
      ⟨.closeParen, ")", ⟨50, 51⟩⟩, ⟨.openBrace, "\x7b", ⟨52, 53⟩⟩]
    let r : Compiled := ⟨"of", ⟨30, 32⟩, "    def of(n: float, by: int):",
      ⟨[("n", .ofType "float"), ("by", .ofType "int")]⟩, none, [.unchecked], [], .body, none⟩
    let after := (c.compile ts tree chain).2
    chain.InTree tree ∧ (c.compile ts tree chain).1 = .ok r ∧ tree.Registers chain r after ∧
      (after.get 1).functions.names = ["of", "top"] ∧
      ((after.get 1).functions.find? "of").map (·.span) = some ⟨30, 32⟩ ∧
      (after.get 1).bindings.entries = [("n", "float"), ("at", "str"), ("by", "int")] ∧
      -- without the modifier
      (c.compile ts.tail tree chain).1 = .error ⟨.duplicateFunction "of" ⟨3, 5⟩, ⟨30, 32⟩⟩ ∧
      (c.compile ts.tail tree chain).2 = tree := by
  intro c chain stack tree ts r after
  have hchain : chain.InTree tree := ⟨by decide, by decide, by decide⟩
  have hr : (c.compile ts tree chain).1 = .ok r := by decide +kernel
  have hfault : (c.compile ts.tail tree chain).1 =
      .error ⟨.duplicateFunction "of" ⟨3, 5⟩, ⟨30, 32⟩⟩ := by decide +kernel
  exact ⟨hchain, hr, ((c.compile_exact_frame ts hchain).2 r hr after).mpr rfl, by decide +kernel,
    by decide +kernel, by decide +kernel, hfault, (c.compile_exact_frame ts.tail hchain).1 _ hfault⟩

end Compiler

end FuncDecl
