import FuncDecl.Proofs.Declaration.Sessions

/-!
# What a declaration does to the tree

A declaration gets a scope for its body, behind all others. Trees are compared as lists of scopes: a
new scope goes to the end of the list, and one scope of the old ones is changed.

* `Header.body`: the scope of the body of an accepted declaration, with its name and its parameters.
* `Scope.Tree.accept tree parent h`: the tree with an accepted declaration in it. The function is
  entered in the scope around it.
* `Scope.Tree.toList_accept` and `Scope.Tree.functions_accept`: its scopes and their functions.
* `Compiler.compileBelow_cases`: **all that compiling a declaration can do**. If it is refused, the
  new scope stays empty; if it is accepted, the tree is that of `accept`. Everything about the trees
  of a pass is derived from it.
-/

namespace FuncDecl

/-! ## Scopes as a list -/

namespace Scope.Tree

variable (tree : Scope.Tree)

/-- A scope is found in the list under its index. -/
theorem get_eq_getD (id : Scope.Id) : tree.get id = tree.scopes.toList.getD id default := by
  rw [get, Array.getD_eq_getD_getElem?, List.getD_eq_getElem?_getD, Array.getElem?_toList]

/-- The list has as many scopes as the tree. -/
theorem length_toList : tree.scopes.toList.length = tree.size :=
  Array.length_toList

/-- A change of a scope is a change of one entry of the list. -/
theorem toList_modify (id : Scope.Id) (f : Scope → Scope) :
    (tree.modify id f).scopes.toList = tree.scopes.toList.modify id f :=
  Array.toList_modify

/-- A scope that is opened goes to the end of the list, one level below its parent. -/
theorem toList_nest (parent : Scope.Id) (kind : Scope.Kind) (name : String) :
    (tree.nest parent kind name).scopes.toList = tree.scopes.toList ++
      [{ kind, name, indent := (tree.get parent).indent + 1, parent := some parent }] :=
  Array.toList_push

end Scope.Tree

/-! ## Accepted declarations -/

/-- The scope of the body of an accepted declaration. -/
def Header.body (h : Header) (parent : Scope.Id) (indent : Nat) : Scope where
  kind := .function
  name := h.name.text
  indent := indent
  parent := some parent
  bindings := .ofList h.signature.locals

namespace Scope.Tree

/-- The tree with an accepted declaration in it, whose header is given. -/
def accept (tree : Scope.Tree) (parent : Scope.Id) (h : Header) : Scope.Tree :=
  (Compiler.register (tree.nest parent .function "") ⟨tree.size, parent, root⟩ h.name.text
    h.signature).modify tree.size (Scope.rename h.name.text)

variable {tree : Scope.Tree} {parent : Scope.Id}

/-- An accepted declaration enters its function and puts the scope of its body at the end. -/
theorem toList_accept (hparent : parent < tree.size) (h : Header) :
    (tree.accept parent h).scopes.toList =
      tree.scopes.toList.modify parent (Scope.define h.name.text h.signature) ++
        [h.body parent ((tree.get parent).indent + 1)] := by
  have hlength : tree.size =
      (tree.scopes.toList.modify parent (Scope.define h.name.text h.signature)).length := by
    rw [List.length_modify, length_toList]
  have hregister : ∀ t : Scope.Tree, (Compiler.register t ⟨tree.size, parent, root⟩ h.name.text
      h.signature).scopes.toList = (t.scopes.toList.modify tree.size
        (Scope.bind h.signature.locals)).modify parent (Scope.define h.name.text h.signature) := by
    intro t
    show ((t.modify tree.size (Scope.bind h.signature.locals)).modify parent
      (Scope.define h.name.text h.signature)).scopes.toList = _
    rw [toList_modify, toList_modify]
  -- the scope of the body is the last one, the scope around it stands further in front
  rw [accept, toList_modify, hregister, toList_nest]
  simp only [← tree.length_toList] at hparent hlength ⊢
  rw [modify_append_length, modify_append_of_lt hparent, hlength, modify_append_length]
  rfl

/-- An accepted declaration adds one scope. -/
theorem size_accept (parent : Scope.Id) (h : Header) :
    (tree.accept parent h).size = tree.size + 1 := by
  unfold accept
  rw [size_modify, size_register]
  exact Array.size_push _

/-- The functions of a scope after a declaration was accepted. -/
theorem functions_accept (hparent : parent < tree.size) (h : Header) (id : Scope.Id) :
    ((tree.accept parent h).get id).functions =
      if id = parent then (tree.get id).functions.insert h.name.text h.signature
      else (tree.get id).functions := by
  have hbody : tree.size < (tree.nest parent .function "").size := by
    rw [size_nest]
    exact Nat.lt_succ_self _
  have hchain : Chain.InTree ⟨tree.size, parent, root⟩ (tree.nest parent .function "") :=
    ⟨hbody, Nat.lt_trans hparent hbody, Nat.zero_lt_of_lt hbody⟩
  have hrename : ((tree.accept parent h).get id).functions =
      ((Compiler.register (tree.nest parent .function "") ⟨tree.size, parent, root⟩ h.name.text
        h.signature).get id).functions := by
    unfold accept
    by_cases hid : id = tree.size
    · subst hid
      rw [get_modify_self (by rwa [size_register])]
      rfl
    · rw [get_modify_of_ne hid]
  rw [hrename, get_register hchain, ← tree.functions_nest parent .function ""]
  rfl

end Scope.Tree

/-! ## Both ways -/

namespace Compiler

/-- All that compiling a declaration below a scope can do. -/
theorem compileBelow_cases (c : Compiler) (ts : List Token) {tree : Scope.Tree} {parent : Scope.Id}
    (hparent : parent < tree.size) :
    (∃ fault, c.judge ts (tree.nest parent .function "") (tree.get parent) = .error fault ∧
      c.compileBelow ts tree parent =
        (.error fault, tree.nest parent .function "", ⟨tree.size, parent, Scope.Tree.root⟩)) ∨
    ∃ h, Header.read c.dialect ts = .ok h ∧ h.Suits (tree.get parent) ∧
      c.compileBelow ts tree parent =
        (.ok (c.outcome h (tree.nest parent .function "") (tree.get parent)),
          register (tree.nest parent .function "") ⟨tree.size, parent, Scope.Tree.root⟩ h.name.text
            h.signature,
          ⟨tree.size, parent, Scope.Tree.root⟩) := by
  cases hjudge : c.judge ts (tree.nest parent .function "") (tree.get parent) with
  | error fault =>
    refine .inl ⟨fault, rfl, ?_⟩
    rw [compileBelow, Scope.Tree.chainOf_nest, compile]
    simp only [Scope.Tree.get_nest_of_lt hparent, hjudge]
  | ok found =>
    obtain ⟨hread, hsuits, -⟩ := judge_eq_ok_iff.mp hjudge
    exact .inr ⟨found.1, hread, hsuits, compileBelow_of_read hparent hread hsuits⟩

end Compiler

end FuncDecl
