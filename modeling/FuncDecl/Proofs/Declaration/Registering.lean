import FuncDecl.Proofs.Declaration.Compiling
import FuncDecl.Proofs.Declaration.RoundTrip
import FuncDecl.Proofs.Scope.View

/-!
# What a printed declaration becomes

A declaration that is read back from its printed form is compiled and registered as the declaration
says. Places are left out.

* `Declaration.compiled`: what is reported of a declaration. `Declaration.unplaced_outcome` says
  that its header becomes this.
* `Declaration.signature`: what is registered around it (`Declaration.unplaced_signature`).
* `Declaration.scope`: the scope of its body.
* `Scope.bind`, `Scope.define`, `Scope.rename`: the changes of one scope. `Compiler.view_register`
  says what registering is in the list of scopes.
* `Declaration.view_register`: **registering a declaration extends the scope around it and adds the
  scope of its body**.
-/

namespace FuncDecl

/-- The result without its places. -/
def Compiled.unplaced (c : Compiled) : Compiled :=
  { c with
    nameSpan := default
    decorators := c.decorators.map Decorator.unplaced
    shadows := none }

namespace Declaration

/-- What is registered of a declaration. -/
def signature (d : Declaration) : Signature where
  params := ⟨d.params.map fun p => (p.name.text, p.info)⟩
  returnType := d.returnType.map TypeExpr.text
  flags := Flags.ofModifiers d.modifiers
  span := default

/-- What a declaration becomes in a scope of the given kind and level. -/
def compiled (d : Declaration) (c : Compiler) (kind : Scope.Kind) (indent : Nat)
    (ending : HeaderEnd) : Compiled where
  name := d.name.registered
  nameSpan := default
  output := c.emit (d.header ending) { kind, name := "", indent, parent := none }
  params := ⟨d.params.map fun p => (p.name.text, p.info)⟩
  returnType := d.returnType.map TypeExpr.text
  modifiers := d.modifiers
  decorators := d.decorations.map Decoration.decorator
  ending := ending
  shadows := none

/-- The scope of the body of a function with the given functions in it. -/
def scope (d : Declaration) (parent : Scope.Id) (indent : Nat)
    (functions : List (String × Signature)) : Scope where
  kind := .function
  name := d.name.registered
  indent := indent
  parent := some parent
  functions := ⟨functions⟩
  bindings := ⟨d.params.map fun p => (p.name.text, p.info.type)⟩

end Declaration

/-! ## Registering -/

namespace Scope

/-- The scope with variables of the given types. -/
def bind (locals : List (String × String)) (s : Scope) : Scope :=
  { s with bindings := s.bindings.insertAll locals }

/-- The scope with a function of the given name. -/
def define (name : String) (signature : Signature) (s : Scope) : Scope :=
  { s with functions := s.functions.insert name signature }

/-- A function of a new name goes behind those that the scope has. -/
theorem define_of_new {s : Scope} {name : String} (h : name ∉ s.functions.names)
    (signature : Signature) : s.define name signature = s.register [(name, signature)] := by
  rw [define, register, ← Table.entries_insert_of_new h]

/-- The scope with another name. -/
def rename (name : String) (s : Scope) : Scope :=
  { s with name }

end Scope

/-- The parameters as variables. -/
def Signature.locals (s : Signature) : List (String × String) :=
  s.params.entries.map fun (param, info) => (param, info.type)

/-- Registering binds the parameters in the scope of the body and enters the function around it. -/
theorem Compiler.view_register (tree : Scope.Tree) (chain : Chain) (name : String)
    (signature : Signature) : (register tree chain name signature).view =
      (tree.view.modify chain.current (Scope.bind signature.unplaced.locals)).modify chain.parent
        (Scope.define name signature.unplaced) := by
  have hbind : ∀ s : Scope, (s.bind signature.locals).unplaced =
      s.unplaced.bind signature.unplaced.locals := fun _ => rfl
  have hdefine : ∀ s : Scope, (s.define name signature).unplaced =
      s.unplaced.define name signature.unplaced := by
    intro s
    rw [Scope.define, Scope.unplaced, Table.unplaced_insert]
    rfl
  rw [← Scope.Tree.view_modify _ hbind, ← Scope.Tree.view_modify _ hdefine]
  rfl

/-- What is printed of a header depends neither on its places nor on the functions around it. -/
theorem Compiler.emit_unplaced (c : Compiler) (h : Header) {parent parent' : Scope}
    (hkind : parent.kind = parent'.kind) (hindent : parent.indent = parent'.indent) :
    c.emit h.unplaced parent = c.emit h parent' := by
  have hdecorators : h.unplaced.decorators.map (Piece.decorator ·.text) =
      h.decorators.map (Piece.decorator ·.text) := by
    rw [Header.unplaced, List.map_map]
    rfl
  rw [emit, emit, hindent, Header.pieces, Header.pieces, hdecorators, hkind]
  rfl

/-- A header suits a scope if it does so apart from all places. -/
theorem Header.suits_of_unplaced {h : Header} {s : Scope} (hs : h.unplaced.Suits s.unplaced) :
    h.Suits s := by
  refine ⟨hs.operator, hs.static, hs.notPrivateStatic, hs.notAsyncUnchecked, hs.body, fun h => ?_⟩
  rw [Table.contains_iff_mem_names] at h
  refine hs.fresh ((Table.contains_iff_mem_names _ _).mpr ?_)
  rwa [Scope.unplaced, Table.names_unplaced]

namespace Declaration

variable {d : Declaration} {ending : HeaderEnd}

/-- The scope of a body before anything in it was read. -/
theorem rename_bind_locals (d : Declaration) (parent : Scope.Id) (indent : Nat) :
    Scope.rename d.name.registered (Scope.bind d.signature.locals
      { kind := .function, name := "", indent, parent := some parent }) =
        d.scope parent indent [] := by
  have hlocals : d.signature.locals = d.params.map fun p => (p.name.text, p.info.type) := by
    rw [Signature.locals, signature, List.map_map]
    rfl
  have hdistinct : ((d.params.map fun p => (p.name.text, p.info.type)).map Prod.fst).Nodup := by
    rw [List.map_map]
    exact d.distinct
  have hbindings : Table.empty.insertAll (d.params.map fun p => (p.name.text, p.info.type)) =
      ⟨d.params.map fun p => (p.name.text, p.info.type)⟩ :=
    congrArg Table.mk (Table.entries_insertAll_of_nodup hdistinct)
  rw [Scope.rename, Scope.bind, hlocals, hbindings]
  rfl

variable {h : Header} (hh : h.unplaced = d.header ending)
include hh

/-- A header that says what the declaration says becomes what the declaration becomes. -/
theorem unplaced_outcome (c : Compiler) (tree : Scope.Tree) (parent : Scope) :
    (c.outcome h tree parent).unplaced = d.compiled c parent.kind parent.indent ending := by
  have hemit : c.emit (d.header ending)
      { kind := parent.kind, name := "", indent := parent.indent, parent := none } =
        c.emit h parent := by
    rw [← hh]
    exact c.emit_unplaced h rfl rfl
  simp only [Compiled.unplaced, Compiler.outcome, compiled, hemit, Compiled.mk.injEq, and_true,
    true_and]
  exact ⟨congrArg (·.name.text) hh, congrArg (·.params) hh, congrArg (·.returnType) hh,
    congrArg (·.modifiers) hh, congrArg (·.decorators) hh, congrArg (·.ending) hh⟩

/-- And it has the signature of the declaration. -/
theorem unplaced_signature : h.signature.unplaced = d.signature := by
  have hfields : h.signature.unplaced = h.unplaced.signature := rfl
  rw [hfields, hh]
  rfl

/-- Registering a declaration extends the scope around it and adds the scope of its body. -/
theorem view_register {tree : Scope.Tree} {parent : Scope.Id} {s : Scope}
    (hs : tree.view[parent]? = some s) (hnew : d.name.registered ∉ s.functions.names) :
    ((Compiler.register (tree.nest parent .function "") ⟨tree.size, parent, Scope.Tree.root⟩
        h.name.text h.signature).modify tree.size (Scope.rename h.name.text)).view =
      tree.view.modify parent (Scope.register [(d.name.registered, d.signature)]) ++
        [d.scope parent (s.indent + 1) []] := by
  obtain ⟨hlt, rfl⟩ := Scope.Tree.get_of_view hs
  have hname : h.name.text = d.name.registered := congrArg (·.name.text) hh
  have hparent : tree.view.modify parent (Scope.define d.name.registered d.signature) =
      tree.view.modify parent (Scope.register [(d.name.registered, d.signature)]) :=
    modify_congr hs (Scope.define_of_new hnew _)
  have hlength : tree.view.length =
      (tree.view.modify parent (Scope.register [(d.name.registered, d.signature)])).length :=
    (List.length_modify ..).symm
  -- the scope of the body is the last one, the scope around it stands further in front
  rw [Scope.Tree.view_modify (g := Scope.rename h.name.text) _ fun _ => rfl,
    Compiler.view_register, Scope.Tree.view_nest, unplaced_signature hh, hname]
  simp only [← tree.length_view] at hlt ⊢
  rw [modify_append_length, modify_append_of_lt hlt, hparent, hlength, modify_append_length,
    d.rename_bind_locals]
  rfl

end Declaration

end FuncDecl
