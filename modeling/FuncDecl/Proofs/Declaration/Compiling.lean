import FuncDecl.Declaration.Compiler
import FuncDecl.Proofs.Scope.View

/-!
# When a declaration is accepted

What a declaration becomes depends on its tokens only through the header.

* `Header.Suits h parent`: the header suits the scope it is to be registered in. There is no
  objection exactly then (`Header.objection?_eq_none_iff`).
* `Compiler.outcome`: what a header becomes in a scope.
* `Compiler.judge_eq_ok_iff`: **a declaration is accepted exactly if its tokens are a header and the
  header suits the scope**, and its result is the outcome of the header.
* `Compiler.compile_of_error`, `Compiler.compile_of_objection`, `Compiler.compile_of_no_objection`:
  the three ways that compiling takes.
* `Compiler.compileBelow_of_read` and `Compiler.exists_read_of_compileBelow`: the same for a
  declaration that gets a scope of its own.
-/

namespace FuncDecl

/-! ## Objections -/

/-- The header suits the scope it is to be registered in. -/
structure Header.Suits (h : Header) (parent : Scope) : Prop where
  operator : h.name.glyph.isSome = true → parent.kind.hasMethods = true
  static : h.flags.static = true → parent.kind.hasMethods = true
  notPrivateStatic : ¬(h.flags.priv = true ∧ h.flags.static = true)
  notAsyncUnchecked : ¬(h.flags.async = true ∧ h.flags.unchecked = true)
  body : h.ending = .bodiless → parent.indent ≠ 0
  fresh : parent.functions.contains h.name.text = true → h.flags.unchecked = true

namespace Header

/-- An operator is only in place where there are methods. -/
theorem operatorOutsideClass?_eq_none_iff {h : Header} {parent : Scope} :
    h.operatorOutsideClass? parent = none ↔
      (h.name.glyph.isSome = true → parent.kind.hasMethods = true) := by
  rw [operatorOutsideClass?]
  cases h.name.glyph with
  | none => simp
  | some glyph => simp

/-- A name may be taken only if the function is unchecked. -/
theorem duplicate?_eq_none_iff {h : Header} {parent : Scope} :
    h.duplicate? parent = none ↔
      (parent.functions.contains h.name.text = true → h.flags.unchecked = true) := by
  rw [duplicate?, Table.contains]
  cases parent.functions.find? h.name.text with
  | none => simp
  | some previous => simp

/-- There is no objection to a header exactly if it suits the scope. -/
theorem objection?_eq_none_iff {h : Header} {k : Keywords} {parent : Scope} :
    h.objection? k parent = none ↔ h.Suits parent := by
  rw [objection?, List.findSome?_eq_none_iff]
  simp only [List.forall_mem_cons, List.not_mem_nil, id_eq, operatorOutsideClass?_eq_none_iff,
    duplicate?_eq_none_iff]
  constructor
  · rintro ⟨hop, hstatic, hpriv, hasync, hbody, hdup, -⟩
    refine ⟨hop, ?_, ?_, ?_, ?_, hdup⟩
    · simpa [staticOutsideClass?] using hstatic
    · simpa [privateStatic?] using hpriv
    · simpa [asyncUnchecked?] using hasync
    · simpa [bodilessGlobal?] using hbody
  · rintro ⟨hop, hstatic, hpriv, hasync, hbody, hdup⟩
    refine ⟨hop, ?_, ?_, ?_, ?_, hdup, by simp⟩
    · simpa [staticOutsideClass?] using hstatic
    · simpa [privateStatic?] using hpriv
    · simpa [asyncUnchecked?] using hasync
    · simpa [bodilessGlobal?] using hbody

end Header

/-! ## Results -/

namespace Compiler

/-- What a header becomes in a scope of the tree. -/
def outcome (c : Compiler) (h : Header) (tree : Scope.Tree) (parent : Scope) : Compiled where
  name := h.name.text
  nameSpan := h.name.span
  output := c.emit h parent
  params := h.params
  returnType := h.returnType
  modifiers := h.modifiers
  decorators := h.decorators
  ending := h.ending
  shadows := shadowed? tree parent h.name.text

/-- A declaration is accepted exactly if its tokens are a header that suits the scope. -/
theorem judge_eq_ok_iff {c : Compiler} {ts : List Token} {tree : Scope.Tree} {parent : Scope}
    {h : Header} {result : Compiled} :
    c.judge ts tree parent = .ok (h, result) ↔
      Header.read c.dialect ts = .ok h ∧ h.Suits parent ∧ result = c.outcome h tree parent := by
  rw [judge]
  cases hread : Header.read c.dialect ts with
  | error fault => simp
  | ok h' =>
    simp only [Except.ok.injEq]
    cases hobj : h'.objection? c.dialect.keywords parent with
    | some fault =>
      refine ⟨fun h => by simp at h, ?_⟩
      rintro ⟨rfl, hsuits, -⟩
      rw [Header.objection?_eq_none_iff.mpr hsuits] at hobj
      simp at hobj
    | none =>
      simp only [Except.ok.injEq, Prod.mk.injEq]
      constructor
      · rintro ⟨rfl, rfl⟩
        exact ⟨rfl, Header.objection?_eq_none_iff.mp hobj, rfl⟩
      · rintro ⟨rfl, -, rfl⟩
        exact ⟨rfl, rfl⟩

section Verdict

variable {c : Compiler} {ts : List Token} {tree : Scope.Tree} {chain : Chain} {parent : Scope}
  {h : Header} {fault : Fault}

/-- A header that the scope objects to is refused with the objection. -/
theorem judge_of_objection (hread : Header.read c.dialect ts = .ok h)
    (hobjection : h.objection? c.dialect.keywords parent = some fault) :
    c.judge ts tree parent = .error fault := by
  unfold judge
  rw [hread]
  dsimp only
  rw [hobjection]

/-- A header that the scope does not object to has its outcome. -/
theorem judge_of_no_objection (hread : Header.read c.dialect ts = .ok h)
    (hobjection : h.objection? c.dialect.keywords parent = none) :
    c.judge ts tree parent = .ok (h, c.outcome h tree parent) :=
  judge_eq_ok_iff.mpr ⟨hread, Header.objection?_eq_none_iff.mp hobjection, rfl⟩

/-- Tokens that are no header are refused. -/
theorem compile_of_error (hread : Header.read c.dialect ts = .error fault) :
    c.compile ts tree chain = (.error fault, tree) := by
  rw [compile, judge, hread]

/-- A header that the scope objects to is refused. -/
theorem compile_of_objection (hread : Header.read c.dialect ts = .ok h)
    (hobjection : h.objection? c.dialect.keywords (tree.get chain.parent) = some fault) :
    c.compile ts tree chain = (.error fault, tree) := by
  rw [compile, judge_of_objection hread hobjection]

/-- A header that the scope does not object to is registered. -/
theorem compile_of_no_objection (hread : Header.read c.dialect ts = .ok h)
    (hobjection : h.objection? c.dialect.keywords (tree.get chain.parent) = none) :
    c.compile ts tree chain = (.ok (c.outcome h tree (tree.get chain.parent)),
      register tree chain h.name.text h.signature) := by
  rw [compile, judge_of_no_objection hread hobjection]

end Verdict

/-- A declaration whose header suits the scope is accepted and registered. -/
theorem compileBelow_of_read {c : Compiler} {ts : List Token} {tree : Scope.Tree}
    {parent : Scope.Id} {h : Header} (hparent : parent < tree.size)
    (hread : Header.read c.dialect ts = .ok h) (hsuits : h.Suits (tree.get parent)) :
    c.compileBelow ts tree parent =
      (.ok (c.outcome h (tree.nest parent .function "") (tree.get parent)),
        register (tree.nest parent .function "") ⟨tree.size, parent, Scope.Tree.root⟩ h.name.text
          h.signature,
        ⟨tree.size, parent, Scope.Tree.root⟩) := by
  have hjudge : c.judge ts (tree.nest parent .function "") (tree.get parent) =
      .ok (h, c.outcome h (tree.nest parent .function "") (tree.get parent)) :=
    judge_eq_ok_iff.mpr ⟨hread, hsuits, rfl⟩
  rw [compileBelow, Scope.Tree.chainOf_nest, compile]
  simp only [Scope.Tree.get_nest_of_lt hparent, hjudge]

/-- A declaration that is accepted has a header that suits the scope. -/
theorem exists_read_of_compileBelow {c : Compiler} {ts : List Token} {tree : Scope.Tree}
    {parent : Scope.Id} {result : Compiled} (hparent : parent < tree.size)
    (h : (c.compileBelow ts tree parent).1 = .ok result) :
    ∃ header, Header.read c.dialect ts = .ok header ∧ header.Suits (tree.get parent) ∧
      result = c.outcome header (tree.nest parent .function "") (tree.get parent) := by
  rw [compileBelow, Scope.Tree.chainOf_nest, compile] at h
  simp only [Scope.Tree.get_nest_of_lt hparent] at h
  cases hjudge : c.judge ts (tree.nest parent .function "") (tree.get parent) with
  | error fault =>
    rw [hjudge] at h
    exact absurd h (by simp)
  | ok r =>
    rw [hjudge] at h
    obtain ⟨header, result'⟩ := r
    obtain rfl := Except.ok.inj h
    exact ⟨header, judge_eq_ok_iff.mp hjudge⟩

end Compiler

end FuncDecl
