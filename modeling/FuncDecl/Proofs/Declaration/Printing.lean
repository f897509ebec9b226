import FuncDecl.Proofs.Declaration.Frame

/-!
# Printing a declaration and compiling it

The source of a declaration has each of its decorators on a line of its own and its header behind
them.

* `Declaration.source`: this text.
* `Declaration.scan_source`: it is cut into the words of the decorators and of the header.
* `Declaration.suits_of_header`: the header that is read suits a scope if the declaration does.
* `Compiled.Says r d ending`: the result says what the declaration says.
* `Declaration.compile_source`: **a declaration is what its source is compiled to**, for every way
  to spell the keywords.
-/

namespace FuncDecl

/-- The result says what the declaration says. -/
structure Compiled.Says (r : Compiled) (d : Declaration) (ending : HeaderEnd) : Prop where
  decorators : r.decorators.map (·.text) = d.decorations.map Decoration.text
  /-- In their order, with those that are repeated. -/
  modifiers : r.modifiers = d.modifiers
  name : r.name = d.name.registered
  params : r.params.entries = d.params.map fun p => (p.name.text, p.info)
  returnType : r.returnType = d.returnType.map TypeExpr.text
  ending : r.ending = ending

/-- A result that is what a declaration becomes, up to places, says what the declaration says. -/
theorem Compiled.says_of_unplaced {r : Compiled} {d : Declaration} {c : Compiler}
    {kind : Scope.Kind} {indent : Nat} {ending : HeaderEnd}
    (h : r.unplaced = d.compiled c kind indent ending) : r.Says d ending := by
  have htexts : r.decorators.map (·.text) = r.unplaced.decorators.map (·.text) := by
    rw [Compiled.unplaced, List.map_map]
    rfl
  refine ⟨?_, congrArg (·.modifiers) h, congrArg (·.name) h, congrArg (·.params.entries) h,
    congrArg (·.returnType) h, congrArg (·.ending) h⟩
  rw [htexts, h, Declaration.compiled, List.map_map]
  rfl

namespace Declaration

/-- The source of a declaration. -/
def source (d : Declaration) (k : Keywords) (ending : HeaderEnd) : String :=
  String.ofList (d.decorations.flatMap (fun x => printLine [] x.layout.text) ++
    (d.layout k ending).text)

/-- The source is cut into the words of the decorators and of the header. -/
theorem scan_source (d : Declaration) {k : Keywords} (hk : k.Proper) (ending : HeaderEnd) :
    ∃ lines head, Token.scan (d.source k ending) = .ok (lines ++ head) ∧
      Decoration.Printed d.decorations lines ∧ head.map Token.word = d.words k ending := by
  have hmargin : Text.IsMargin [] := fun _ hc => absurd hc List.not_mem_nil
  obtain ⟨lines, stop, hlines, hscan⟩ :=
    Decoration.cutInto_lines hmargin d.decorations 0 (d.layout k ending).text
  refine ⟨lines, (d.layout k ending).place stop, ?_, hlines, ?_⟩
  · rw [Token.scan, source, String.toList_ofList, hscan,
      Layout.scanFrom_text_end (d.fits_layout hk ending), Token.prepend_ok]
  · rw [Layout.word_place, d.words_layout]

/-- A header suits a scope if the declaration does so that it is read from. -/
theorem suits_of_header {d : Declaration} {ending : HeaderEnd} {h : Header}
    (hh : h.unplaced = d.header ending) {parent : Scope} (hsuits : (d.header ending).Suits parent) :
    h.Suits parent := by
  rw [← hh] at hsuits
  exact ⟨hsuits.operator, hsuits.static, hsuits.notPrivateStatic, hsuits.notAsyncUnchecked,
    hsuits.body, hsuits.fresh⟩

/-- **A declaration is what its source is compiled to.** However the keywords are spelled, the source
of a declaration that suits the scope is cut into tokens and accepted there, and the result says what
the declaration says.
Source: `lex`, `collect`, `extract` and `compile`. -/
theorem compile_source (d : Declaration) {k : Keywords} (hk : k.Proper) (ending : HeaderEnd)
    (indent : String) {tree : Scope.Tree} {chain : Chain}
    (hsuits : (d.header ending).Suits (tree.get chain.parent)) :
    ∃ ts r, Token.scan (d.source k ending) = .ok ts ∧
      (Compiler.compile ⟨.ofKeywords k, indent⟩ ts tree chain).1 = .ok r ∧ r.Says d ending := by
  obtain ⟨lines, head, hscan, hlines, hhead⟩ := d.scan_source hk ending
  obtain ⟨h, hread, hh⟩ := d.exists_read hk hlines hhead
  let c : Compiler := ⟨.ofKeywords k, indent⟩
  have hjudge : c.judge (lines ++ head) tree (tree.get chain.parent) =
      .ok (h, c.outcome h tree (tree.get chain.parent)) :=
    Compiler.judge_eq_ok_iff.mpr ⟨hread, suits_of_header hh hsuits, rfl⟩
  refine ⟨lines ++ head, _, hscan, ?_,
    Compiled.says_of_unplaced (unplaced_outcome hh c tree (tree.get chain.parent))⟩
  rw [Compiler.compile, hjudge]

/-- The operator `<` with a decorator, modifiers that come again, a receiver with a default value and
a parameter of a nested type. -/
def lessOfLists : Declaration :=
  let seven : Atom := .digits ⟨"7", by decide, by simp⟩
  let y : Atom := .name ⟨"y", by decide +kernel⟩
  let a : Atom :=
    .quoted ⟨'"', ['a'], .inl rfl, .plain (by decide) (by decide) (by decide) .nil⟩
  let n : TypeExpr := .name ⟨"N", by decide +kernel⟩
  let list (args : TypeArgs) : TypeExpr := .apply ⟨"L", by decide +kernel⟩ args
  { decorations := [⟨⟨"memo", by decide +kernel⟩, [⟨"at", by decide +kernel⟩],
      some (.atom y (.comma (.group .square (.atom seven .nil) .nil)))⟩]
    modifiers := [.final, .unchecked, .final]
    name := .operator "<" "__lt__" (by decide)
    params := [.presetReceiver ⟨"cls", by decide +kernel⟩ (by decide) (.atom seven .nil) rfl,
      .preset ⟨"ys", by decide +kernel⟩ (list (.cons n (.last (list (.last n))))) rfl
        (.atom y (.group .round (.atom seven (.comma (.atom a .nil))) .nil)) rfl]
    distinct := by decide
    returnType := some n }

/-- With other spellings of two keywords, this operator is compiled in a class. -/
theorem compile_source_of_lessOfLists :
    let k : Keywords := { function := "def", final := "sealed" }
    let tree := ((Scope.Tree.new "v" k).nest 0 .classType "V").nest 1 .function ""
    k.Proper ∧ (lessOfLists.header .bodiless).Suits (tree.get 1) ∧
      ∃ ts r, Token.scan ("@memo.at(y, [7])\n" ++
          "sealed unsafe sealed def <(cls = 7, ys: L<N,L<N>> = y(7, \"a\")) -> N;") = .ok ts ∧
        (Compiler.compile ⟨.ofKeywords k, "\t"⟩ ts tree ⟨2, 1, 0⟩).1 = .ok r ∧
        r.decorators.map (·.text) = ["memo.at(y, [7])"] ∧
        r.modifiers = [.final, .unchecked, .final] ∧ r.name = "__lt__" ∧
        r.params.entries = [("cls", ⟨"Any", false, some "7", false⟩),
          ("ys", ⟨"L<N,L<N>>", true, some "y(7, \"a\")", true⟩)] ∧
        r.returnType = some "N" ∧ r.ending = .bodiless := by
  intro k tree
  have hk : k.Proper := {
    isName_function := by decide +kernel
    isName_spelling := fun m => by cases m <;> decide +kernel
    spelling_ne_function := fun m => by cases m <;> decide
    spelling_injective := fun m m' => by cases m <;> cases m' <;> decide }
  have hsuits : (lessOfLists.header .bodiless).Suits (tree.get 1) :=
    Header.objection?_eq_none_iff (k := k).mp (by decide +kernel)
  have hsource : lessOfLists.source k .bodiless = "@memo.at(y, [7])\n" ++
      "sealed unsafe sealed def <(cls = 7, ys: L<N,L<N>> = y(7, \"a\")) -> N;" := by
    decide +kernel
  obtain ⟨ts, r, hscan, hr, hsays⟩ :=
    @compile_source lessOfLists k hk .bodiless "\t" tree ⟨2, 1, 0⟩ hsuits
  rw [hsource] at hscan
  refine ⟨hk, hsuits, ts, r, hscan, hr, hsays.decorators.trans ?_, hsays.modifiers, hsays.name,
    hsays.params.trans ?_, hsays.returnType.trans ?_, hsays.ending⟩
  · decide +kernel
  · decide +kernel
  · decide +kernel

end Declaration

end FuncDecl
