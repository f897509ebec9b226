import FuncDecl.Proofs.Declaration.Compiling
import FuncDecl.Proofs.Declaration.ReturnTypes

/-!
# The grammar of declarations

The grammar speaks of the tokens, not of the order in which they are read. What the decorators and
the parameters are is left to their readers.

* `Header.Form`: a header in its pieces, with its tokens in order (`Header.Form.tokens`).
* `Header.Form.Grammatical d f`: what each piece has to be.
* `Header.Form.Permitted d f parent`: what the scope around the declaration asks.
* `Header.Form.Yields d f h`: the form and the header agree on all that a scope asks about, so a
  scope objects to the header exactly if it does not permit the form
  (`Header.Form.Yields.suits_iff`).
* `Header.Form.Grammatical.exists_read`: a grammatical form is read as a header.
* `Header.exists_form_of_read`: a header has a grammatical form.
* `Compiler.accepts_iff_grammatical`: **a declaration is accepted exactly if it follows the
  grammar**.
-/

namespace FuncDecl

/-! ## Pieces -/

/-- Modifiers are read up to the first token that is none. -/
theorem readModifiers_append {table : ModifierTable} {mods : List Token} {t : Token}
    (hmods : ∀ u ∈ mods, table.contains u.text = true) (ht : table.contains t.text = false)
    (rest : List Token) :
    readModifiers table (mods ++ t :: rest) =
      (mods.filterMap fun u => table.find? u.text, t :: rest) := by
  induction mods with
  | nil =>
    have hfind : table.find? t.text = none := by
      simpa [Table.contains] using ht
    rw [List.nil_append, readModifiers, hfind]
    rfl
  | cons u mods ih =>
    obtain ⟨hu, hmods⟩ := List.forall_mem_cons.mp hmods
    obtain ⟨m, hm⟩ := Option.isSome_iff_exists.mp hu
    rw [List.cons_append, readModifiers, hm, ih hmods, List.filterMap_cons, hm]

/-- A token names a function if it is an identifier or spells an operator that may be overloaded. -/
theorem FunctionName.exists_ofToken?_iff {t : Token} :
    (∃ name, ofToken? t = some name) ↔
      t.kind = .ident ∨ ∃ method, (t.text, method) ∈ operatorMethods := by
  unfold ofToken?
  by_cases hk : t.kind = .ident
  · simp [hk]
  · rw [if_neg hk]
    have hlookup : (∃ method, operatorMethods.lookup t.text = some method) ↔
        ∃ method, (t.text, method) ∈ operatorMethods := by
      rw [← Option.isSome_iff_exists, List.lookup_isSome_iff]
      simp
    simp [hk, ← hlookup]

/-- A function is named by an operator exactly if its token is no identifier. -/
theorem FunctionName.glyph_isSome_iff {t : Token} {name : FunctionName}
    (h : ofToken? t = some name) : name.glyph.isSome = true ↔ t.kind ≠ .ident := by
  unfold ofToken? at h
  split at h
  · next hk =>
    obtain rfl := Option.some.inj h
    simp [hk]
  · next hk =>
    obtain ⟨method, -, rfl⟩ := Option.map_eq_some_iff.mp h
    simp [hk]

/-- A header ends with a brace or a semicolon. -/
theorem HeaderEnd.exists_ofKind?_iff {kind : Token.Kind} :
    (∃ ending, ofKind? kind = some ending) ↔ kind = .openBrace ∨ kind = .semicolon := by
  cases kind <;> simp [ofKind?]

/-- A semicolon ends a header without a body. -/
theorem HeaderEnd.ofKind?_eq_bodiless_iff {kind : Token.Kind} :
    ofKind? kind = some .bodiless ↔ kind = .semicolon := by
  cases kind <;> simp [ofKind?]

/-- A type ends in front of the mark and of the line ends that lead to it. -/
theorem endsType_head?_gap {gap : List Token} {mark : Token} (hgap : ∀ t ∈ gap, t.kind = .newline)
    (hmark : mark.kind = .openBrace ∨ mark.kind = .semicolon) (trail : List Token) :
    ∀ t ∈ (gap ++ mark :: trail).head?, t.kind.endsType = true := by
  intro t ht
  cases gap with
  | nil =>
    obtain rfl := Option.some.inj ht
    rcases hmark with hk | hk
    · rw [hk]
      rfl
    · rw [hk]
      rfl
  | cons u gap =>
    obtain rfl := Option.some.inj ht
    rw [hgap u List.mem_cons_self]
    rfl

namespace ParamScan

/-- Only a closing parenthesis ends a list of parameters well. -/
theorem kind_of_step {s : ParamScan} {t : Token} {table : ParamTable}
    (h : s.step t = .done (.ok table)) : t.kind = .closeParen := by
  unfold step at h
  split at h
  · cases h
  · split at h
    · split at h
      · cases h
      · cases h
    · split at h
      · next hclose => exact hclose.1
      · split at h
        · cases h
        · unfold stepTyped at h
          split at h
          · cases h
          · split at h <;> cases h
          · split at h <;> cases h
          · split at h <;> cases h
          · cases h

/-- A list of parameters that is read ends with its parenthesis. -/
theorem exists_close_of_run {stop : Span} {s : ParamScan} {ts : List Token} {table : ParamTable}
    (h : run stop s ts = (.ok table, [])) :
    ∃ inside close, ts = inside ++ [close] ∧ close.kind = .closeParen := by
  induction ts generalizing s with
  | nil => simp [run] at h
  | cons t ts ih =>
    rw [run] at h
    cases hstep : s.step t with
    | more s' =>
      rw [hstep] at h
      obtain ⟨inside, close, rfl, hclose⟩ := ih h
      exact ⟨t :: inside, close, rfl, hclose⟩
    | done result =>
      rw [hstep] at h
      obtain ⟨rfl, rfl⟩ := Prod.mk.inj h
      exact ⟨[], t, rfl, kind_of_step hstep⟩

end ParamScan

namespace Header

/-! ## Forms -/

/-- A header in its pieces. -/
structure Form where
  /-- The line ends in front. -/
  lead : List Token
  /-- All decorators, with the line ends behind each. -/
  decorators : List Token
  modifiers : List Token
  keyword : Token
  name : Token
  paren : Token
  /-- The tokens between the parentheses. -/
  params : List Token
  close : Token
  /-- The arrow and the return type. -/
  returns : List Token
  /-- The line ends in front of the mark. -/
  gap : List Token
  mark : Token
  /-- The line ends behind the mark. -/
  trail : List Token

namespace Form

/-- The tokens behind the return type. -/
def last (f : Form) : List Token :=
  f.gap ++ f.mark :: f.trail

/-- The tokens behind the decorators. -/
def head (f : Form) : List Token :=
  f.modifiers ++ f.keyword :: f.name :: f.paren :: (f.params ++ f.close :: (f.returns ++ f.last))

/-- All tokens, in order. -/
def tokens (f : Form) : List Token :=
  f.lead ++ (f.decorators ++ f.head)

/-- Every piece of the form is what its place asks for. The line ends in front and the modifiers go
as far as they can: a line end that spells a modifier is still a line end. -/
structure Grammatical (d : Dialect) (f : Form) : Prop where
  lead : ∀ t ∈ f.lead, t.kind = .newline
  lead_maximal : ∀ t ∈ (f.decorators ++ f.head).head?, t.kind ≠ .newline
  /-- What is read as decorators is all in front of the modifiers. -/
  decorators : (Decorator.readAll (f.decorators ++ f.head)).2 = f.head
  modifiers : ∀ t ∈ f.modifiers, d.modifiers.contains t.text = true
  modifiers_maximal : d.modifiers.contains f.keyword.text = false
  keyword : f.keyword.kind = .ident ∧ f.keyword.text = d.keywords.function
  name : f.name.kind = .ident ∨ ∃ method, (f.name.text, method) ∈ operatorMethods
  paren : f.paren.kind = .openParen
  /-- The parameters are read, up to their parenthesis. -/
  params : ∃ table, ∀ stop, readParams stop (f.params ++ [f.close]) = (.ok table, [])
  close : f.close.kind = .closeParen
  returns : IsReturn f.returns
  gap : ∀ t ∈ f.gap, t.kind = .newline
  mark : f.mark.kind = .openBrace ∨ f.mark.kind = .semicolon
  trail : ∀ t ∈ f.trail, t.kind = .newline

/-- The form has the modifier, in one of its spellings. -/
def Says (d : Dialect) (f : Form) (m : Modifier) : Prop :=
  ∃ t ∈ f.modifiers, d.modifiers.find? t.text = some m

/-- The scope that the function is to be registered in allows the form. -/
structure Permitted (d : Dialect) (f : Form) (parent : Scope) : Prop where
  /-- An operator is overloaded by a method. -/
  operator : f.name.kind ≠ .ident → parent.kind.hasMethods = true
  static : f.Says d .static → parent.kind.hasMethods = true
  notPrivateStatic : ¬(f.Says d .priv ∧ f.Says d .static)
  notAsyncUnchecked : ¬(f.Says d .async ∧ f.Says d .unchecked)
  body : f.mark.kind = .semicolon → 0 < parent.indent
  /-- Only an unchecked function takes the name of another one. -/
  fresh : ∀ name ∈ FunctionName.ofToken? f.name,
    parent.functions.contains name.text = true → f.Says d .unchecked

/-- The form and the header agree on what a scope asks about. -/
structure Yields (d : Dialect) (f : Form) (h : Header) : Prop where
  modifiers : h.modifiers = f.modifiers.filterMap fun t => d.modifiers.find? t.text
  name : FunctionName.ofToken? f.name = some h.name
  ending : HeaderEnd.ofKind? f.mark.kind = some h.ending

variable {d : Dialect} {f : Form} {h : Header}

/-- The header has a modifier exactly if the form says it. -/
theorem Yields.mem_modifiers_iff (hf : f.Yields d h) (m : Modifier) :
    h.modifiers.contains m = true ↔ f.Says d m := by
  rw [List.contains_iff_mem, hf.modifiers, List.mem_filterMap]
  rfl

/-- A scope objects to the header exactly if it does not permit the form. -/
theorem Yields.suits_iff (hf : f.Yields d h) {parent : Scope} :
    h.Suits parent ↔ f.Permitted d parent := by
  have hmod := hf.mem_modifiers_iff
  have hglyph := FunctionName.glyph_isSome_iff hf.name
  have hbody : h.ending = .bodiless ↔ f.mark.kind = .semicolon := by
    rw [← HeaderEnd.ofKind?_eq_bodiless_iff, hf.ending, Option.some.injEq]
  constructor
  · intro hs
    refine {
      operator := fun hk => hs.operator (hglyph.mpr hk)
      static := fun hstatic => hs.static ((hmod _).mpr hstatic)
      notPrivateStatic := fun hboth => hs.notPrivateStatic (hboth.imp (hmod _).mpr (hmod _).mpr)
      notAsyncUnchecked := fun hboth => hs.notAsyncUnchecked (hboth.imp (hmod _).mpr (hmod _).mpr)
      body := fun hk => Nat.pos_of_ne_zero (hs.body (hbody.mpr hk))
      fresh := ?_ }
    intro name hname htaken
    obtain rfl := Option.some.inj (hf.name.symm.trans hname)
    exact (hmod _).mp (hs.fresh htaken)
  · intro hp
    exact {
      operator := fun hk => hp.operator (hglyph.mp hk)
      static := fun hstatic => hp.static ((hmod _).mp hstatic)
      notPrivateStatic := fun hboth => hp.notPrivateStatic (hboth.imp (hmod _).mp (hmod _).mp)
      notAsyncUnchecked := fun hboth => hp.notAsyncUnchecked (hboth.imp (hmod _).mp (hmod _).mp)
      body := fun hk => Nat.ne_of_gt (hp.body (hbody.mp hk))
      fresh := fun htaken => (hmod _).mpr (hp.fresh h.name hf.name htaken) }

/-! ## A form is read as a header -/

namespace Grammatical

/-- The line ends in front of a form are all that is skipped. -/
theorem skipNewlines_tokens (hf : f.Grammatical d) :
    skipNewlines f.tokens = f.decorators ++ f.head := by
  rw [tokens, skipNewlines_append hf.lead, skipNewlines_eq_self hf.lead_maximal]

/-- Behind the return type the line ends lead to the mark. -/
theorem skipNewlines_last (hf : f.Grammatical d) : skipNewlines f.last = f.mark :: f.trail := by
  rw [last, skipNewlines_append hf.gap]
  refine skipNewlines_cons_of_ne (fun hk => ?_) f.trail
  rcases hf.mark with hmark | hmark
  · rw [hmark] at hk
    cases hk
  · rw [hmark] at hk
    cases hk

/-- A grammatical form is a header. -/
theorem exists_read (hf : f.Grammatical d) : ∃ h, read d f.tokens = .ok h ∧ f.Yields d h := by
  obtain ⟨name, hname⟩ := FunctionName.exists_ofToken?_iff.mpr hf.name
  obtain ⟨table, hparams⟩ := hf.params
  obtain ⟨type, htype⟩ := (exists_readReturnType_iff (endsType_head?_gap hf.gap hf.mark f.trail)).mpr
    ⟨f.returns, rfl, hf.returns⟩
  obtain ⟨ending, hending⟩ := HeaderEnd.exists_ofKind?_iff.mpr hf.mark
  have hkeyword : d.isFunctionKeyword f.keyword = true := by
    rw [Dialect.isFunctionKeyword, Token.isName, hf.keyword.1, hf.keyword.2]
    simp
  -- behind the parenthesis that closes the parameters any tokens may stand
  have hread : ∀ stop, readParams stop (f.params ++ f.close :: (f.returns ++ f.last)) =
      (.ok table, f.returns ++ f.last) := by
    intro stop
    obtain ⟨pre, hpre, -, hlocal⟩ := ParamScan.run_local (hparams stop)
    rw [List.append_nil] at hpre
    have := hlocal stop (f.returns ++ f.last)
    rwa [← hpre, List.append_assoc] at this
  let h : Header := ⟨(Decorator.readAll (f.decorators ++ f.head)).1,
    f.modifiers.filterMap fun t => d.modifiers.find? t.text,
    (f.head.headD f.keyword).span.merge f.keyword.span, name, table, type, ending⟩
  let c : Cut := ⟨f.head, f.keyword, f.name, f.paren, f.params ++ f.close :: (f.returns ++ f.last),
    f.returns ++ f.last, f.last⟩
  have hparts : Parts d f.tokens h c := {
    decorators := by
      rw [hf.skipNewlines_tokens]
      exact Prod.ext rfl hf.decorators
    modifiers := readModifiers_append hf.modifiers hf.modifiers_maximal _
    keyword := hkeyword
    name := hname
    paren := hf.paren
    params := hread
    returnType := htype
    lead := fun t ht => by
      show (f.head.headD f.keyword).span.merge f.keyword.span = t.span.merge f.keyword.span
      rw [List.headD_eq_head?_getD, Option.mem_def.mp ht]
      rfl
    ending := fun stop => readHeaderEnd_eq_ok_iff.mpr
      ⟨f.mark, f.trail, hf.skipNewlines_last, hending, hf.trail⟩ }
  exact ⟨h, read_eq_ok_iff.mpr ⟨c, hparts⟩, rfl, hname, hending⟩

end Grammatical

end Form

/-! ## A header has a form -/

/-- The pieces of a header make up a grammatical form. -/
theorem exists_form_of_read {d : Dialect} {ts : List Token} {h : Header}
    (hread : read d ts = .ok h) : ∃ f : Form, f.tokens = ts ∧ f.Grammatical d ∧ f.Yields d h := by
  obtain ⟨c, hc⟩ := read_eq_ok_iff.mp hread
  -- from the mark back to the front, each reader with what it took
  obtain ⟨mark, trail, hskip, hending, htrail⟩ := readHeaderEnd_eq_ok_iff.mp (hc.ending default)
  obtain ⟨gap, hgap, hnewlines⟩ := exists_append_skipNewlines c.last
  rw [hskip] at hgap
  have hmark := HeaderEnd.exists_ofKind?_iff.mp ⟨_, hending⟩
  obtain ⟨params, hinside, -, hparams⟩ := ParamScan.run_local (hc.params default)
  have hclosed := hparams default []
  rw [List.append_nil] at hclosed
  obtain ⟨inside, close, rfl, hclose⟩ := ParamScan.exists_close_of_run hclosed
  obtain ⟨mods, hhead, hmods, hkey, -⟩ := readModifiers_local hc.modifiers
  obtain ⟨decorators, hdecorators⟩ := Decorator.readAll_suffix (skipNewlines ts)
  rw [hc.decorators] at hdecorators
  obtain ⟨lead, hlead, hleads⟩ := exists_append_skipNewlines ts
  obtain ⟨returns, hreturns, hreturn⟩ : ∃ returns, c.behind = returns ++ c.last ∧
      IsReturn returns := by
    have hends := endsType_head?_gap hnewlines hmark trail
    rw [← hgap] at hends
    exact (exists_readReturnType_iff hends).mp ⟨h.returnType, hc.returnType⟩
  let f : Form :=
    ⟨lead, decorators, mods, c.keyword, c.name, c.paren, inside, close, returns, gap, mark, trail⟩
  have hlast : f.last = c.last := hgap.symm
  have hfhead : f.head = c.head := by
    rw [hhead, hinside, hreturns, List.append_assoc, Form.head, hlast]
    rfl
  have hfront : decorators ++ f.head = skipNewlines ts := by rw [hfhead, hdecorators]
  have hkeyword := hc.keyword
  rw [Dialect.isFunctionKeyword, Token.isName, Bool.and_eq_true, beq_iff_eq, beq_iff_eq] at hkeyword
  refine ⟨f, ?_, {
    lead := hleads
    lead_maximal := fun t ht => head?_skipNewlines ts (hfront ▸ ht)
    decorators := by rw [hfront, hc.decorators, hfhead]
    modifiers := hmods
    modifiers_maximal := hkey
    keyword := hkeyword
    name := FunctionName.exists_ofToken?_iff.mp ⟨_, hc.name⟩
    paren := hc.paren
    params := ⟨h.params, fun stop => ?_⟩
    close := hclose
    returns := hreturn
    gap := hnewlines
    mark := hmark
    trail := htrail }, ?_, hc.name, hending⟩
  · rw [Form.tokens, hfront]
    exact hlead.symm
  · have hread := hparams stop []
    rwa [List.append_nil] at hread
  · have hread := hc.modifiers
    rw [hhead, readModifiers_append hmods hkey] at hread
    exact (Prod.mk.inj hread).1.symm

end Header

/-! ## Declarations -/

namespace Compiler

/-- A declaration is accepted exactly if it is a header that suits the scope. -/
theorem exists_compile_ok_iff {c : Compiler} {ts : List Token} {tree : Scope.Tree} {chain : Chain} :
    (∃ r, (c.compile ts tree chain).1 = .ok r) ↔
      ∃ h, Header.read c.dialect ts = .ok h ∧ h.Suits (tree.get chain.parent) := by
  unfold compile
  constructor
  · rintro ⟨r, hr⟩
    cases hjudge : c.judge ts tree (tree.get chain.parent) with
    | error fault =>
      rw [hjudge] at hr
      cases hr
    | ok found =>
      obtain ⟨hread, hsuits, -⟩ := judge_eq_ok_iff.mp hjudge
      exact ⟨found.1, hread, hsuits⟩
  · rintro ⟨h, hread, hsuits⟩
    rw [judge_eq_ok_iff.mpr ⟨hread, hsuits, rfl⟩]
    exact ⟨_, rfl⟩

/-- **A declaration is accepted exactly if it follows the grammar.** Its tokens are those of a form
that is grammatical, and the scope that it is to be registered in permits the form.
Source: `collect`, `parse`, `compile`, `return_type` and `body_marker`. -/
theorem accepts_iff_grammatical (c : Compiler) (ts : List Token) (tree : Scope.Tree) (chain : Chain) :
    (∃ r, (c.compile ts tree chain).1 = .ok r) ↔
      ∃ f : Header.Form, f.tokens = ts ∧ f.Grammatical c.dialect ∧
        f.Permitted c.dialect (tree.get chain.parent) := by
  rw [exists_compile_ok_iff]
  constructor
  · rintro ⟨h, hread, hsuits⟩
    obtain ⟨f, htokens, hgrammar, hyields⟩ := Header.exists_form_of_read hread
    exact ⟨f, htokens, hgrammar, hyields.suits_iff.mp hsuits⟩
  · rintro ⟨f, rfl, hgrammar, hpermitted⟩
    obtain ⟨h, hread, hyields⟩ := hgrammar.exists_read
    exact ⟨h, hread, hyields.suits_iff.mpr hpermitted⟩

end Compiler

end FuncDecl
