import FuncDecl.Proofs.Declaration.Compiling
import FuncDecl.Proofs.Declaration.RoundTrip

/-!
# Declarations in another spelling

Between its decorators and its name a declaration has modifiers and the function keyword. How these
are spelled is a matter of the keywords, and a modifier may stand anywhere among the others and more
than once. Here two declarations are compared that differ only in this part and have the same
modifiers there, each read by keywords of its own.

* `Decorator.readAll_swap`: the decorators in front are the same, because they end at a name
  whatever it is (`Token.EndsDecorators`).
* `Keywords.Spells k ms ts`: the tokens spell modifiers and behind them the function keyword.
* `Header.readFrom`: reading a header from the name on. What stands in front has no part in it
  (`Header.readFrom_withLead`).
* `Header.read_respelled`: both declarations are headers, or both are refused.
* `Cause.Respelled`: the causes are the same, or complain of the same modifiers, each in its own
  spelling.
* `Compiler.compile_respelled`: **only which modifiers there are matters**. What becomes of the two
  is the same, up to the list of modifiers as written and to the spellings that a fault quotes.
-/

namespace FuncDecl

/-! ## Decorators in front of a name -/

/-- A token that no decorator goes on with from the end of another token. -/
structure Token.EndsDecorators (t : Token) : Prop where
  kind : t.kind = .ident
  text : t.text ≠ "."

/-- Such a token is no line end. -/
theorem Token.EndsDecorators.ne_newline {t : Token} (h : t.EndsDecorators) : t.kind ≠ .newline := by
  rw [h.kind]
  decide

/-- No decorator begins with such a token. -/
theorem Token.EndsDecorators.read?_eq_none {t : Token} (h : t.EndsDecorators) (ts : List Token) :
    Decorator.read? (t :: ts) = none := by
  refine Decorator.read?_eq_none ?_
  rintro u ⟨⟩
  rw [h.kind]
  decide

namespace Decorator

/-- A decorator has two tokens at least. -/
theorem length_read?_add_two_le {d : Decorator} {ts rest : List Token}
    (h : read? ts = some (d, rest)) : rest.length + 2 ≤ ts.length := by
  match ts with
  | [] => simp [read?] at h
  | [t] => simp [read?] at h
  | sign :: name :: ts =>
    by_cases hsign : sign.kind = .atSign ∧ name.kind = .ident ∧ name.span.start = sign.span.stop
    · have hle := length_readDots_le ⟨name.text, sign.span.merge name.span⟩ ts
      rw [read?_of_readDots hsign rfl] at h
      simp only [List.length_cons]
      split at h
      · have := length_readArguments_lt h
        omega
      · obtain ⟨-, rfl⟩ := Prod.mk.inj (Option.some.inj h)
        omega
    · rw [read?, if_neg hsign] at h
      cases h

section Swap

-- Two lists that differ from a token on. Neither of the two tokens belongs to a decorator.
variable {t t' : Token} (ht : t.EndsDecorators) (ht' : t'.EndsDecorators) {more more' : List Token}
include ht ht'

/-- A dotted name that ends in front of such a token ends in front of any other such token. -/
theorem readDots_swap {d d' : Decorator} {front mid : List Token}
    (h : readDots d (front ++ t :: more) = (d', mid ++ t :: more)) :
    readDots d (front ++ t' :: more') = (d', mid ++ t' :: more') := by
  have hstop : ∀ {u : Token} {us : List Token}, u.EndsDecorators →
      ∀ v ∈ (u :: us).head?, v.text ≠ "." := by
    rintro u us hu v ⟨⟩
    exact hu.text
  match front with
  | [] =>
    rw [List.nil_append, readDots_of_head (hstop ht)] at h
    obtain ⟨rfl, hmid⟩ := Prod.mk.inj h
    obtain rfl := List.append_left_eq_self.mp hmid.symm
    exact readDots_of_head (hstop ht') d
  | [dot] =>
    rw [List.singleton_append, readDots] at h
    split at h
    · -- the name behind the dot would be gone
      have hle := length_readDots_le ⟨d.text ++ dot.text ++ t.text,
        (d.span.merge dot.span).merge t.span⟩ more
      rw [h, List.length_append, List.length_cons] at hle
      omega
    · next hdot =>
      obtain ⟨rfl, hmid⟩ := Prod.mk.inj h
      obtain rfl : [dot] = mid := List.append_cancel_right hmid
      rw [List.singleton_append, readDots, if_neg fun hdot' => hdot ⟨hdot'.1, ht.kind⟩]
  | dot :: name :: front =>
    rw [List.cons_append, List.cons_append, readDots] at h ⊢
    split at h
    · next hdot =>
      rw [if_pos hdot]
      exact readDots_swap h
    · next hdot =>
      obtain ⟨rfl, hmid⟩ := Prod.mk.inj h
      obtain rfl : dot :: name :: front = mid := List.append_cancel_right hmid
      rw [if_neg hdot]
      rfl

/-- A decorator that ends in front of such a token ends in front of any other such token. -/
theorem read?_swap {d : Decorator} {front mid : List Token}
    (h : read? (front ++ t :: more) = some (d, mid ++ t :: more)) :
    read? (front ++ t' :: more') = some (d, mid ++ t' :: more') := by
  have hlength := length_read?_add_two_le h
  simp only [List.length_append, List.length_cons] at hlength
  match front with
  | [] =>
    rw [List.length_nil] at hlength
    omega
  | [sign] =>
    rw [List.length_singleton] at hlength
    omega
  | sign :: name :: front =>
    -- a parenthesis does not stand where the lists differ
    have hparen : ∀ mid : List Token, (mid ++ t' :: more').head?.any (·.kind = .openParen) =
        (mid ++ t :: more).head?.any (·.kind = .openParen) := by
      intro mid
      cases mid with
      | nil => simp [ht.kind, ht'.kind]
      | cons u mid => rfl
    by_cases hsign : sign.kind = .atSign ∧ name.kind = .ident ∧ name.span.start = sign.span.stop
    · obtain ⟨⟨d₁, rest⟩, hdots⟩ : ∃ r, readDots ⟨name.text, sign.span.merge name.span⟩
        (front ++ t :: more) = r := ⟨_, rfl⟩
      rw [List.cons_append, List.cons_append, read?_of_readDots hsign hdots] at h
      rw [List.cons_append, List.cons_append]
      split at h
      · next hopen =>
        obtain ⟨args, rfl, hargs⟩ := readArguments_local h
        rw [← List.append_assoc] at hdots hopen
        rw [read?_of_readDots hsign (readDots_swap ht ht' hdots), hparen, if_pos hopen,
          List.append_assoc, hargs]
      · next hopen =>
        obtain ⟨rfl, rfl⟩ := Prod.mk.inj (Option.some.inj h)
        rw [read?_of_readDots hsign (readDots_swap ht ht' hdots), hparen, if_neg hopen]
    · rw [List.cons_append, List.cons_append, read?, if_neg hsign] at h
      cases h

/-- Decorators that end in front of a name end there whatever the name and the tokens behind it. -/
theorem readAll_swap {ds : List Decorator} {front : List Token}
    (h : readAll (front ++ t :: more) = (ds, t :: more)) :
    readAll (front ++ t' :: more') = (ds, t' :: more') := by
  induction hn : front.length using Nat.strongRecOn generalizing front ds with
  | ind n ih =>
    cases hread : read? (front ++ t :: more) with
    | none =>
      rw [readAll_of_none hread] at h
      obtain ⟨rfl, hfront⟩ := Prod.mk.inj h
      obtain rfl := List.append_left_eq_self.mp hfront
      exact readAll_of_none (ht'.read?_eq_none more')
    | some found =>
      obtain ⟨d, rest⟩ := found
      rw [readAll_of_some hread] at h
      obtain ⟨rfl, hrest⟩ := Prod.mk.inj h
      obtain ⟨mid, rfl⟩ : ∃ mid, mid ++ t :: more = rest := by
        have hsuffix := readAll_suffix (skipNewlines rest)
        rw [hrest] at hsuffix
        exact hsuffix.trans (List.dropWhile_suffix _)
      have hlength := length_read?_add_two_le hread
      simp only [List.length_append, List.length_cons] at hlength
      have hlt : (skipNewlines mid).length < n := by
        have := length_skipNewlines_le mid
        omega
      rw [skipNewlines_append_cons ht.ne_newline] at hrest
      rw [readAll_of_some (read?_swap ht ht' hread), skipNewlines_append_cons ht'.ne_newline,
        skipNewlines_append_cons ht.ne_newline, ih _ hlt (Prod.ext rfl hrest) rfl]

end Swap

end Decorator

/-! ## Modifiers and the function keyword -/

namespace Keywords

/-- The tokens spell modifiers and behind them the function keyword. -/
def Spells (k : Keywords) (ms : List Modifier) (ts : List Token) : Prop :=
  ts.map Token.word = ms.map (.modifier k) ++ [.function k]

namespace Spells

variable {k : Keywords} {ms : List Modifier} {lead : List Token}

/-- The tokens are those of the modifiers and one for the keyword. -/
theorem exists_split (h : k.Spells ms lead) : ∃ mods keyword, lead = mods ++ [keyword] ∧
    mods.map Token.word = ms.map (.modifier k) ∧ keyword.word = .function k := by
  obtain ⟨mods, last, rfl, hmods, hlast⟩ := List.map_eq_append_iff.mp h
  obtain ⟨keyword, rfl, hkeyword⟩ := List.map_eq_singleton_iff.mp hlast
  exact ⟨mods, keyword, rfl, hmods, hkeyword⟩

/-- The first token is a name. -/
theorem exists_first (hk : k.Proper) (h : k.Spells ms lead) :
    ∃ first rest, lead = first :: rest ∧ first.EndsDecorators := by
  have hdot : ∀ {w : Word}, w ∈ ms.map (.modifier k) ++ [.function k] →
      w.kind = .ident ∧ w.text ≠ "." := by
    intro w hw
    have hname : w.kind = .ident ∧ Text.isName w.text = true := by
      rcases List.mem_append.mp hw with hw | hw
      · obtain ⟨m, -, rfl⟩ := List.mem_map.mp hw
        exact ⟨rfl, hk.isName_spelling m⟩
      · rw [List.mem_singleton.mp hw]
        exact ⟨rfl, hk.isName_function⟩
    refine ⟨hname.1, fun htext => ?_⟩
    rw [htext] at hname
    exact absurd hname.2 (by decide +kernel)
  cases lead with
  | nil => exact absurd h.symm (by simp)
  | cons first rest =>
    have hmem : first.word ∈ ms.map (.modifier k) ++ [.function k] := by
      rw [← h]
      exact List.mem_map_of_mem List.mem_cons_self
    exact ⟨first, rest, rfl, (hdot hmem).1, (hdot hmem).2⟩

end Spells

end Keywords

/-! ## Headers -/

namespace Header

/-- Read a header from the name of the function on, given what stands in front of the name. -/
def readFrom (stop : Span) (decorators : List Decorator) (modifiers : List Modifier) (lead : Span)
    (ts : List Token) : Except Fault Header := do
  let (name, ts) ← readName stop ts
  let (params, ts) ← readParamList stop ts
  let (returnType, ts) ← readReturnType ts
  let ending ← readHeaderEnd stop ts
  return ⟨decorators, modifiers, lead, name, params, returnType, ending⟩

/-- The header with other modifiers in front of its name. -/
def withLead (h : Header) (modifiers : List Modifier) (lead : Span) : Header :=
  { h with modifiers, lead }

/-- What stands in front of the name has no part in how the rest is read. -/
theorem readFrom_withLead (stop : Span) (ds : List Decorator) (ms ms' : List Modifier)
    (lead lead' : Span) (ts : List Token) :
    readFrom stop ds ms' lead' ts = (readFrom stop ds ms lead ts).map (·.withLead ms' lead') := by
  unfold readFrom
  cases readName stop ts with
  | error fault => rfl
  | ok found =>
    obtain ⟨name, ts⟩ := found
    show (readParamList stop ts >>= _) = Except.map _ (readParamList stop ts >>= _)
    cases readParamList stop ts with
    | error fault => rfl
    | ok found =>
      obtain ⟨params, ts⟩ := found
      show (readReturnType ts >>= _) = Except.map _ (readReturnType ts >>= _)
      cases readReturnType ts with
      | error fault => rfl
      | ok found =>
        obtain ⟨type, ts⟩ := found
        show (readHeaderEnd stop ts >>= _) = Except.map _ (readHeaderEnd stop ts >>= _)
        cases readHeaderEnd stop ts with
        | error fault => rfl
        | ok ending => rfl

/-- The header has the modifiers that were given. -/
theorem modifiers_of_readFrom {stop lead : Span} {ds : List Decorator} {ms : List Modifier}
    {ts : List Token} {h : Header} (hread : readFrom stop ds ms lead ts = .ok h) :
    h.modifiers = ms := by
  rw [readFrom_withLead stop ds ms ms lead lead ts] at hread
  obtain ⟨_, -, rfl⟩ := Except.map_eq_ok_iff.mp hread
  rfl

/-- Behind decorators, modifiers that are spelled out and the function keyword are read. -/
theorem exists_read_eq_readFrom {k : Keywords} (hk : k.Proper) {ms : List Modifier}
    {pre lead tail : List Token} (hlead : k.Spells ms lead) {ds : List Decorator}
    (hds : Decorator.readAll (skipNewlines (pre ++ (lead ++ tail))) = (ds, lead ++ tail)) :
    ∃ span, read (.ofKeywords k) (pre ++ (lead ++ tail)) =
      readFrom (endSpan (pre ++ (lead ++ tail))) ds ms span tail := by
  obtain ⟨mods, keyword, rfl, hmods, hkeyword⟩ := hlead.exists_split
  have hread : readModifiers (Dialect.ofKeywords k).modifiers (mods ++ [keyword] ++ tail) =
      (ms, keyword :: tail) := by
    rw [List.append_assoc]
    exact hk.readModifiers_spelling ms hmods (by rintro t ⟨⟩; exact hkeyword)
  have hfn : (Dialect.ofKeywords k).isFunctionKeyword keyword = true := by
    have hkind : keyword.kind = .ident := congrArg Word.kind hkeyword
    have htext : keyword.text = k.function := congrArg Word.text hkeyword
    simp [Dialect.isFunctionKeyword, Dialect.ofKeywords, Token.isName, hkind, htext]
  obtain ⟨first, rest, hfirst⟩ : ∃ first rest, mods ++ [keyword] ++ tail = first :: rest := by
    cases mods with
    | nil => exact ⟨keyword, tail, rfl⟩
    | cons t mods => exact ⟨t, mods ++ [keyword] ++ tail, rfl⟩
  refine ⟨first.span.merge keyword.span, ?_⟩
  rw [hfirst] at hds hread ⊢
  rw [read, hds]
  simp only [hread, readKeyword, if_pos hfn]
  rfl

/-- Two declarations that differ in the spelling of their modifiers are both headers, which differ in
their modifiers, or are both refused for the same cause. -/
theorem read_respelled {k k' : Keywords} (hk : k.Proper) (hk' : k'.Proper) {ms ms' : List Modifier}
    {pre lead lead' tail : List Token} (hlead : k.Spells ms lead) (hlead' : k'.Spells ms' lead')
    (hpre : (Decorator.readAll (skipNewlines (pre ++ (lead ++ tail)))).2 = lead ++ tail) :
    (∃ h span, read (.ofKeywords k) (pre ++ (lead ++ tail)) = .ok h ∧ h.modifiers = ms ∧
        read (.ofKeywords k') (pre ++ (lead' ++ tail)) = .ok (h.withLead ms' span)) ∨
      ∃ cause span span', read (.ofKeywords k) (pre ++ (lead ++ tail)) = .error ⟨cause, span⟩ ∧
        read (.ofKeywords k') (pre ++ (lead' ++ tail)) = .error ⟨cause, span'⟩ := by
  obtain ⟨ds, hds⟩ : ∃ ds, Decorator.readAll (skipNewlines (pre ++ (lead ++ tail))) =
      (ds, lead ++ tail) := ⟨_, Prod.ext rfl hpre⟩
  have hds' : Decorator.readAll (skipNewlines (pre ++ (lead' ++ tail))) = (ds, lead' ++ tail) := by
    obtain ⟨t, rest, rfl, ht⟩ := hlead.exists_first hk
    obtain ⟨t', rest', rfl, ht'⟩ := hlead'.exists_first hk'
    rw [List.cons_append, skipNewlines_append_cons ht.ne_newline] at hds
    rw [List.cons_append, skipNewlines_append_cons ht'.ne_newline]
    exact Decorator.readAll_swap ht ht' hds
  obtain ⟨span, hread⟩ := exists_read_eq_readFrom hk hlead hds
  obtain ⟨span', hread'⟩ := exists_read_eq_readFrom hk' hlead' hds'
  rw [hread, hread']
  cases htail : tail with
  | nil => exact .inr ⟨.endOfInput, _, _, rfl, rfl⟩
  | cons t rest =>
    -- the place to report where the tokens run out is behind the last token of the tail
    have hstop : ∀ front : List Token, endSpan (pre ++ (front ++ t :: rest)) = endSpan (t :: rest) := by
      intro front
      rw [endSpan, endSpan, ← List.append_assoc, List.getLast?_append_cons]
    rw [hstop, hstop, readFrom_withLead _ ds ms ms' span span']
    cases hfrom : readFrom (endSpan (t :: rest)) ds ms span (t :: rest) with
    | error fault => exact .inr ⟨fault.cause, fault.span, fault.span, rfl, rfl⟩
    | ok h => exact .inl ⟨h, span', rfl, modifiers_of_readFrom hfrom, rfl⟩

end Header

/-! ## Objections -/

/-- The causes are the same, or complain of the same modifiers, each in its own spelling. -/
inductive Cause.Respelled (k k' : Keywords) : Cause → Cause → Prop
  | same (cause : Cause) : Respelled k k' cause cause
  | static : Respelled k k' (.staticOutsideClass k.static) (.staticOutsideClass k'.static)
  | conflicting (m n : Modifier) : Respelled k k'
      (.conflictingModifiers (k.spelling m) (k.spelling n))
      (.conflictingModifiers (k'.spelling m) (k'.spelling n))

/-- The faults have the same cause up to spelling. -/
def Fault.Respelled (k k' : Keywords) (fault fault' : Fault) : Prop :=
  fault.cause.Respelled k k' fault'.cause

/-- The first of some values and the first of some others are related if all are, one by one. -/
theorem findSome?_id_rel {α : Type} {r : α → α → Prop} {xs ys : List (Option α)}
    (h : List.Forall₂ (Option.Rel r) xs ys) :
    Option.Rel r (xs.findSome? id) (ys.findSome? id) := by
  induction h with
  | nil => exact .none
  | cons hxy _ ih =>
    cases hxy with
    | some hr => exact .some hr
    | none => exact ih

/-- Which modifiers there are depends neither on their order nor on how often they come. -/
theorem Flags.ofModifiers_congr {ms ms' : List Modifier} (h : ∀ m, m ∈ ms ↔ m ∈ ms') :
    Flags.ofModifiers ms = Flags.ofModifiers ms' := by
  have hcontains : ∀ m, ms.contains m = ms'.contains m := fun m => by
    rw [Bool.eq_iff_iff, List.contains_iff_mem, List.contains_iff_mem, h]
  simp only [Flags.ofModifiers, hcontains]

namespace Header

variable {h : Header} {ms' : List Modifier} (hflags : Flags.ofModifiers ms' = h.flags) (span : Span)
include hflags

/-- The same modifiers in another order give the same flags. -/
theorem flags_withLead : (h.withLead ms' span).flags = h.flags :=
  hflags

/-- They give the same signature. -/
theorem signature_withLead : (h.withLead ms' span).signature = h.signature := by
  rw [signature, flags_withLead hflags]
  rfl

/-- They are printed alike. -/
theorem pieces_withLead (parent : Scope) : (h.withLead ms' span).pieces parent = h.pieces parent := by
  rw [pieces, flags_withLead hflags]
  rfl

/-- A scope objects to both headers or to none, and for the same cause up to spelling. -/
theorem objection?_withLead (k k' : Keywords) (parent : Scope) :
    Option.Rel (Fault.Respelled k k') (h.objection? k parent)
      ((h.withLead ms' span).objection? k' parent) := by
  have hrefl : ∀ found : Option Fault, Option.Rel (Fault.Respelled k k') found found := by
    intro found
    cases found with
    | none => exact .none
    | some fault => exact .some (.same fault.cause)
  have hstatic : Option.Rel (Fault.Respelled k k') (h.staticOutsideClass? k parent)
      ((h.withLead ms' span).staticOutsideClass? k' parent) := by
    rw [staticOutsideClass?, staticOutsideClass?, flags_withLead hflags]
    split
    · exact .some .static
    · exact .none
  have hpriv : Option.Rel (Fault.Respelled k k') (h.privateStatic? k)
      ((h.withLead ms' span).privateStatic? k') := by
    rw [privateStatic?, privateStatic?, flags_withLead hflags]
    split
    · exact .some (.conflicting .priv .static)
    · exact .none
  have hasync : Option.Rel (Fault.Respelled k k') (h.asyncUnchecked? k)
      ((h.withLead ms' span).asyncUnchecked? k') := by
    rw [asyncUnchecked?, asyncUnchecked?, flags_withLead hflags]
    split
    · exact .some (.conflicting .async .unchecked)
    · exact .none
  have hoperator : (h.withLead ms' span).operatorOutsideClass? parent =
      h.operatorOutsideClass? parent := rfl
  have hbody : (h.withLead ms' span).bodilessGlobal? parent = h.bodilessGlobal? parent := rfl
  have hduplicate : (h.withLead ms' span).duplicate? parent = h.duplicate? parent := by
    rw [duplicate?, flags_withLead hflags]
    rfl
  rw [objection?, objection?, hoperator, hbody, hduplicate]
  exact findSome?_id_rel (.cons (hrefl _) (.cons hstatic (.cons hpriv (.cons hasync
    (.cons (hrefl _) (.cons (hrefl _) .nil))))))

end Header

/-! ## Compiling -/

/-- What is nearest does not depend on the keywords of the tree. -/
theorem Scope.Tree.nearest?_keywords (k k' : Keywords) (scopes : Array Scope) (name : String)
    (id : Scope.Id) :
    nearest? ⟨k', scopes⟩ name id = nearest? ⟨k, scopes⟩ name id := by
  have hget : ∀ id, get ⟨k', scopes⟩ id = get ⟨k, scopes⟩ id := fun _ => rfl
  fun_induction nearest? ⟨k, scopes⟩ name id with
  | case1 id signature hfind => rw [nearest?, hget, hfind]
  | case2 id hfind parent hparent hlt ih =>
    rw [nearest?, hget, hfind, hparent, ← ih]
    exact if_pos hlt
  | case3 id hfind parent hparent hlt =>
    rw [nearest?, hget, hfind, hparent]
    exact if_neg hlt
  | case4 id hfind hparent => rw [nearest?, hget, hfind, hparent]

namespace Compiler

/-- What a function hides does not depend on the keywords of the tree. -/
theorem shadowed?_keywords (k k' : Keywords) (scopes : Array Scope) (parent : Scope) (name : String) :
    shadowed? ⟨k', scopes⟩ parent name = shadowed? ⟨k, scopes⟩ parent name := by
  unfold shadowed?
  cases parent.parent with
  | none => rfl
  | some outer => exact congrArg (Option.map (·.2.span)) (Scope.Tree.nearest?_keywords k k' ..)

/-- The results differ in the modifiers as written. -/
theorem outcome_withLead (k k' : Keywords) {h : Header} {ms' : List Modifier}
    (hflags : Flags.ofModifiers ms' = h.flags) (span : Span) (indent : String)
    (scopes : Array Scope) (parent : Scope) :
    outcome ⟨.ofKeywords k', indent⟩ (h.withLead ms' span) ⟨k', scopes⟩ parent =
      { outcome ⟨.ofKeywords k, indent⟩ h ⟨k, scopes⟩ parent with modifiers := ms' } := by
  have hemit : emit ⟨.ofKeywords k', indent⟩ (h.withLead ms' span) parent =
      emit ⟨.ofKeywords k, indent⟩ h parent := by
    rw [emit, Header.pieces_withLead hflags]
    rfl
  have hshadows := shadowed?_keywords k k' scopes parent h.name.text
  simp only [outcome, hemit, Compiled.mk.injEq, true_and]
  exact ⟨rfl, rfl, rfl, rfl, rfl, rfl, rfl, hshadows⟩

/-- **Only which modifiers there are matters.** Two declarations that differ between their decorators
and their names, where each spells modifiers and the function keyword by keywords of its own, are
compiled to the same if they have the same modifiers in any order and number. Both are accepted, with
results that differ in nothing but the modifiers as written, or both are refused for the same cause up
to spelling; and the scopes are the same afterwards.
Source: `parse`, `from_modifiers`, `recognized_modifiers` and `compile`. -/
theorem compile_respelled {k k' : Keywords} (hk : k.Proper) (hk' : k'.Proper)
    {ms ms' : List Modifier} (hms : ∀ m, m ∈ ms ↔ m ∈ ms') {pre lead lead' tail : List Token}
    (hlead : k.Spells ms lead) (hlead' : k'.Spells ms' lead')
    (hpre : (Decorator.readAll (skipNewlines (pre ++ (lead ++ tail)))).2 = lead ++ tail)
    (indent : String) (scopes : Array Scope) (chain : Chain) :
    let first := (ofTree ⟨k, scopes⟩ indent).compile (pre ++ (lead ++ tail)) ⟨k, scopes⟩ chain
    let second := (ofTree ⟨k', scopes⟩ indent).compile (pre ++ (lead' ++ tail)) ⟨k', scopes⟩ chain
    first.2.scopes = second.2.scopes ∧
      ((∃ r, first.1 = .ok r ∧ r.modifiers = ms ∧ second.1 = .ok { r with modifiers := ms' }) ∨
        ∃ fault fault', first.1 = .error fault ∧ second.1 = .error fault' ∧
          fault.Respelled k k' fault') := by
  intro first second
  let parent := Scope.Tree.get ⟨k, scopes⟩ chain.parent
  rcases Header.read_respelled hk hk' hlead hlead' hpre with
    ⟨h, span, hread, hmods, hread'⟩ | ⟨cause, span, span', hread, hread'⟩
  · have hflags : Flags.ofModifiers ms' = h.flags := by
      rw [Header.flags, hmods, Flags.ofModifiers_congr hms]
    -- either both spellings meet with an objection or neither does
    have hobjection := Header.objection?_withLead hflags span k k' parent
    generalize hfound : h.objection? k parent = found at hobjection
    generalize hfound' : (h.withLead ms' span).objection? k' parent = found' at hobjection
    cases hobjection with
    | @some fault fault' hfault =>
      have hfirst : first = (.error fault, ⟨k, scopes⟩) := compile_of_objection hread hfound
      have hsecond : second = (.error fault', ⟨k', scopes⟩) := compile_of_objection hread' hfound'
      rw [hfirst, hsecond]
      exact ⟨rfl, .inr ⟨fault, fault', rfl, rfl, hfault⟩⟩
    | none =>
      let r := outcome ⟨.ofKeywords k, indent⟩ h ⟨k, scopes⟩ parent
      have hfirst : first = (.ok r, register ⟨k, scopes⟩ chain h.name.text h.signature) :=
        compile_of_no_objection hread hfound
      have hsecond : second = (.ok { r with modifiers := ms' },
          register ⟨k', scopes⟩ chain h.name.text h.signature) := by
        rw [← outcome_withLead k k' hflags span, ← Header.signature_withLead hflags span]
        exact compile_of_no_objection hread' hfound'
      rw [hfirst, hsecond]
      exact ⟨rfl, .inl ⟨r, rfl, hmods, rfl⟩⟩
  · have hfirst : first = (.error ⟨cause, span⟩, ⟨k, scopes⟩) := compile_of_error hread
    have hsecond : second = (.error ⟨cause, span'⟩, ⟨k', scopes⟩) := compile_of_error hread'
    rw [hfirst, hsecond]
    exact ⟨rfl, .inr ⟨_, _, rfl, rfl, .same cause⟩⟩

/-- A static and final method in the usual spelling, and the same with other keywords, in another order
and with one of them twice. Both are accepted in a class, and in a file both are refused. -/
theorem compile_respelled_of_method :
    let k : Keywords := { function := "def", final := "sealed", static := "shared" }
    -- a line end and `@memo` on a line
    let pre : List Token := [⟨.newline, "\n", ⟨0, 1⟩⟩, ⟨.atSign, "@", ⟨1, 2⟩⟩,
      ⟨.ident, "memo", ⟨2, 6⟩⟩, ⟨.newline, "\n", ⟨6, 7⟩⟩]
    let usual : List Token := [⟨.ident, "static", ⟨7, 13⟩⟩, ⟨.ident, "final", ⟨14, 19⟩⟩,
      ⟨.ident, "fn", ⟨20, 22⟩⟩]
    let other : List Token := [⟨.ident, "sealed", ⟨7, 13⟩⟩, ⟨.ident, "shared", ⟨14, 20⟩⟩,
      ⟨.ident, "sealed", ⟨21, 27⟩⟩, ⟨.ident, "def", ⟨28, 31⟩⟩]
    -- `of() {`
    let tail : List Token := [⟨.ident, "of", ⟨40, 42⟩⟩, ⟨.openParen, "(", ⟨42, 43⟩⟩,
      ⟨.closeParen, ")", ⟨43, 44⟩⟩, ⟨.openBrace, "\x7b", ⟨45, 46⟩⟩]
    let scopes : Array Scope := ((Scope.Tree.new "v" {}).nest 0 .classType "V").scopes
    let r : Compiled := ⟨"of", ⟨40, 42⟩, "    @memo\n    @final\n    static def of():", ⟨[]⟩, none,
      [.static, .final], [⟨"memo", ⟨1, 6⟩⟩], .body, none⟩
    let first (chain : Chain) := (ofTree ⟨{}, scopes⟩ "    ").compile (pre ++ (usual ++ tail))
      ⟨{}, scopes⟩ chain
    let second (chain : Chain) := (ofTree ⟨k, scopes⟩ "    ").compile (pre ++ (other ++ tail))
      ⟨k, scopes⟩ chain
    ({} : Keywords).Proper ∧ k.Proper ∧ Keywords.Spells {} [.static, .final] usual ∧
      k.Spells [.final, .static, .final] other ∧
      (Decorator.readAll (skipNewlines (pre ++ (usual ++ tail)))).2 = usual ++ tail ∧
      (first ⟨1, 1, 0⟩).1 = .ok r ∧
      (second ⟨1, 1, 0⟩).1 = .ok { r with modifiers := [.final, .static, .final] } ∧
      (first ⟨1, 1, 0⟩).2.scopes = (second ⟨1, 1, 0⟩).2.scopes ∧
      (first ⟨1, 0, 0⟩).1 = .error ⟨.staticOutsideClass "static", ⟨7, 22⟩⟩ ∧
      ∃ fault, (second ⟨1, 0, 0⟩).1 = .error fault ∧
        Cause.Respelled {} k (.staticOutsideClass "static") fault.cause := by
  intro k pre usual other tail scopes r first second
  have hk : k.Proper := {
    isName_function := by decide +kernel
    isName_spelling := fun m => by cases m <;> decide +kernel
    spelling_ne_function := fun m => by cases m <;> decide
    spelling_injective := fun m m' => by cases m <;> cases m' <;> decide }
  have hms : ∀ m : Modifier, m ∈ [.static, .final] ↔ m ∈ [.final, .static, .final] := fun m => by
    cases m <;> decide
  have husual : Keywords.Spells {} [.static, .final] usual := rfl
  have hother : k.Spells [.final, .static, .final] other := rfl
  have hpre : (Decorator.readAll (skipNewlines (pre ++ (usual ++ tail)))).2 = usual ++ tail := by
    decide +kernel
  have haccepted : (first ⟨1, 1, 0⟩).1 = .ok r := by decide +kernel
  have hrefused : (first ⟨1, 0, 0⟩).1 = .error ⟨.staticOutsideClass "static", ⟨7, 22⟩⟩ := by
    decide +kernel
  obtain ⟨hscopes, hclass⟩ :=
    compile_respelled Keywords.proper_usual hk hms husual hother hpre "    " scopes ⟨1, 1, 0⟩
  obtain ⟨-, hfile⟩ :=
    compile_respelled Keywords.proper_usual hk hms husual hother hpre "    " scopes ⟨1, 0, 0⟩
  refine ⟨Keywords.proper_usual, hk, husual, hother, hpre, haccepted, ?_, hscopes, hrefused, ?_⟩
  · rcases hclass with ⟨r', hr', -, hsecond⟩ | ⟨fault, -, hfault, -⟩
    · obtain rfl := Except.ok.inj (haccepted.symm.trans hr')
      exact hsecond
    · exact absurd (haccepted.symm.trans hfault) (by simp)
  · rcases hfile with ⟨r', hr', -⟩ | ⟨fault, fault', hfault, hfault', hcause⟩
    · exact absurd (hrefused.symm.trans hr') (by simp)
    · obtain rfl := Except.error.inj (hrefused.symm.trans hfault)
      exact ⟨fault', hfault', hcause⟩

end Compiler

end FuncDecl
