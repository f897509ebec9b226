import FuncDecl.Proofs.Declaration.RoundTrip
import FuncDecl.Proofs.Source.Chunks

/-!
# Printed declarations are units

Wherever the tokens of a printed declaration stand in a source, they are cut out as one chunk. What
stands in its parentheses is not looked at; outside of them there is neither a mark that ends a
declaration nor a line end, except behind a decorator, where the next line goes on with the
declaration.

* `Keeps ts`: inside parentheses the tokens lead back to the depth they begin at, and never outside.
  So do phrases and lists of parameters (`Phrase.keeps`, `Param.keeps_all`).
* `Word.isFlat`: words that are no bracket and do not end a declaration or a line, such as those of
  types (`TypeExpr.isFlat_words`).
* `Dialect.Crosses keyword ts`: outside parentheses the walk passes the tokens and is outside again
  behind them. What stands in parentheses does not matter (`Dialect.Crosses.enclosed`).
* `Decoration.crosses` and `Declaration.exists_crosses`: the walk crosses a decorator, and a header
  up to its mark.
* `Declaration.chunks_printed`: **a printed declaration is one chunk**, whatever follows it.
-/

namespace FuncDecl

/-! ## Inside parentheses -/

/-- Counted from a depth, no token brings the depth of parentheses and brackets to zero. -/
def StaysInside (depth : Nat) : List Token → Prop
  | [] => True
  | t :: ts => t.kind.roundDepth depth ≠ 0 ∧ StaysInside (t.kind.roundDepth depth) ts

/-- Two rows of tokens stay inside one after the other. -/
theorem staysInside_append {depth : Nat} {ts us : List Token} :
    StaysInside depth (ts ++ us) ↔
      StaysInside depth ts ∧ StaysInside (roundDepthAfter depth ts) us := by
  induction ts generalizing depth with
  | nil => simp [StaysInside]
  | cons t ts ih => rw [List.cons_append, StaysInside, StaysInside, ih, roundDepthAfter_cons, and_assoc]

/-- Inside parentheses the tokens lead back to the depth they begin at, and never outside. -/
structure Keeps (ts : List Token) : Prop where
  inside : ∀ depth, StaysInside (depth + 1) ts
  depth : ∀ depth, roundDepthAfter (depth + 1) ts = depth + 1

namespace Keeps

/-- No tokens keep the depth. -/
theorem nil : Keeps [] :=
  ⟨fun _ => trivial, fun _ => rfl⟩

/-- Two rows that keep the depth keep it together. -/
theorem append {ts us : List Token} (h : Keeps ts) (h' : Keeps us) : Keeps (ts ++ us) where
  inside depth := by
    rw [staysInside_append, h.depth]
    exact ⟨h.inside depth, h'.inside depth⟩
  depth depth := by rw [roundDepthAfter_append, h.depth, h'.depth]

/-- A token that is no bracket keeps the depth. -/
theorem cons {t : Token} (ht : ∀ depth, t.kind.roundDepth depth = depth) {ts : List Token}
    (h : Keeps ts) : Keeps (t :: ts) where
  inside depth := by
    rw [StaysInside, ht]
    exact ⟨Nat.succ_ne_zero depth, h.inside depth⟩
  depth depth := by rw [roundDepthAfter_cons, ht, h.depth]

/-- A pair of brackets around tokens that keep the depth keeps it. -/
theorem enclosed {opening closing : Token}
    (ho : ∀ depth, opening.kind.roundDepth depth = depth + 1)
    (hc : ∀ depth, closing.kind.roundDepth (depth + 1) = depth) {ts : List Token} (h : Keeps ts) :
    Keeps (opening :: (ts ++ [closing])) where
  inside depth := by
    rw [StaysInside, ho, staysInside_append, h.depth, StaysInside, hc]
    exact ⟨Nat.succ_ne_zero _, h.inside _, Nat.succ_ne_zero depth, trivial⟩
  depth depth := by
    rw [roundDepthAfter_cons, ho, roundDepthAfter_append, h.depth, roundDepthAfter_cons, hc]
    rfl

end Keeps

/-- An atom does not change the depth. -/
theorem Atom.roundDepth_word (a : Atom) (depth : Nat) : a.word.kind.roundDepth depth = depth := by
  rcases a.kind_word with h | h | h <;> rw [h] <;> rfl

/-- A phrase keeps the depth. By induction on the phrase. -/
theorem Phrase.keeps (p : Phrase) {ts : List Token} (h : ts.map Token.word = p.words) :
    Keeps ts := by
  induction p generalizing ts with
  | nil =>
    obtain rfl := List.map_eq_nil_iff.mp h
    exact .nil
  | atom a more ih =>
    rw [words] at h
    obtain ⟨sa, us, rfl, hus⟩ := Token.exists_cons_of_words h
    exact .cons a.roundDepth_word (ih hus)
  | comma more ih =>
    rw [words] at h
    obtain ⟨sc, us, rfl, hus⟩ := Token.exists_cons_of_words h
    exact .cons (fun _ => rfl) (ih hus)
  | group b inside more ihin ih =>
    rw [words] at h
    obtain ⟨so, us, rfl, hus⟩ := Token.exists_cons_of_words h
    obtain ⟨front, back, rfl, hfront, hback⟩ := List.map_eq_append_iff.mp hus
    obtain ⟨sc, vs, rfl, hvs⟩ := Token.exists_cons_of_words hback
    rw [show b.opening.at so :: (front ++ b.closing.at sc :: vs) =
      (b.opening.at so :: (front ++ [b.closing.at sc])) ++ vs by simp]
    refine Keeps.append ?_ (ih hvs)
    cases b with
    | round => exact .enclosed (fun _ => rfl) (fun _ => rfl) (ihin hfront)
    | square => exact .enclosed (fun _ => rfl) (fun _ => rfl) (ihin hfront)
    | curly =>
      -- braces are not counted
      exact .cons (fun _ => rfl) (.append (ihin hfront) (.cons (fun _ => rfl) .nil))

/-- Words that are no bracket and do not end a declaration or a line. -/
def Word.isFlat (w : Word) : Bool :=
  !w.kind.opensGroup && !w.kind.closesGroup && !w.kind.endsDeclaration && w.kind != .newline

/-- A flat word does not change the depth. -/
theorem Word.roundDepth_of_isFlat {w : Word} (h : w.isFlat = true) (depth : Nat) :
    w.kind.roundDepth depth = depth := by
  simp only [isFlat, Bool.and_eq_true, Bool.not_eq_true'] at h
  obtain ⟨⟨⟨hopen, hclose⟩, -⟩, -⟩ := h
  exact Token.Kind.roundDepth_of_plain hopen hclose depth

/-- Flat words keep the depth. -/
theorem Keeps.of_flat {ts : List Token} (h : ∀ w ∈ ts.map Token.word, w.isFlat = true) :
    Keeps ts := by
  induction ts with
  | nil => exact .nil
  | cons t ts ih =>
    rw [List.map_cons, List.forall_mem_cons] at h
    exact .cons (Word.roundDepth_of_isFlat h.1) (ih h.2)

mutual

/-- The words of a type are flat. By induction on the type and on its arguments. -/
theorem TypeExpr.isFlat_words (t : TypeExpr) : ∀ w ∈ t.words, w.isFlat = true := by
  cases t with
  | name n => exact List.forall_mem_singleton.mpr rfl
  | apply n args =>
    rw [TypeExpr.words, List.forall_mem_cons, List.forall_mem_cons, List.forall_mem_append,
      List.forall_mem_singleton]
    exact ⟨rfl, rfl, args.isFlat_words, rfl⟩

/-- So are those of the arguments of a type. -/
theorem TypeArgs.isFlat_words (args : TypeArgs) : ∀ w ∈ args.words, w.isFlat = true := by
  cases args with
  | last t =>
    rw [TypeArgs.words]
    exact t.isFlat_words
  | cons t args =>
    rw [TypeArgs.words, List.forall_mem_append, List.forall_mem_cons]
    exact ⟨t.isFlat_words, rfl, args.isFlat_words⟩

end

/-- A parameter keeps the depth. -/
theorem Param.keeps (p : Param) {ts : List Token} (h : ts.map Token.word = p.words) : Keeps ts := by
  cases p with
  | receiver n hn =>
    refine .of_flat ?_
    rw [h, words, List.forall_mem_singleton]
    rfl
  | presetReceiver n hn v hv =>
    rw [words] at h
    obtain ⟨sn, us, rfl, hus⟩ := Token.exists_cons_of_words h
    obtain ⟨se, xs, rfl, hxs⟩ := Token.exists_cons_of_words hus
    exact .cons (fun _ => rfl) (.cons (fun _ => rfl) (v.keeps hxs))
  | typed n t ht =>
    refine .of_flat ?_
    rw [h, words, List.forall_mem_cons, List.forall_mem_cons]
    exact ⟨rfl, rfl, t.isFlat_words⟩
  | preset n t ht v hv =>
    rw [words] at h
    obtain ⟨sn, us, rfl, hus⟩ := Token.exists_cons_of_words h
    obtain ⟨sc, vs, rfl, hvs⟩ := Token.exists_cons_of_words hus
    obtain ⟨front, back, rfl, hfront, hback⟩ := List.map_eq_append_iff.mp hvs
    obtain ⟨se, xs, rfl, hxs⟩ := Token.exists_cons_of_words hback
    have htype : Keeps front := .of_flat (by rw [hfront]; exact t.isFlat_words)
    exact .cons (fun _ => rfl) (.cons (fun _ => rfl) (htype.append (.cons (fun _ => rfl)
      (v.keeps hxs))))

/-- A list of parameters keeps the depth. By induction on the parameters. -/
theorem Param.keeps_all (ps : List Param) {ts : List Token} (h : ts.map Token.word = allWords ps) :
    Keeps ts := by
  fun_induction allWords ps generalizing ts with
  | case1 =>
    obtain rfl := List.map_eq_nil_iff.mp h
    exact .nil
  | case2 p => exact p.keeps h
  | case3 p q ps ih =>
    obtain ⟨front, back, rfl, hfront, hback⟩ := List.map_eq_append_iff.mp h
    obtain ⟨sc, us, rfl, hus⟩ := Token.exists_cons_of_words hback
    exact (p.keeps hfront).append (.cons (fun _ => rfl) (ih hus))

/-! ## Outside parentheses -/

namespace Dialect

variable (d : Dialect)

/-- The walk passes everything that stays inside. -/
theorem passes_of_staysInside {depth : Nat} (hdepth : depth ≠ 0) {ts : List Token}
    (h : StaysInside depth ts) (keyword : Bool) (rest : List Token) :
    d.Passes depth keyword ts rest := by
  induction ts generalizing depth keyword with
  | nil => exact d.passes_nil _ _ _
  | cons t ts ih =>
    rw [passes_cons_iff]
    exact ⟨fun h0 => absurd h0 hdepth, ih h.1 h.2 _⟩

/-- No keyword is outside in what stays inside. -/
theorem keywordOutside_of_staysInside {depth : Nat} (hdepth : depth ≠ 0) {ts : List Token}
    (h : StaysInside depth ts) : d.keywordOutside depth ts = false := by
  induction ts generalizing depth with
  | nil => rfl
  | cons t ts ih =>
    rw [keywordOutside_cons, ih h.1 h.2]
    simp [hdepth]

/-- Outside parentheses the walk passes the tokens, whatever surrounds them, and is outside again
behind them. -/
structure Crosses (keyword : Bool) (ts : List Token) : Prop where
  passes : ∀ met rest, d.Passes 0 met ts rest
  depth : roundDepthAfter 0 ts = 0
  /-- Whether the function keyword is among them. -/
  keyword : d.keywordOutside 0 ts = keyword

namespace Crosses

variable {d}

/-- The walk crosses no tokens. -/
theorem nil : d.Crosses false [] :=
  ⟨fun _ _ => d.passes_nil _ _ _, rfl, rfl⟩

/-- The walk crosses two rows one after the other, and meets the keyword in one of them. -/
theorem append {k k' : Bool} {ts us : List Token} (h : d.Crosses k ts) (h' : d.Crosses k' us) :
    d.Crosses (k || k') (ts ++ us) where
  passes met rest := by
    rw [passes_append_iff, h.depth]
    exact ⟨h.passes _ _, h'.passes _ _⟩
  depth := by rw [roundDepthAfter_append, h.depth, h'.depth]
  keyword := by rw [keywordOutside_append, h.depth, h.keyword, h'.keyword]

/-- The walk crosses a flat word. -/
theorem of_flat {t : Token} (h : t.word.isFlat = true) :
    d.Crosses (d.isFunctionKeyword t) [t] := by
  have hdepth : t.kind.roundDepth 0 = 0 := Word.roundDepth_of_isFlat h 0
  have hkind : t.kind.endsDeclaration = false ∧ t.kind ≠ .newline := by
    simp only [Word.isFlat, Bool.and_eq_true, Bool.not_eq_true', bne_iff_ne] at h
    exact ⟨h.1.2, h.2⟩
  refine ⟨fun met rest => ?_, hdepth, ?_⟩
  · rw [passes_cons_iff]
    exact ⟨fun _ => ⟨hkind.1, fun hn => absurd hn hkind.2⟩, d.passes_nil _ _ _⟩
  · rw [keywordOutside_cons]
    simp

/-- The walk crosses flat words in a row. -/
theorem of_flat_list {ts : List Token} (h : ∀ w ∈ ts.map Token.word, w.isFlat = true) :
    d.Crosses (ts.any d.isFunctionKeyword) ts := by
  induction ts with
  | nil => exact nil
  | cons t ts ih =>
    rw [List.map_cons, List.forall_mem_cons] at h
    exact (of_flat h.1).append (ih h.2)

/-- What stands in parentheses does not matter. -/
theorem enclosed {opening closing : Token} (ho : opening.kind = .openParen)
    (hc : closing.kind = .closeParen) {ts : List Token} (h : Keeps ts) :
    d.Crosses false (opening :: (ts ++ [closing])) where
  passes met rest := by
    rw [passes_cons_iff, passes_append_iff, ho]
    refine ⟨fun _ => ⟨rfl, by simp⟩, d.passes_of_staysInside Nat.one_ne_zero (h.inside 0) _ _, ?_⟩
    rw [show roundDepthAfter (Token.Kind.roundDepth 0 .openParen) ts = 1 from h.depth 0,
      passes_cons_iff]
    exact ⟨fun h0 => absurd h0 Nat.one_ne_zero, d.passes_nil _ _ _⟩
  depth := by
    rw [roundDepthAfter_cons, ho, roundDepthAfter_append,
      show roundDepthAfter (Token.Kind.roundDepth 0 .openParen) ts = 1 from h.depth 0,
      roundDepthAfter_cons, hc]
    rfl
  keyword := by
    have hopening : d.isFunctionKeyword opening = false := by
      simp [isFunctionKeyword, Token.isName, ho]
    rw [keywordOutside_cons, hopening, ho, keywordOutside_append,
      show d.keywordOutside (Token.Kind.roundDepth 0 .openParen) ts = false from
        d.keywordOutside_of_staysInside Nat.one_ne_zero (h.inside 0),
      show roundDepthAfter (Token.Kind.roundDepth 0 .openParen) ts = 1 from h.depth 0]
    simp [keywordOutside_cons]

end Crosses

/-- A token is the function keyword exactly if it spells it. -/
theorem isFunctionKeyword_iff {k : Keywords} {t : Token} :
    (ofKeywords k).isFunctionKeyword t = true ↔ t.word = .function k := by
  simp [isFunctionKeyword, ofKeywords, Token.isName, Token.word, Word.function]

/-- The walk crosses flat words other than the keyword without meeting it. -/
theorem Crosses.of_words {k : Keywords} {ts : List Token}
    (h : ∀ w ∈ ts.map Token.word, w.isFlat = true ∧ w ≠ .function k) :
    (ofKeywords k).Crosses false ts := by
  have hnone : ts.any (ofKeywords k).isFunctionKeyword = false := by
    rw [List.any_eq_false]
    intro t ht hkeyword
    exact (h _ (List.mem_map_of_mem ht)).2 (isFunctionKeyword_iff.mp hkeyword)
  rw [← hnone]
  exact .of_flat_list fun w hw => (h w hw).1

end Dialect

/-! ## Decorators -/

/-- The name of the decorator does not contain the given word. -/
def Decoration.Avoids (x : Decoration) (keyword : String) : Prop :=
  x.head.text ≠ keyword ∧ ∀ n ∈ x.tail, n.text ≠ keyword

instance (x : Decoration) (keyword : String) : Decidable (x.Avoids keyword) :=
  inferInstanceAs (Decidable (_ ∧ _))

/-- The walk crosses a decorator. -/
theorem Decoration.crosses {k : Keywords} {x : Decoration} (h : x.Avoids k.function)
    (offset : Nat) : (Dialect.ofKeywords k).Crosses false (x.layout.place offset) := by
  have hwords : (x.layout.place offset).map Token.word =
      (.atSign :: x.head.word :: x.tail.flatMap fun n => [.dot, n.word]) ++
        ((x.args.map Phrase.enclosed).getD []).words := by
    rw [Layout.word_place, layout, bare, Layout.words_cons, Layout.words_cons, Layout.words_append,
      Layout.words, List.map_flatMap]
    rfl
  obtain ⟨name, args, hsplit, hname, hargs⟩ := List.map_eq_append_iff.mp hwords
  rw [hsplit]
  refine Dialect.Crosses.append (k := false) (.of_words ?_) ?_
  · rw [hname, List.forall_mem_cons, List.forall_mem_cons]
    refine ⟨⟨rfl, by simp [Word.atSign, Word.function]⟩,
      ⟨rfl, by simp [Name.word, Word.function, h.1]⟩, fun w hw => ?_⟩
    obtain ⟨n, hn, hw⟩ := List.mem_flatMap.mp hw
    rcases List.mem_pair.mp hw with rfl | rfl
    · exact ⟨rfl, by simp [Word.dot, Word.function]⟩
    · exact ⟨rfl, by simp [Name.word, Word.function, h.2 n hn]⟩
  · cases hx : x.args with
    | none =>
      rw [hx] at hargs
      obtain rfl := List.map_eq_nil_iff.mp hargs
      exact .nil
    | some v =>
      rw [hx] at hargs
      rw [Option.map_some, Option.getD_some, Phrase.enclosed, Layout.words_joined] at hargs
      obtain ⟨so, us, rfl, hus⟩ := Token.exists_cons_of_words hargs
      obtain ⟨inside, back, rfl, hinside, hback⟩ := List.map_eq_append_iff.mp hus
      obtain ⟨sc, vs, rfl, hvs⟩ := Token.exists_cons_of_words hback
      obtain rfl := List.map_eq_nil_iff.mp hvs
      exact .enclosed rfl rfl (v.keeps hinside)

/-! ## Headers -/

/-- The walk crosses a printed header up to its mark and meets the keyword. -/
theorem Declaration.exists_crosses (d : Declaration) {k : Keywords} (hk : k.Proper)
    {ending : HeaderEnd} {head : List Token} (h : head.map Token.word = d.words k ending) :
    ∃ front mark, head = front ++ [mark] ∧ mark.word = ending.word ∧
      (Dialect.ofKeywords k).Crosses true front := by
  obtain ⟨mods, sk, sn, so, params, sc, returns, se, rfl, hmods, hparams, hreturns⟩ :=
    d.exists_split h
  refine ⟨mods ++ ([(Word.function k).at sk] ++ ([d.name.word.at sn] ++
    ((Word.openParen.at so :: (params ++ [Word.closeParen.at sc])) ++ returns))),
    ending.word.at se, by simp, rfl, ?_⟩
  have hmods' : (Dialect.ofKeywords k).Crosses false mods := by
    refine .of_words ?_
    rw [hmods]
    intro w hw
    obtain ⟨m, -, rfl⟩ := List.mem_map.mp hw
    exact ⟨rfl, by simp [Word.modifier, Word.function, hk.spelling_ne_function m]⟩
  have hkeyword : (Dialect.ofKeywords k).Crosses true [(Word.function k).at sk] := by
    rw [← Dialect.isFunctionKeyword_iff.mpr (show ((Word.function k).at sk).word = _ from rfl)]
    exact .of_flat rfl
  have hname : d.name.word.isFlat = true := by
    cases d.name with
    | name n => rfl
    | operator glyph method hop =>
      show Word.isFlat ⟨FunctionWord.glyphKind glyph, glyph⟩ = true
      unfold FunctionWord.glyphKind
      split_ifs <;> rfl
  have hreturns' : ∀ w ∈ returns.map Token.word, w.isFlat = true := by
    rw [hreturns, returnWords]
    cases d.returnType with
    | none => simp
    | some t => exact List.forall_mem_cons.mpr ⟨rfl, t.isFlat_words⟩
  have hparens : (Dialect.ofKeywords k).Crosses false
      (Word.openParen.at so :: (params ++ [Word.closeParen.at sc])) :=
    .enclosed rfl rfl (Param.keeps_all d.params hparams)
  have hname' := Dialect.Crosses.of_flat (d := .ofKeywords k) (t := d.name.word.at sn) hname
  simpa using hmods'.append (hkeyword.append (hname'.append (hparens.append
    (.of_flat_list hreturns'))))

/-- A printed header begins a declaration. -/
theorem Declaration.headerFront (d : Declaration) {k : Keywords} (hk : k.Proper)
    {ending : HeaderEnd} {head : List Token} (h : head.map Token.word = d.words k ending)
    (more : List Token) : (Dialect.ofKeywords k).HeaderFront (head ++ more) := by
  obtain ⟨mods, sk, sn, so, params, sc, returns, se, rfl, hmods, -, -⟩ := d.exists_split h
  have hmods' : ∀ t ∈ mods, (Dialect.ofKeywords k).isModifier t = true := by
    intro t ht
    have hmem := List.mem_map_of_mem (f := Token.word) ht
    rw [hmods] at hmem
    obtain ⟨m, -, hm⟩ := List.mem_map.mp hmem
    have hkind : t.kind = .ident := congrArg Word.kind hm.symm
    have htext : t.text = k.spelling m := congrArg Word.text hm.symm
    rw [Dialect.isModifier, hkind, htext]
    simp [Dialect.ofKeywords, Table.contains, hk.find?_spelling m]
  have hkeyword : (Dialect.ofKeywords k).isModifier ((Word.function k).at sk) = false := by
    simp [Dialect.isModifier, Dialect.ofKeywords, Table.contains, Word.at, Word.function,
      hk.find?_function]
  refine ⟨(Word.function k).at sk, ?_, Dialect.isFunctionKeyword_iff.mpr rfl⟩
  rw [List.append_assoc, List.dropWhile_append_of_pos hmods', List.cons_append,
    List.dropWhile_cons_of_neg (by simp [hkeyword])]
  rfl

/-! ## The whole declaration -/

/-- Decorators with a header behind them begin a declaration. -/
theorem Decoration.Printed.opensDeclaration {k : Keywords} {xs : List Decoration}
    {lines : List Token} (h : Printed xs lines) {rest : List Token}
    (hrest : (Dialect.ofKeywords k).HeaderFront rest) :
    (Dialect.ofKeywords k).opensDeclaration (lines ++ rest) = true := by
  cases h with
  | nil => exact hrest.opensDeclaration
  | cons offset hnewline htail => exact (Dialect.opensDeclaration_iff _).mpr (.inl rfl)

/-- The walk passes the lines of decorators in front of a header. -/
theorem Decoration.Printed.passes {k : Keywords} {xs : List Decoration} {lines : List Token}
    (h : Printed xs lines) (havoid : ∀ x ∈ xs, x.Avoids k.function) {rest : List Token}
    (hrest : (Dialect.ofKeywords k).HeaderFront rest) :
    (Dialect.ofKeywords k).Passes 0 false lines rest ∧ roundDepthAfter 0 lines = 0 ∧
      (Dialect.ofKeywords k).keywordOutside 0 lines = false := by
  induction h with
  | nil => exact ⟨Dialect.passes_nil _ _ _ _, rfl, rfl⟩
  | cons offset hnewline htail ih =>
    next x xs lines newline =>
    rw [List.forall_mem_cons] at havoid
    obtain ⟨hpass, hdepth, hkeyword⟩ := ih havoid.2
    have hcross := Decoration.crosses havoid.1 offset
    have hkind : newline.kind = .newline := congrArg Word.kind hnewline
    refine ⟨?_, ?_, ?_⟩
    · rw [Dialect.passes_append_iff, hcross.depth, hcross.keyword, Dialect.passes_cons_iff,
        roundDepth_of_newline hkind, Dialect.isFunctionKeyword, Token.isName, hkind]
      -- behind the line end the next decorator or the header goes on with the declaration
      exact ⟨hcross.passes _ _, fun _ => ⟨rfl, fun _ =>
        Dialect.continues_of_opensDeclaration _ hkind (htail.opensDeclaration hrest)⟩, hpass⟩
    · rw [roundDepthAfter_append, hcross.depth, roundDepthAfter_cons, roundDepth_of_newline hkind,
        hdepth]
    · rw [Dialect.keywordOutside_append, hcross.depth, hcross.keyword, Dialect.keywordOutside_cons,
        roundDepth_of_newline hkind, hkeyword]
      simp [Dialect.isFunctionKeyword, Token.isName, hkind]

/-- **A printed declaration is one chunk**, whatever follows it. -/
theorem Declaration.chunks_printed (d : Declaration) {k : Keywords} (hk : k.Proper)
    (havoid : ∀ x ∈ d.decorations, x.Avoids k.function) {ending : HeaderEnd}
    {lines head : List Token} (hlines : Decoration.Printed d.decorations lines)
    (hhead : head.map Token.word = d.words k ending) (more : List Token) :
    (Dialect.ofKeywords k).chunks (lines ++ head ++ more) =
      .declaration (lines ++ head) :: (Dialect.ofKeywords k).chunks more := by
  obtain ⟨front, mark, rfl, hmark, hcross⟩ := d.exists_crosses hk hhead
  have hfront := d.headerFront hk hhead more
  obtain ⟨hpass, hdepth, hkeyword⟩ := hlines.passes havoid hfront
  have hopens : (Dialect.ofKeywords k).opensDeclaration (lines ++ (front ++ [mark]) ++ more) = true := by
    rw [List.append_assoc]
    exact hlines.opensDeclaration hfront
  have hpasses : (Dialect.ofKeywords k).Passes 0 false (lines ++ front) (mark :: more) := by
    rw [Dialect.passes_append_iff, hdepth]
    refine ⟨?_, hcross.passes _ _⟩
    simpa using hpass
  have hends : mark.kind.endsDeclaration = true := by
    rw [show mark.kind = ending.word.kind from congrArg Word.kind hmark]
    cases ending <;> rfl
  have hextent : (Dialect.ofKeywords k).extent 0 false (lines ++ (front ++ [mark]) ++ more) =
      ((lines ++ (front ++ [mark])).length, true) := by
    rw [show lines ++ (front ++ [mark]) ++ more = lines ++ front ++ mark :: more by simp,
      Dialect.extent_append_of_passes _ hpasses, roundDepthAfter_append, hdepth, hcross.depth,
      Dialect.keywordOutside_append, hdepth, hkeyword, hcross.keyword, Dialect.extent,
      if_pos ⟨rfl, hends⟩]
    simp [Nat.add_assoc]
  exact Dialect.chunks_unit _ (by simp) (Dialect.kind_of_opensDeclaration _ hopens) hopens hextent

end FuncDecl
