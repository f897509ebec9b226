import FuncDecl.Proofs.Declaration.Arrangement
import FuncDecl.Proofs.Declaration.TypeTexts
import FuncDecl.Proofs.Declaration.Unbalanced

/-!
# Parameters in any arrangement

The words of a list of parameters may be arranged in any way that keeps names and numbers apart,
with one exception: an equals sign that is glued to the type in front of it.

* `Param.isChain_allWords` and `Param.listed_allWords`: the words of parameters are such as an
  arrangement is made of.
* `AnglesPair`: the brackets of the tokens pair, as they do in types, phrases and parameters
  (`TypeExpr.anglesPair`, `Phrase.anglesPair`, `Param.anglesPair_all`).
* `wordDepth`: how many more angle brackets words open than they close. A glued equals sign takes a
  bracket away, so the depth is nowhere less than it was (`Arrangement.exists_wordDepth_le`).
* `Param.exists_run_of_glues`: a glued equals sign leaves the bracket of its type open.
* `Param.readParams_arranged`: **parameters are read in every arrangement of their words**, unless
  an equals sign is glued to a type. Then the list fails at the next parenthesis.
-/

namespace FuncDecl

/-! ## Words of parameters -/

/-- A name is no word of another kind. -/
theorem Name.word_ne (n : Name) {w : Word} (h : w.kind ≠ .ident) : n.word ≠ w := by
  rintro rfl
  exact h rfl

/-- The equals sign is no plain word. -/
theorem Word.Plain.ne_equals {w : Word} (h : w.Plain) : w ≠ .equals := by
  rintro rfl
  obtain ⟨c, cs, hc, hne, -⟩ := h.exists_first
  exact hne (List.cons.inj (show ['='] = c :: cs from hc)).1.symm

/-- Plain words may stand behind every word and behind each other. -/
theorem Word.isChain_follows {ws : List Word} (h : ∀ w ∈ ws, w.Plain) (w : Word) :
    (w :: ws).IsChain Follows := by
  induction ws generalizing w with
  | nil => exact .singleton w
  | cons w' ws ih =>
    rw [List.forall_mem_cons] at h
    exact List.isChain_cons_cons.mpr ⟨fun heq => absurd heq h.1.ne_equals, ih h.2 w'⟩

/-- A type has a last word, which is neither an opening bracket nor an equals sign. -/
theorem TypeExpr.exists_words_concat (t : TypeExpr) :
    ∃ front w, t.words = front ++ [w] ∧ w ≠ .less ∧ w ≠ .equals := by
  cases t with
  | name n => exact ⟨[], n.word, rfl, n.word_ne (by decide), n.word_ne (by decide)⟩
  | apply n args =>
    exact ⟨n.word :: .less :: args.words, .greater, by rw [TypeExpr.words]; rfl, by decide,
      by decide⟩

namespace Param

/-- The words of a parameter may stand behind each other. -/
theorem isChain_words (p : Param) : p.words.IsChain Word.Follows := by
  cases p with
  | receiver n hn => exact .singleton _
  | presetReceiver n hn v hv =>
    exact List.isChain_cons_cons.mpr
      ⟨fun _ => ⟨n.word_ne (by decide), n.word_ne (by decide)⟩, Word.isChain_follows v.plain_words _⟩
  | typed n t ht =>
    exact List.isChain_cons_cons.mpr
      ⟨fun h => absurd h (by decide), Word.isChain_follows t.plain_words _⟩
  | preset n t ht v hv =>
    obtain ⟨front, w, hwords, hless, hequals⟩ := t.exists_words_concat
    have hfront := Word.isChain_follows t.plain_words .colon
    rw [hwords] at hfront
    rw [words, hwords, List.append_assoc, List.singleton_append]
    refine List.isChain_cons_cons.mpr ⟨fun h => absurd h (by decide), ?_⟩
    exact List.isChain_cons_append_cons_cons.mpr
      ⟨hfront, fun _ => ⟨hless, hequals⟩, Word.isChain_follows v.plain_words _⟩

/-- The words of a list of parameters may stand behind each other. -/
theorem isChain_allWords (ps : List Param) : (allWords ps).IsChain Word.Follows := by
  fun_induction allWords ps with
  | case1 => exact .nil
  | case2 p => exact p.isChain_words
  | case3 p q ps ih =>
    refine List.isChain_append.mpr ⟨p.isChain_words, List.isChain_cons.mpr ⟨?_, ih⟩, ?_⟩
    · exact fun _ _ _ => by decide
    · exact fun _ _ _ hcomma heq => absurd heq (by simp_all [Word.comma, Word.equals])

/-- The words of a parameter are words of lists of parameters. -/
theorem listed_words (p : Param) : ∀ w ∈ p.words, w.Listed := by
  have hplain : ∀ {ws : List Word}, (∀ w ∈ ws, w.Plain) → ∀ w ∈ ws, w.Listed :=
    fun h w hw => .inl (h w hw)
  cases p with
  | receiver n hn => exact hplain (by simpa [words] using Word.Plain.name n)
  | presetReceiver n hn v hv =>
    rw [words, List.forall_mem_cons, List.forall_mem_cons]
    exact ⟨.inl (.name n), .inr (.inr rfl), hplain v.plain_words⟩
  | typed n t ht =>
    rw [words, List.forall_mem_cons, List.forall_mem_cons]
    exact ⟨.inl (.name n), .inr (.inl rfl), hplain t.plain_words⟩
  | preset n t ht v hv =>
    rw [words, List.forall_mem_cons, List.forall_mem_cons, List.forall_mem_append,
      List.forall_mem_cons]
    exact ⟨.inl (.name n), .inr (.inl rfl), hplain t.plain_words, .inr (.inr rfl),
      hplain v.plain_words⟩

/-- The words of a list of parameters are such. -/
theorem listed_allWords (ps : List Param) : ∀ w ∈ allWords ps, w.Listed := by
  fun_induction allWords ps with
  | case1 => simp
  | case2 p => exact p.listed_words
  | case3 p q ps ih =>
    rw [List.forall_mem_append, List.forall_mem_cons]
    exact ⟨p.listed_words, .inl (.mark (by decide)), ih⟩

end Param

/-! ## Brackets in parameters -/

namespace AnglesPair

variable {ts us : List Token}

/-- Where the brackets of two rows of tokens pair, those of both in a row do. -/
theorem append (h : AnglesPair ts) (h' : AnglesPair us) : AnglesPair (ts ++ us) where
  nonneg front hfront := by
    obtain ⟨behind, heq⟩ := hfront
    rcases List.append_eq_append_iff.mp heq with ⟨more, rfl, -⟩ | ⟨more, rfl, hus⟩
    · exact h.nonneg front (List.prefix_append front more)
    · rw [angleDepth_append, h.closed, Int.zero_add]
      exact h'.nonneg more ⟨behind, hus.symm⟩
  closed := by rw [angleDepth_append, h.closed, h'.closed, Int.add_zero]

/-- Tokens that are no brackets pair. -/
theorem of_flat (h : ∀ t ∈ ts, t.angle = 0) : AnglesPair ts := by
  have hzero : ∀ us : List Token, (∀ t ∈ us, t.angle = 0) → angleDepth us = 0 := by
    intro us hus
    induction us with
    | nil => rfl
    | cons t us ih =>
      rw [List.forall_mem_cons] at hus
      rw [angleDepth_cons, hus.1, ih hus.2, Int.add_zero]
  refine ⟨fun front hfront => ?_, hzero ts h⟩
  exact Int.le_of_eq (hzero front fun t ht => h t (hfront.subset ht)).symm

/-- A token that is no bracket changes nothing in front. -/
theorem cons {t : Token} (ht : t.angle = 0) (h : AnglesPair us) : AnglesPair (t :: us) :=
  append (of_flat (List.forall_mem_singleton.mpr ht)) h

end AnglesPair

/-- The brackets of a type pair, as the scan of a return type finds out. -/
theorem TypeExpr.anglesPair (t : TypeExpr) {ts : List Token} (h : ts.map Token.word = t.words) :
    AnglesPair ts := by
  have hrun := t.run_typeScan h default ⟨"", 0, default⟩ []
  have hfinish : TypeScan.finish default
      ⟨Text.attachAll .tight "" t.words, 0, (default : Span).over ts⟩ = .ok t.text :=
    TypeScan.finish_eq_ok_iff.mpr
      ⟨rfl, by rw [t.attachAll_words]; exact t.text_ne_empty, t.attachAll_words⟩
  rw [List.append_nil, TypeScan.run, hfinish] at hrun
  obtain ⟨-, type, htype, hangles, -⟩ := TypeScan.exists_type_of_run hrun
  rw [List.append_nil] at htype
  rw [htype]
  exact hangles.anglesPair

/-- A phrase has no angle brackets. -/
theorem Phrase.kind_words (p : Phrase) : ∀ w ∈ p.words, w.kind ≠ .less ∧ w.kind ≠ .greater := by
  have hmark : ∀ b : Bracket, (b.opening.kind ≠ .less ∧ b.opening.kind ≠ .greater) ∧
      b.closing.kind ≠ .less ∧ b.closing.kind ≠ .greater := by
    intro b
    cases b <;> decide
  induction p with
  | nil => simp [words]
  | atom a rest ih =>
    rw [words, List.forall_mem_cons]
    refine ⟨?_, ih⟩
    rcases a.kind_word with h | h | h <;> rw [h] <;> decide
  | comma rest ih =>
    rw [words, List.forall_mem_cons]
    exact ⟨by decide, ih⟩
  | group b inside rest ihin ih =>
    rw [words, List.forall_mem_cons, List.forall_mem_append, List.forall_mem_cons]
    exact ⟨(hmark b).1, ihin, (hmark b).2, ih⟩

/-- So the brackets of a phrase pair. -/
theorem Phrase.anglesPair (p : Phrase) {ts : List Token} (h : ts.map Token.word = p.words) :
    AnglesPair ts := by
  refine .of_flat fun t ht => ?_
  obtain ⟨hless, hgreater⟩ := p.kind_words t.word (h ▸ List.mem_map_of_mem ht)
  rw [Token.angle]
  split
  · next hkind => exact absurd hkind hless
  · next hkind => exact absurd hkind hgreater
  · rfl

namespace Param

/-- The brackets of a parameter pair. -/
theorem anglesPair (p : Param) {ts : List Token} (h : ts.map Token.word = p.words) :
    AnglesPair ts := by
  cases p with
  | receiver n hn =>
    rw [words] at h
    obtain ⟨sn, us, rfl, hus⟩ := Token.exists_cons_of_words h
    obtain rfl := List.map_eq_nil_iff.mp hus
    exact .of_flat (List.forall_mem_singleton.mpr rfl)
  | presetReceiver n hn v hv =>
    rw [words] at h
    obtain ⟨sn, us, rfl, hus⟩ := Token.exists_cons_of_words h
    obtain ⟨se, xs, rfl, hxs⟩ := Token.exists_cons_of_words hus
    exact .cons rfl (.cons rfl (v.anglesPair hxs))
  | typed n t ht =>
    rw [words] at h
    obtain ⟨sn, us, rfl, hus⟩ := Token.exists_cons_of_words h
    obtain ⟨sc, vs, rfl, hvs⟩ := Token.exists_cons_of_words hus
    exact .cons rfl (.cons rfl (t.anglesPair hvs))
  | preset n t ht v hv =>
    rw [words] at h
    obtain ⟨sn, us, rfl, hus⟩ := Token.exists_cons_of_words h
    obtain ⟨sc, vs, rfl, hvs⟩ := Token.exists_cons_of_words hus
    obtain ⟨front, back, rfl, hfront, hback⟩ := List.map_eq_append_iff.mp hvs
    obtain ⟨se, xs, rfl, hxs⟩ := Token.exists_cons_of_words hback
    exact .cons rfl (.cons rfl (.append (t.anglesPair hfront) (.cons rfl (v.anglesPair hxs))))

/-- The brackets of a list of parameters pair. By induction on the parameters. -/
theorem anglesPair_all (ps : List Param) {ts : List Token} (h : ts.map Token.word = allWords ps) :
    AnglesPair ts := by
  fun_induction allWords ps generalizing ts with
  | case1 =>
    obtain rfl := List.map_eq_nil_iff.mp h
    exact .of_flat (by simp)
  | case2 p => exact p.anglesPair h
  | case3 p q ps ih =>
    obtain ⟨front, back, rfl, hfront, hback⟩ := List.map_eq_append_iff.mp h
    obtain ⟨sc, us, rfl, hus⟩ := Token.exists_cons_of_words hback
    exact .append (p.anglesPair hfront) (.cons rfl (ih hus))

end Param

/-! ## Glued brackets -/

/-- How many more angle brackets words open than they close. -/
def wordDepth (ws : List Word) : Int :=
  angleDepth (ws.map fun w => w.at default)

/-- A word counts by what it is as a token. -/
theorem wordDepth_cons (w : Word) (ws : List Word) :
    wordDepth (w :: ws) = (w.at default).angle + wordDepth ws := rfl

/-- A closing bracket and an equals sign behind it close one bracket. -/
theorem wordDepth_greater_equals (ws : List Word) :
    wordDepth (.greater :: .equals :: ws) = -1 + wordDepth ws := by
  have hgreater : (Word.greater.at default).angle = -1 := rfl
  have hequals : (Word.equals.at default).angle = 0 := rfl
  rw [wordDepth_cons, wordDepth_cons, hgreater, hequals, Int.zero_add]

/-- The same two characters as one word close none. -/
theorem wordDepth_greaterEquals (ws : List Word) :
    wordDepth (.greaterEquals :: ws) = wordDepth ws := by
  have hglued : (Word.greaterEquals.at default).angle = 0 := rfl
  rw [wordDepth_cons, hglued, Int.zero_add]

/-- The depths of words in a row add up. -/
theorem wordDepth_append (ws ws' : List Word) :
    wordDepth (ws ++ ws') = wordDepth ws + wordDepth ws' := by
  rw [wordDepth, List.map_append, angleDepth_append]
  rfl

/-- The depth of tokens depends on their words alone. -/
theorem angleDepth_eq_wordDepth (ts : List Token) : angleDepth ts = wordDepth (ts.map Token.word) := by
  induction ts with
  | nil => rfl
  | cons t ts ih =>
    rw [angleDepth_cons, ih]
    rfl

/-- An equals sign that is glued to a bracket takes it away, so the depth is nowhere less than it was. -/
theorem Arrangement.exists_wordDepth_le {l : Arrangement} {ws : List Word} (h : ws <+: l.gluedWords) :
    ∃ ws', ws' <+: l.words ∧ wordDepth ws' ≤ wordDepth ws := by
  fun_induction gluedWords l generalizing ws with
  | case1 => exact ⟨ws, h, Int.le_refl _⟩
  | case2 e => exact ⟨ws, h, Int.le_refl _⟩
  | case3 e e' l hglue ih =>
    rcases List.prefix_cons_iff.mp h with rfl | ⟨front, rfl, hfront⟩
    · exact ⟨[], List.nil_prefix, Int.le_refl _⟩
    · obtain ⟨front', hfront', hle⟩ := ih hfront
      obtain ⟨gap, w⟩ := e
      obtain ⟨rfl, rfl⟩ := hglue
      refine ⟨.greater :: .equals :: front', ?_, ?_⟩
      · exact (List.prefix_cons_inj _).mpr ((List.prefix_cons_inj _).mpr hfront')
      · rw [wordDepth_greater_equals, wordDepth_greaterEquals]
        omega
  | case4 e e' l hglue ih =>
    rcases List.prefix_cons_iff.mp h with rfl | ⟨front, rfl, hfront⟩
    · exact ⟨[], List.nil_prefix, Int.le_refl _⟩
    · obtain ⟨front', hfront', hle⟩ := ih hfront
      refine ⟨e.2 :: front', (List.prefix_cons_inj _).mpr hfront', ?_⟩
      rw [wordDepth_cons, wordDepth_cons]
      exact Int.add_le_add_left hle _

/-- Two elements that follow each other stand in front of a third one or behind it. -/
theorem append_cons_cases {α : Type} {xs more front back : List α} {x a b : α} (ha : x ≠ a)
    (hb : x ≠ b) (h : xs ++ x :: more = front ++ a :: b :: back) :
    (∃ back', xs = front ++ a :: b :: back') ∨
      ∃ front', front = xs ++ x :: front' ∧ more = front' ++ a :: b :: back := by
  rcases List.append_eq_append_iff.mp h with ⟨between, rfl, hmore⟩ | ⟨between, rfl, hback⟩
  · cases between with
    | nil => exact absurd (List.cons.inj hmore).1 ha
    | cons y front' =>
      obtain ⟨rfl, rfl⟩ := List.cons.inj hmore
      exact .inr ⟨front', rfl, rfl⟩
  · cases between with
    | nil => exact absurd (List.cons.inj hback).1.symm ha
    | cons y between =>
      obtain ⟨rfl, hbetween⟩ := List.cons.inj hback
      cases between with
      | nil => exact absurd (List.cons.inj hbetween).1.symm hb
      | cons z between =>
        obtain ⟨rfl, -⟩ := List.cons.inj hbetween
        exact .inl ⟨between, rfl⟩

namespace Param

/-- Nowhere in a list of parameters are more brackets closed than opened. -/
theorem wordDepth_nonneg (ps : List Param) {ws : List Word}
    (h : ws <+: allWords ps ++ [.closeParen]) : 0 ≤ wordDepth ws := by
  have hpair : AnglesPair ((allWords ps ++ [Word.closeParen]).map fun w => w.at default) := by
    rw [List.map_append]
    refine .append (anglesPair_all ps ?_) (.of_flat (List.forall_mem_singleton.mpr rfl))
    rw [List.map_map]
    exact List.map_id _
  exact hpair.nonneg _ (h.map _)

/-- In the words of a parameter an equals sign comes behind a bracket where the type ends. -/
theorem exists_apply_of_words (p : Param) {front back : List Word}
    (h : p.words = front ++ .greater :: .equals :: back) :
    ∃ (n m : Name) (args : TypeArgs),
      front = n.word :: .colon :: m.word :: .less :: args.words := by
  have hplain : ∀ {ws : List Word}, (∀ w ∈ ws, w.Plain) → .equals ∉ ws :=
    fun hws hmem => (hws _ hmem).ne_equals rfl
  have hname : ∀ n : Name, .equals ≠ n.word := fun n => (n.word_ne (by decide)).symm
  have htyped : ∀ (n : Name) (t : TypeExpr), .equals ∉ n.word :: .colon :: t.words := by
    intro n t
    rw [List.mem_cons, List.mem_cons, not_or, not_or]
    exact ⟨hname n, by decide, hplain t.plain_words⟩
  have hlast : ∀ (ws : List Word) (n : Name), ws ++ [n.word] ≠ front ++ [.greater] :=
    fun ws n hws => n.word_ne (by decide) (List.singleton_inj.mp (List.append_inj_right' hws rfl))
  rw [List.append_cons] at h
  have hmem : .equals ∈ p.words := by simp [h]
  cases p with
  | receiver n hn => exact absurd (List.mem_singleton.mp hmem) (hname n)
  | presetReceiver n hn v hv =>
    have h : [n.word] ++ .equals :: v.words = front ++ [.greater] ++ .equals :: back := h
    rw [List.append_cons_inj_of_notMem (by simp [hname]) (hplain v.plain_words)] at h
    exact absurd h.1 (hlast [] n)
  | typed n t ht => exact absurd hmem (htyped n t)
  | preset n t ht v hv =>
    have h : n.word :: .colon :: t.words ++ .equals :: v.words =
        front ++ [.greater] ++ .equals :: back := h
    rw [List.append_cons_inj_of_notMem (htyped n t) (hplain v.plain_words)] at h
    cases t with
    | name m => exact absurd h.1 (hlast [n.word, .colon] m)
    | apply m args =>
      have hfront : n.word :: .colon :: m.word :: .less :: args.words ++ [.greater] =
          front ++ [.greater] := by rw [← h.1, TypeExpr.words]; rfl
      exact ⟨n, m, args, (List.append_cancel_right hfront).symm⟩

/-- In front of this bracket the scan is inside the type, and only the bracket of the type is open. -/
theorem exists_run_typing_of_words (p : Param) {front back : List Word}
    (h : p.words = front ++ .greater :: .equals :: back) {ts : List Token}
    (hts : ts.map Token.word = front) (stop : Span) (table : ParamTable) (rest : List Token) :
    angleDepth ts = 1 ∧ ∃ name text span,
      ParamScan.run stop { table } (ts ++ rest) =
        ParamScan.run stop (.typing table name text true span 1) rest := by
  obtain ⟨n, m, args, rfl⟩ := p.exists_apply_of_words h
  obtain ⟨sn, us, rfl, hus⟩ := Token.exists_cons_of_words hts
  obtain ⟨sc, vs, rfl, hvs⟩ := Token.exists_cons_of_words hus
  obtain ⟨sm, xs, rfl, hxs⟩ := Token.exists_cons_of_words hvs
  obtain ⟨sl, inside, rfl, hinside⟩ := Token.exists_cons_of_words hxs
  constructor
  · -- the bracket that is missing closes the type
    have htype : (m.word.at sm :: Word.less.at sl :: (inside ++ [Word.greater.at default])).map
        Token.word = (TypeExpr.apply m args).words := by
      rw [TypeExpr.words, List.map_cons, List.map_cons, List.map_append, hinside]
      rfl
    have hclosed := (TypeExpr.anglesPair _ htype).closed
    rw [angleDepth_cons, angleDepth_cons, angleDepth_concat] at hclosed
    rw [angleDepth_cons, angleDepth_cons, angleDepth_cons, angleDepth_cons]
    have hname : ∀ (n : Name) (span : Span), (n.word.at span).angle = 0 := fun _ _ => rfl
    have hcolon : (Word.colon.at sc).angle = 0 := rfl
    have hgreater : (Word.greater.at default).angle = -1 := rfl
    rw [hname, hgreater] at hclosed
    rw [hname, hname, hcolon]
    omega
  · rw [List.cons_append, ParamScan.run_name rfl, List.cons_append, ParamScan.run_colon rfl,
      List.cons_append, ParamScan.run_typing_push (h := .inl rfl), List.cons_append,
      ParamScan.run_typing_less (h := rfl), args.run_paramScan hinside]
    exact ⟨_, _, _, rfl⟩

/-- It is the same in a list of parameters. -/
theorem exists_run_typing (ps : List Param) {front back : List Word}
    (hwords : allWords ps ++ [.closeParen] = front ++ .greater :: .equals :: back) {ts : List Token}
    (hts : ts.map Token.word = front) (stop : Span) (table : ParamTable)
    (hnew : (table.names ++ ps.map (·.name.text)).Nodup) (rest : List Token) :
    angleDepth ts = 1 ∧ ∃ table' name text span,
      ParamScan.run stop { table } (ts ++ rest) =
        ParamScan.run stop (.typing table' name text true span 1) rest := by
  fun_induction allWords ps generalizing front ts table with
  | case1 =>
    have hlength := congrArg List.length hwords
    simp only [List.length_append, List.length_cons, List.length_nil] at hlength
    omega
  | case2 p =>
    rcases append_cons_cases (by decide) (by decide) hwords with ⟨back', hp⟩ | ⟨front', -, hrest⟩
    · obtain ⟨hdepth, hrun⟩ := p.exists_run_typing_of_words hp hts stop table rest
      exact ⟨hdepth, table, hrun⟩
    · simp at hrest
  | case3 p q ps ih =>
    rw [List.append_assoc, List.cons_append] at hwords
    rcases append_cons_cases (by decide) (by decide) hwords with
      ⟨back', hp⟩ | ⟨front', rfl, hrest⟩
    · obtain ⟨hdepth, hrun⟩ := p.exists_run_typing_of_words hp hts stop table rest
      exact ⟨hdepth, table, hrun⟩
    · obtain ⟨us, vs, rfl, hus, hvs⟩ := List.map_eq_append_iff.mp hts
      obtain ⟨sc, xs, rfl, hxs⟩ := Token.exists_cons_of_words hvs
      obtain ⟨hdepth, hrun⟩ := ih hrest hxs ⟨table.entries ++ [(p.name.text, p.info)]⟩
        (by simpa [Table.names] using hnew)
      rw [angleDepth_append, (p.anglesPair hus).closed, angleDepth_cons, List.append_assoc,
        List.cons_append, p.run_comma hus sc stop (name_not_mem_names hnew)]
      exact ⟨by rw [hdepth]; rfl, hrun⟩

/-- A list of parameters ends with its parenthesis. -/
theorem closeParen_mem (ps : List Param) {front back : List Word}
    (h : allWords ps ++ [.closeParen] = front ++ .greater :: .equals :: back) :
    .closeParen ∈ back := by
  rcases List.eq_nil_or_concat back with rfl | ⟨init, w, rfl⟩
  · rw [List.append_cons front] at h
    exact absurd (List.append_inj_right' h rfl) (by decide)
  · rw [List.concat_eq_append] at h ⊢
    rw [← List.cons_append, ← List.cons_append, ← List.append_assoc] at h
    rw [List.singleton_inj.mp (List.append_inj_right' h rfl)]
    exact List.mem_append_right init List.mem_cons_self

end Param

/-! ## The whole -/

/-- Line ends mean nothing in a list of parameters. -/
theorem ParamScan.run_filter (stop : Span) (s : ParamScan) (ts : List Token) :
    (run stop s (ts.filter fun t => !t.isNewline)).1 = (run stop s ts).1 := by
  induction ts generalizing s with
  | nil => rfl
  | cons t ts ih =>
    by_cases hline : t.kind = .newline
    · have hstep : s.step t = .more s := by rw [step, if_pos hline]
      rw [List.filter_cons_of_neg (by simp [Token.isNewline, hline]), run_of_more hstep, ih]
    · rw [List.filter_cons_of_pos (by simpa [Token.isNewline] using hline), run, run]
      cases s.step t with
      | more s' => exact ih s'
      | done result => rfl

namespace Param

/-- A glued equals sign leaves the bracket of its type open. -/
theorem exists_run_of_glues (ps : List Param) (hnames : (ps.map (·.name.text)).Nodup)
    {front back : Arrangement}
    (hwords : allWords ps ++ [.closeParen] =
      front.words ++ .greater :: .equals :: back.words) {ts : List Token}
    (hts : ts.map Token.word = front.words ++ .greaterEquals :: back.gluedWords) (stop : Span) :
    ∃ span, (readParams stop ts).1 = .error ⟨.unbalancedGenerics, span⟩ := by
  obtain ⟨before, behind, rfl, hbefore, hbehind⟩ := List.map_eq_append_iff.mp hts
  obtain ⟨sg, rest, rfl, hrest⟩ := Token.exists_cons_of_words hbehind
  obtain ⟨hdepth, table, name, text, span, hrun⟩ := exists_run_typing ps hwords hbefore stop .empty
    hnames (Word.greaterEquals.at sg :: rest)
  rw [readParams, hrun]
  refine ParamScan.exists_run_of_unclosed rfl rfl (fun part hpart => ?_) ?_ stop
  · rcases List.prefix_cons_iff.mp hpart with rfl | ⟨tail, rfl, htail⟩
    · exact Int.zero_lt_one
    · have hglued := htail.map Token.word
      rw [hrest] at hglued
      obtain ⟨ws, hws, hle⟩ := Arrangement.exists_wordDepth_le hglued
      -- what is read so far, with the bracket that the equals sign has taken
      have hnonneg : 0 ≤ wordDepth (front.words ++ .greater :: .equals :: ws) := by
        refine wordDepth_nonneg ps ?_
        rw [hwords, List.prefix_append_right_inj, List.prefix_cons_inj, List.prefix_cons_inj]
        exact hws
      rw [wordDepth_append, wordDepth_greater_equals, ← hbefore, ← angleDepth_eq_wordDepth,
        hdepth] at hnonneg
      have hrest' : angleDepth (Word.greaterEquals.at sg :: tail) =
          wordDepth (tail.map Token.word) := by
        rw [angleDepth_eq_wordDepth]
        exact wordDepth_greaterEquals _
      rw [hrest']
      show 0 < ((1 : Nat) : Int) + _
      omega
  · have hmem := Arrangement.mem_gluedWords (closeParen_mem ps hwords) (by decide) (by decide)
    rw [← hrest] at hmem
    obtain ⟨t, ht, hword⟩ := List.mem_map.mp hmem
    exact ⟨t, List.mem_cons_of_mem _ ht, congrArg Word.kind hword⟩

/-- **Parameters are read in every arrangement of their words,** unless an equals sign stands directly
behind a type with arguments; then a bracket is reported as not closed.
Source: `glyph` and `extract`. -/
theorem readParams_arranged (ps : List Param) (hnames : (ps.map (·.name.text)).Nodup)
    {l : Arrangement} (hwords : l.words = allWords ps ++ [.closeParen]) (h : l.Legible) :
    ∃ ts, Token.scan (String.ofList l.text) = .ok ts ∧ ∀ stop,
      (¬l.Glues →
        (readParams stop ts).1 = .ok ⟨ps.map fun p => (p.name.text, p.info)⟩) ∧
      (l.Glues → ∃ span, (readParams stop ts).1 = .error ⟨.unbalancedGenerics, span⟩) := by
  have hlisted : ∀ e ∈ l, e.2.Listed := by
    intro e he
    have hmem : e.2 ∈ l.words := List.mem_map_of_mem he
    rw [hwords, List.mem_append, List.mem_singleton] at hmem
    rcases hmem with hmem | hmem
    · exact listed_allWords ps _ hmem
    · rw [hmem]
      exact .inl (.mark (by decide))
  have hfollows : l.IsChain fun e e' => e.2.Follows e'.2 := by
    rw [← List.isChain_map, show l.map Prod.snd = _ from hwords, List.isChain_append]
    refine ⟨isChain_allWords ps, .singleton _, ?_⟩
    rintro w - _ hw rfl
    exact absurd (Option.some.inj hw) (by decide)
  obtain ⟨ts, hscan, hts⟩ := Arrangement.exists_scanFrom_text h hlisted hfollows 0
  refine ⟨ts, by rw [Token.scan, String.toList_ofList]; exact hscan, fun stop => ?_⟩
  rw [readParams, ← ParamScan.run_filter, ← readParams]
  -- `>` written against `=` is scanned as one token, which closes no angle
  rcases l.gluedWords_cases with ⟨hnone, hglued⟩ | ⟨front, gap, back, rfl, hglued⟩
  · refine ⟨fun _ => ?_, fun hglues => absurd hglues hnone⟩
    rw [hglued, hwords] at hts
    obtain ⟨inner, closing, hinner, hall, hclosing⟩ := List.map_eq_append_iff.mp hts
    obtain ⟨sc, rest, rfl, hrest⟩ := Token.exists_cons_of_words hclosing
    rw [hinner, readParams, run_all ps hall rfl stop .empty hnames]
    rfl
  · refine ⟨fun hnone => absurd ⟨front, gap, back, rfl⟩ hnone, fun _ => ?_⟩
    refine exists_run_of_glues ps hnames ?_ (hts.trans hglued) stop
    rw [← hwords, Arrangement.words_append]
    rfl

/-- The same words over three lines, and without any gap. -/
theorem readParams_arranged_over_lines :
    let key : Name := ⟨"Key", by decide +kernel⟩
    let val : Name := ⟨"Val", by decide +kernel⟩
    let pair : TypeExpr := .apply ⟨"Pair", by decide +kernel⟩
      (.cons (.name key) (.last (.apply val (.last (.name key)))))
    let twelve : Atom := .digits ⟨"12", by decide, by simp⟩
    let ps : List Param :=
      [.preset ⟨"left", by decide +kernel⟩ pair rfl
        (.group .square (.atom twelve (.comma (.atom (.name key) .nil))) .nil) rfl,
      .typed ⟨"right", by decide +kernel⟩ (.name val) rfl]
    let table : ParamTable := ⟨[("left", ⟨"Pair<Key,Val<Key>>", true, some "[12, Key]", true⟩),
      ("right", ⟨"Val", false, none, true⟩)]⟩
    let arranged (gaps : List (List Char)) : Arrangement := gaps.zip (allWords ps ++ [.closeParen])
    let apart := arranged [[], [], [], [], [], [], ['\n', ' '], [], [], [], [], ['\n'], [], [], [], [],
      [], [], [], [' '], [], []]
    let tight := arranged (List.replicate 22 [])
    (ps.map (·.name.text)).Nodup ∧
      (apart.words = allWords ps ++ [.closeParen] ∧ apart.Legible ∧ ¬apart.Glues ∧
        ∃ ts, Token.scan "left:Pair<Key,\n Val<Key>>\n=[12,Key],right :Val)" = .ok ts ∧
          ∀ stop, (readParams stop ts).1 = .ok table) ∧
      (tight.words = allWords ps ++ [.closeParen] ∧ tight.Legible ∧ tight.Glues ∧
        ∃ ts, Token.scan "left:Pair<Key,Val<Key>>=[12,Key],right:Val)" = .ok ts ∧
          ∀ stop, ∃ span, (readParams stop ts).1 = .error ⟨.unbalancedGenerics, span⟩) := by
  intro key val pair twelve ps table arranged apart tight
  have hnames : (ps.map (·.name.text)).Nodup := by decide
  have hlegible : ∀ l : Arrangement, (l.all fun e => e.1.all Text.isBlank) = true →
      l.IsChain (fun e e' => e.2.isRun = true → e'.2.isRun = true → e'.1 ≠ []) → l.Legible := by
    intro l hblank happart
    refine ⟨fun e he c hc => ?_, happart⟩
    exact List.all_eq_true.mp (List.all_eq_true.mp hblank e he) c hc
  have hapart : apart.words = allWords ps ++ [.closeParen] ∧ apart.Legible :=
    ⟨by decide +kernel, hlegible apart (by decide +kernel) (by decide +kernel)⟩
  have htight : tight.words = allWords ps ++ [.closeParen] ∧ tight.Legible :=
    ⟨by decide +kernel, hlegible tight (by decide +kernel) (by decide +kernel)⟩
  have hloose : ¬apart.Glues := by decide +kernel
  have hglued : tight.Glues := by decide +kernel
  refine ⟨hnames, ⟨hapart.1, hapart.2, hloose, ?_⟩, ⟨htight.1, htight.2, hglued, ?_⟩⟩
  · have htext : String.ofList apart.text = "left:Pair<Key,\n Val<Key>>\n=[12,Key],right :Val)" := by
      decide +kernel
    have htable : (⟨ps.map fun p => (p.name.text, p.info)⟩ : ParamTable) = table := by
      decide +kernel
    obtain ⟨ts, hscan, hread⟩ := readParams_arranged ps hnames hapart.1 hapart.2
    rw [htext] at hscan
    refine ⟨ts, hscan, fun stop => ?_⟩
    rw [← htable]
    exact (hread stop).1 hloose
  · have htext : String.ofList tight.text = "left:Pair<Key,Val<Key>>=[12,Key],right:Val)" := by
      decide +kernel
    obtain ⟨ts, hscan, hread⟩ := readParams_arranged ps hnames htight.1 htight.2
    rw [htext] at hscan
    exact ⟨ts, hscan, fun stop => (hread stop).2 hglued⟩

/-- A type with arguments and the equals sign behind it need a gap between them. -/
theorem readParams_of_glued_equals :
    let glued : List Token := [⟨.ident, "a", ⟨0, 1⟩⟩, ⟨.colon, ":", ⟨1, 2⟩⟩, ⟨.ident, "A", ⟨3, 4⟩⟩,
      ⟨.less, "<", ⟨4, 5⟩⟩, ⟨.ident, "B", ⟨5, 6⟩⟩, ⟨.operator, ">=", ⟨6, 8⟩⟩, ⟨.ident, "c", ⟨8, 9⟩⟩,
      ⟨.closeParen, ")", ⟨9, 10⟩⟩]
    let apart : List Token := [⟨.ident, "a", ⟨0, 1⟩⟩, ⟨.colon, ":", ⟨1, 2⟩⟩, ⟨.ident, "A", ⟨3, 4⟩⟩,
      ⟨.less, "<", ⟨4, 5⟩⟩, ⟨.ident, "B", ⟨5, 6⟩⟩, ⟨.greater, ">", ⟨6, 7⟩⟩, ⟨.equals, "=", ⟨8, 9⟩⟩,
      ⟨.ident, "c", ⟨9, 10⟩⟩, ⟨.closeParen, ")", ⟨10, 11⟩⟩]
    (Token.scan "a: A<B>=c)" = .ok glued ∧
      readParams ⟨10, 10⟩ glued = (.error ⟨.unbalancedGenerics, ⟨9, 10⟩⟩, [])) ∧
    Token.scan "a: A<B> =c)" = .ok apart ∧
      readParams ⟨11, 11⟩ apart = (.ok ⟨[("a", ⟨"A<B>", true, some "c", true⟩)]⟩, []) := by
  intro glued apart
  exact ⟨⟨Token.scan_of_scanWithin 20 (by decide +kernel), by decide +kernel⟩,
    Token.scan_of_scanWithin 20 (by decide +kernel), by decide +kernel⟩

end Param

end FuncDecl
