import FuncDecl.Proofs.Declaration.Segments
import FuncDecl.Proofs.Token.Spelling

/-!
# Angle brackets in types

The scan of parameters counts angle brackets from the name of a parameter on, and notes that it has
met one; the text of the type begins behind the colon. So what the scan has found out holds of the
whole front of a segment, and of its type alone only if the name does not interfere.

* `AnglesPair`: none of the angle brackets is closed that is not open, and all are closed.
* `ParamScan.Tracks.anglesPair_iff`: the brackets of a type pair exactly if the name opens as many
  as it closes.
* `SegmentedAs`: the segments of a list that is read. There always are some (`exists_segmentedAs`).
* `exists_anglesPair_of_readReturnType`: a return type has no name in front of it, and its brackets
  always pair.
* `types_pair_angles_iff`: **the brackets of an accepted type**.
* `less_mem_joined_iff`: when the text of a type shows the character `<`.
* `generic_agrees_iff`: **when a type is noted as generic**. A parameter is so noted although its
  type has no `<` if the name has one.
-/

namespace FuncDecl

/-! ## Brackets in pairs -/

/-- The angle brackets of the tokens pair: none is closed that is not open, and all are closed. -/
structure AnglesPair (ts : List Token) : Prop where
  nonneg : ∀ front, front <+: ts → 0 ≤ angleDepth front
  closed : angleDepth ts = 0

/-- Brackets that are all closed pair. -/
theorem ClosesAngles.anglesPair {ts : List Token} (h : ClosesAngles 0 ts) : AnglesPair ts where
  nonneg front hfront := by simpa using h.nonneg front hfront
  closed := by simpa using h.closed

/-- The depths of tokens in a row add up. -/
theorem angleDepth_append (ts us : List Token) :
    angleDepth (ts ++ us) = angleDepth ts + angleDepth us := by
  induction ts with
  | nil => simp
  | cons t ts ih => rw [List.cons_append, angleDepth_cons, angleDepth_cons, ih, Int.add_assoc]

namespace Segment

variable {p : Segment}

/-- The tokens of the type. -/
def typeTokens (p : Segment) : List Token :=
  p.type.tokens.tail

/-- The front of a segment with a type is its name, a colon and the type. -/
theorem exists_front_eq (h : p.type.isSome = true) :
    ∃ colon, colon.kind = .colon ∧ p.front = p.name ++ colon :: p.typeTokens := by
  obtain ⟨⟨colon, ts⟩, htype⟩ := Option.isSome_iff_exists.mp h
  refine ⟨colon, p.type_opens.mark _ htype, ?_⟩
  rw [SegmentParts.front, typeTokens, htype]
  rfl

/-- So its depth is that of the name and of the type. -/
theorem angleDepth_front (h : p.type.isSome = true) :
    angleDepth p.front = angleDepth p.name + angleDepth p.typeTokens := by
  obtain ⟨colon, hkind, hfront⟩ := exists_front_eq h
  have hcolon : colon.angle = 0 := by rw [Token.angle, hkind]
  rw [hfront, angleDepth_append, angleDepth_cons, hcolon, Int.zero_add]

/-- The text of a type is put together from its tokens. -/
theorem type_entry (h : p.type.isSome = true) :
    p.entry.2.type = Token.joined .tight p.typeTokens := by
  obtain ⟨opened, hopened⟩ := Option.isSome_iff_exists.mp h
  rw [entry, typeTokens, hopened]
  rfl

end Segment

/-- The brackets of a type pair exactly if the name opens as many as it closes. -/
theorem ParamScan.Tracks.anglesPair_iff {s : ParamScan} {p : Segment} (h : s.Tracks p)
    (hclosed : angleDepth p.front = 0) (htype : p.type.isSome = true) :
    AnglesPair p.typeTokens ↔ angleDepth p.name = 0 := by
  rw [Segment.angleDepth_front htype] at hclosed
  constructor
  · intro hpair
    rw [hpair.closed, Int.add_zero] at hclosed
    exact hclosed
  · intro hname
    rw [hname, Int.zero_add] at hclosed
    refine ⟨fun front hfront => ?_, hclosed⟩
    -- what stands in front of a place in the type, from the name on
    obtain ⟨colon, hkind, heq⟩ := Segment.exists_front_eq htype
    have hprefix : p.name ++ colon :: front <+: p.front := by
      rw [heq]
      exact (List.prefix_append_right_inj p.name).mpr ((List.prefix_cons_inj colon).mpr hfront)
    have hnonneg := h.nonneg _ hprefix
    have hcolon : colon.angle = 0 := by rw [Token.angle, hkind]
    rwa [angleDepth_append, angleDepth_cons, hname, hcolon, Int.zero_add, Int.zero_add] at hnonneg

/-! ## The segments of a list that is read -/

/-- The tokens in front of `rest` are a list of parameters with these segments, and the table is what
the segments say. -/
def SegmentedAs (segments : List Segment) (ts rest : List Token) (table : ParamTable) : Prop :=
  ∃ inner close cuts last, ts = inner ++ close :: rest ∧
    Splits (inner.filter fun t => !t.isNewline) close cuts last ∧
    segments = cuts.map Prod.fst ++ [last] ∧ table.entries = Segment.entries segments

/-- The tokens of a segment are tokens of the list. -/
theorem Splits.tokens_subset {ts : List Token} {close : Token} {cuts : List (Segment × Token)}
    {last p : Segment} (h : Splits ts close cuts last) (hp : p ∈ cuts.map Prod.fst ++ [last]) :
    p.tokens ⊆ ts := by
  intro t ht
  rw [h.tokens_eq]
  rcases List.mem_append.mp hp with hp | hp
  · obtain ⟨cut, hcut, rfl⟩ := List.mem_map.mp hp
    exact List.mem_append_left _
      (List.mem_flatMap.mpr ⟨cut, hcut, List.mem_append_left _ ht⟩)
  · rw [List.mem_singleton.mp hp] at ht
    exact List.mem_append_right _ ht

/-- A segment ends at an outermost mark. -/
theorem Splits.outermost {ts : List Token} {close : Token} {cuts : List (Segment × Token)}
    {last p : Segment} (h : Splits ts close cuts last) (hp : p ∈ cuts.map Prod.fst ++ [last]) :
    Outermost p.tokens := by
  rcases List.mem_append.mp hp with hp | hp
  · obtain ⟨cut, hcut, rfl⟩ := List.mem_map.mp hp
    exact (h.commas cut hcut).2.outermost
  · rw [List.mem_singleton.mp hp]
    exact h.close.2.outermost

/-- A list that is read has segments. The scan has followed each of them up to its end. -/
theorem exists_segmentedAs {source : String} {tokens ts rest : List Token} {stop : Span}
    {table : ParamTable} (hscan : Token.scan source = .ok tokens) (hts : ts ⊆ tokens)
    (h : readParams stop ts = (.ok table, rest)) :
    ∃ segments, SegmentedAs segments ts rest table ∧ ∀ p ∈ segments,
      (∃ s : ParamScan, s.Tracks p) ∧ angleDepth p.front = 0 ∧ p.tokens ⊆ tokens := by
  have htext : ∀ t ∈ ts, t.text ≠ "" := fun t ht hempty =>
    ((Token.Woven.of_scanFrom hscan).piece (hts ht)).ne_nil (by rw [hempty]; rfl)
  obtain ⟨inner, close, cuts, last, rfl, hsplits, hentries, htracks⟩ :=
    ParamScan.exists_tracked_splits_of_run h htext (ParamScan.tracks_empty rfl ⟨rfl, rfl⟩)
      Segment.enclosed_empty (by simp [Segment.tokens_empty])
  refine ⟨_, ⟨inner, close, cuts, last, rfl, hsplits, rfl, hentries⟩, fun p hp =>
    ⟨htracks p hp, (p.outermost_tokens_iff.mp (hsplits.outermost hp)).1, ?_⟩⟩
  exact List.Subset.trans (hsplits.tokens_subset hp) (List.Subset.trans
    (List.Subset.trans (List.filter_subset_self _) (List.subset_append_left _ _)) hts)

/-! ## Return types -/

namespace TypeScan

variable {arrow : Span} {s : TypeScan} {ts rest : List Token} {text : String}

/-- The scan joins a token to its text, unless it is a line end. -/
theorem text_take (s : TypeScan) (t : Token) :
    (s.take t).text =
      Text.attachAll .tight s.text (([t].filter fun t => !t.isNewline).map Token.word) := by
  rw [take]
  split
  · next hline => simp [Token.isNewline, hline, Text.attachAll]
  · next hline =>
    rw [List.filter_cons_of_pos (by simp [Token.isNewline, hline])]
    rfl

/-- The text of a return type is put together from its tokens, line ends apart. -/
theorem exists_text_of_run (h : run arrow s ts = .ok (text, rest)) :
    ∃ type, ts = type ++ rest ∧
      text = Text.attachAll .tight s.text ((type.filter fun t => !t.isNewline).map Token.word) := by
  have hfinish : ∀ {s : TypeScan} {us : List Token},
      (s.finish arrow).map (·, us) = .ok (text, rest) → us = rest ∧ text = s.text := by
    intro s us hus
    obtain ⟨_, hfinish, hpair⟩ := Except.map_eq_ok_iff.mp hus
    obtain ⟨rfl, rfl⟩ := Prod.mk.inj hpair
    exact ⟨rfl, (finish_eq_ok_iff.mp hfinish).2.2.symm⟩
  induction ts generalizing s with
  | nil =>
    obtain ⟨rfl, rfl⟩ := hfinish h
    exact ⟨[], rfl, rfl⟩
  | cons t ts ih =>
    by_cases hends : s.angles = 0 ∧ t.kind.endsType = true
    · rw [run, if_pos hends] at h
      obtain ⟨rfl, rfl⟩ := hfinish h
      exact ⟨[], rfl, rfl⟩
    · rw [run_cons hends (nonneg_of_run h)] at h
      obtain ⟨type, rfl, rfl⟩ := ih h
      refine ⟨t :: type, rfl, ?_⟩
      rw [text_take, ← Text.attachAll_append, ← List.map_append, ← List.filter_append,
        List.singleton_append]

end TypeScan

/-- A return type that is read stands behind its arrow, and its brackets pair. -/
theorem exists_anglesPair_of_readReturnType {ts rest : List Token} {text : String}
    (h : readReturnType ts = .ok (some text, rest)) :
    ∃ arrow type, ts = arrow :: (type ++ rest) ∧ arrow.kind = .arrow ∧
      text = Token.joined .tight (type.filter fun t => !t.isNewline) ∧ AnglesPair type := by
  cases ts with
  | nil => cases (Prod.mk.inj (Except.ok.inj h)).1
  | cons arrow ts =>
    rw [readReturnType] at h
    split at h
    · next harrow =>
      obtain ⟨⟨found, behind⟩, hrun, hpair⟩ := Except.map_eq_ok_iff.mp h
      obtain ⟨hfound, rfl⟩ := Prod.mk.inj hpair
      obtain rfl := Option.some.inj hfound
      obtain ⟨-, type, rfl, hangles, -⟩ := TypeScan.exists_type_of_run hrun
      obtain ⟨type', htype, htext⟩ := TypeScan.exists_text_of_run hrun
      obtain rfl := List.append_cancel_right htype
      exact ⟨arrow, type, rfl, harrow, htext, hangles.anglesPair⟩
    · cases (Prod.mk.inj (Except.ok.inj h)).1

/-- The keyword and what is behind it are the last tokens of a header. -/
theorem Header.Front.keyword_suffix {d : Dialect} {ts : List Token} {h : Header} {c : Header.Cut}
    (hc : Header.Front d ts h c) : c.keyword :: c.name :: c.paren :: c.inside <:+ ts := by
  obtain ⟨mods, hhead, -⟩ := readModifiers_local hc.modifiers
  have hdecorators := Decorator.readAll_suffix (skipNewlines ts)
  rw [hc.decorators] at hdecorators
  exact List.IsSuffix.trans ⟨mods, hhead.symm⟩ (hdecorators.trans (List.dropWhile_suffix _))

/-- The tokens behind the parameters are the last ones of a header. -/
theorem Header.Front.behind_suffix {d : Dialect} {ts : List Token} {h : Header} {c : Header.Cut}
    (hc : Header.Front d ts h c) : c.behind <:+ ts := by
  obtain ⟨params, hinside, -⟩ := ParamScan.run_local (hc.params default)
  have hkeyword := hc.keyword_suffix
  rw [hinside] at hkeyword
  exact List.IsSuffix.trans ⟨c.keyword :: c.name :: c.paren :: params, by simp⟩ hkeyword

/-! ## The whole -/

/-- **The brackets of an accepted type.** In a list of parameters that is read, the angle brackets of
the type of a parameter pair if and only if its name opens as many as it closes. Those of a return
type that is accepted always pair.
Source: `extract`, `return_type` and `GenericDepth`. -/
theorem types_pair_angles_iff {source : String} {tokens : List Token}
    (hscan : Token.scan source = .ok tokens) :
    (∀ ts stop table rest, ts ⊆ tokens → readParams stop ts = (.ok table, rest) →
      ∃ segments, SegmentedAs segments ts rest table ∧
        ∀ p ∈ segments, p.entry.2.annotated = true →
          p.entry.2.type = Token.joined .tight p.typeTokens ∧
          (AnglesPair p.typeTokens ↔ angleDepth p.name = 0)) ∧
    (∀ (c : Compiler) ts tree chain r text, (c.compile ts tree chain).1 = .ok r →
      r.returnType = some text →
        ∃ front arrow type last, ts = front ++ arrow :: (type ++ last) ∧ arrow.kind = .arrow ∧
          text = Token.joined .tight (type.filter fun t => !t.isNewline) ∧ AnglesPair type) := by
  constructor
  · intro ts stop table rest hts hread
    obtain ⟨segments, hsegments, hall⟩ := exists_segmentedAs hscan hts hread
    refine ⟨segments, hsegments, fun p hp htype => ?_⟩
    obtain ⟨⟨s, hs⟩, hclosed, -⟩ := hall p hp
    exact ⟨p.type_entry htype, hs.anglesPair_iff hclosed htype⟩
  · intro c ts tree chain r text hcompile htext
    rcases c.compile_cases ts tree chain with ⟨fault, hcases⟩ | ⟨h, hread, -, hcases⟩
    · rw [hcases] at hcompile
      cases hcompile
    · rw [hcases] at hcompile
      obtain rfl := Except.ok.inj hcompile
      obtain ⟨cut, hcut⟩ := Header.read_eq_ok_iff.mp hread
      have hreturn := hcut.returnType
      rw [show h.returnType = some text from htext] at hreturn
      obtain ⟨arrow, type, hbehind, harrow, htype, hpair⟩ :=
        exists_anglesPair_of_readReturnType hreturn
      obtain ⟨front, hfront⟩ := hcut.behind_suffix
      exact ⟨front, arrow, type, cut.last, by rw [← hfront, hbehind], harrow, htype, hpair⟩

/-- A name may have brackets of its own, and a return type may reach over a line end. -/
theorem types_pair_angles_iff_behind_name :
    let source := "fn f(a<b>: Map<K, V>) -> Of<\nN> \x7b"
    let tokens := ((Token.scanWithin 40 0 source.toList).bind Except.toOption).getD []
    let table : ParamTable := ⟨[("a<b>", ⟨"Map<K,V>", true, none, true⟩)]⟩
    let c : Compiler := { dialect := .ofKeywords {} }
    let tree : Scope.Tree := .new "" {}
    let r : Compiled := ⟨"f", ⟨3, 4⟩, "def f(a<b>: Map<K,V>) -> Of<N>:", table, some "Of<N>", [], [],
      .body, none⟩
    Token.scan source = .ok tokens ∧
      (readParams ⟨0, 0⟩ (tokens.drop 3) = (.ok table, tokens.drop 15) ∧
        ∃ segments, SegmentedAs segments (tokens.drop 3) (tokens.drop 15) table ∧
          ∀ p ∈ segments, p.entry.2.annotated = true →
            p.entry.2.type = Token.joined .tight p.typeTokens ∧
            (AnglesPair p.typeTokens ↔ angleDepth p.name = 0)) ∧
      (c.compile tokens tree ⟨0, 0, 0⟩).1 = .ok r ∧
        ∃ front arrow type last, tokens = front ++ arrow :: (type ++ last) ∧ arrow.kind = .arrow ∧
          "Of<N>" = Token.joined .tight (type.filter fun t => !t.isNewline) ∧ AnglesPair type := by
  intro source tokens table c tree r
  have hscan : Token.scan source = .ok tokens := Token.scan_of_scanWithin 40 (by decide +kernel)
  have hread : readParams ⟨0, 0⟩ (tokens.drop 3) = (.ok table, tokens.drop 15) := by decide +kernel
  have hr : (c.compile tokens tree ⟨0, 0, 0⟩).1 = .ok r := by decide +kernel
  have htypes := types_pair_angles_iff hscan
  exact ⟨hscan, ⟨hread, htypes.1 _ _ _ _ (List.drop_subset 3 tokens) hread⟩, hr,
    htypes.2 _ _ _ _ _ _ hr rfl⟩

/-- Behind a name that opens a bracket, a type that only closes one is read. -/
theorem not_anglesPair_of_open_name :
    let source := "a<b: c>d)"
    let type : List Token := [⟨.ident, "c", ⟨5, 6⟩⟩, ⟨.greater, ">", ⟨6, 7⟩⟩, ⟨.ident, "d", ⟨7, 8⟩⟩]
    let tokens : List Token := [⟨.ident, "a", ⟨0, 1⟩⟩, ⟨.less, "<", ⟨1, 2⟩⟩, ⟨.ident, "b", ⟨2, 3⟩⟩,
      ⟨.colon, ":", ⟨3, 4⟩⟩] ++ type ++ [⟨.closeParen, ")", ⟨8, 9⟩⟩]
    Token.scan source = .ok tokens ∧
      readParams ⟨9, 9⟩ tokens =
        (.ok ⟨[("a<b", ⟨Token.joined .tight type, true, none, true⟩)]⟩, []) ∧
      ¬AnglesPair type := by
  intro source type tokens
  refine ⟨Token.scan_of_scanWithin 20 (by decide +kernel), by decide +kernel, fun hpair => ?_⟩
  exact absurd hpair.closed (by decide)

/-! ## Types with arguments -/

/-- A token that is no angle bracket and has the character of one: a comparison or a string. -/
def Token.HidesAngle (t : Token) : Prop :=
  t.kind = .operator ∧ t.text = "<=" ∨ t.kind = .str ∧ '<' ∈ t.text.toList

/-- The character `<` is in the text of a bracket, a comparison or a string. -/
theorem Token.less_mem_text_iff {source : String} {tokens : List Token} {t : Token}
    (hscan : Token.scan source = .ok tokens) (ht : t ∈ tokens) :
    '<' ∈ t.text.toList ↔ t.kind = .less ∨ t.HidesAngle := by
  obtain ⟨c, cs, rest, hnext⟩ := exists_next_of_mem_scanFrom hscan ht
  have hfound := Lexeme.found_next c cs
  rw [hnext] at hfound
  have htext : t.text.toList = ['<', '='] ↔ t.text = "<=" :=
    ⟨fun h => String.toList_inj.mp h, fun h => by rw [h]; rfl⟩
  rw [hfound.less_mem_iff, htext, HidesAngle]

/-- The characters of a text that is put together are those of its words, and spaces. -/
theorem Text.mem_attachAll_iff {c : Char} (hc : c ≠ ' ') (style : CommaStyle) (written : String)
    (ws : List Word) :
    c ∈ (attachAll style written ws).toList ↔ c ∈ written.toList ∨ ∃ w ∈ ws, c ∈ w.chars := by
  induction ws generalizing written with
  | nil => simp [attachAll]
  | cons w ws ih =>
    have hattach : c ∈ (attach style written w.text).toList ↔ c ∈ written.toList ∨ c ∈ w.chars := by
      rw [attach_eq]
      split
      · simp [hc, Word.chars]
      · simp [Word.chars]
    simp only [attachAll_cons, ih, hattach, or_assoc, List.mem_cons, exists_eq_or_imp]

/-- The text of a type shows the character `<` if it has arguments, a comparison or a string with
it. -/
theorem less_mem_joined_iff {source : String} {tokens ts : List Token} (style : Text.CommaStyle)
    (hscan : Token.scan source = .ok tokens) (hts : ts ⊆ tokens) :
    '<' ∈ (Token.joined style ts).toList ↔
      (∃ t ∈ ts, t.kind = .less) ∨ ∃ t ∈ ts, t.HidesAngle := by
  have hchars : ∀ t ∈ ts, ('<' ∈ t.word.chars ↔ t.kind = .less ∨ t.HidesAngle) :=
    fun t ht => Token.less_mem_text_iff hscan (hts ht)
  rw [Token.joined, Text.mem_attachAll_iff (by decide)]
  simp only [List.mem_map, exists_exists_and_eq_and]
  grind

namespace Segment

variable {p : Segment}

/-- The tokens of the type are tokens of the segment. -/
theorem typeTokens_subset (p : Segment) : p.typeTokens ⊆ p.tokens := by
  intro t ht
  exact List.mem_append_left _ (List.mem_append_right _ (List.mem_of_mem_tail ht))

/-- A parameter without a type is not generic and of any type. -/
theorem entry_of_type_eq_none (h : p.type = none) :
    p.entry.2.generic = false ∧ p.entry.2.type = "Any" := by
  rw [entry, h]
  exact ⟨rfl, rfl⟩

/-- A parameter with a type is noted as generic if a bracket is opened in its type or in its name. -/
theorem generic_entry_iff (h : p.type.isSome = true) :
    p.entry.2.generic = true ↔
      (∃ t ∈ p.name, t.kind = .less) ∨ ∃ t ∈ p.typeTokens, t.kind = .less := by
  obtain ⟨colon, hkind, hfront⟩ := exists_front_eq h
  have hcolon : colon.kind ≠ .less := by simp [hkind]
  have hgeneric : p.entry.2.generic = p.front.any (·.kind == .less) := by
    rw [entry, h, Bool.true_and]
  rw [hgeneric, hfront]
  simp [hcolon]

end Segment

/-- **When a type is noted as generic.** The note of the table and what the text of the type shows
agree on a parameter without a type and on one whose type has a bracket. On any other type the note
is true if the name has a bracket, and the text shows one if it has a comparison or a string with
one, so that they agree if both of this is so or neither.
Source: `extract`, and `commit` of `Pending`. -/
theorem generic_agrees_iff {source : String} {tokens ts rest : List Token} {stop : Span}
    {table : ParamTable} (hscan : Token.scan source = .ok tokens) (hts : ts ⊆ tokens)
    (h : readParams stop ts = (.ok table, rest)) :
    ∃ segments, SegmentedAs segments ts rest table ∧ ∀ p ∈ segments,
      (p.entry.2.generic = (ParamInfo.ofType p.entry.2.type).generic ↔
        p.type = none ∨ (∃ t ∈ p.typeTokens, t.kind = .less) ∨
          ((∃ t ∈ p.name, t.kind = .less) ↔ ∃ t ∈ p.typeTokens, t.HidesAngle)) := by
  obtain ⟨segments, hsegments, hall⟩ := exists_segmentedAs hscan hts h
  refine ⟨segments, hsegments, fun p hp => ?_⟩
  obtain ⟨-, -, htokens⟩ := hall p hp
  cases htype : p.type with
  | none =>
    obtain ⟨hgeneric, hany⟩ := Segment.entry_of_type_eq_none htype
    rw [hgeneric, hany]
    exact iff_of_true (by decide) (.inl rfl)
  | some opened =>
    have hsome : p.type.isSome = true := by rw [htype]; rfl
    have htext : p.entry.2.type = Token.joined .tight p.typeTokens := p.type_entry hsome
    have hshows : (ParamInfo.ofType p.entry.2.type).generic = true ↔
        (∃ t ∈ p.typeTokens, t.kind = .less) ∨ ∃ t ∈ p.typeTokens, t.HidesAngle := by
      rw [← less_mem_joined_iff .tight hscan (List.Subset.trans p.typeTokens_subset htokens), ← htext]
      exact List.contains_iff_mem
    rw [Bool.eq_iff_iff, hshows, Segment.generic_entry_iff hsome]
    by_cases hless : ∃ t ∈ p.typeTokens, t.kind = .less
    · exact iff_of_true (iff_of_true (.inr hless) (.inl hless)) (.inr (.inl hless))
    · simp only [hless, or_false, false_or, reduceCtorEq]

/-- A receiver, a type with arguments, and a type that is a string behind a name with a bracket. -/
theorem generic_agrees_iff_on_string :
    let source := "self, a: Map<K, V> = x < y, b<c>: \"<\")"
    let tokens := ((Token.scanWithin 60 0 source.toList).bind Except.toOption).getD []
    let table : ParamTable := ⟨[("self", ⟨"Any", false, none, false⟩),
      ("a", ⟨"Map<K,V>", true, some "x<y", true⟩), ("b<c>", ⟨"\"<\"", true, none, true⟩)]⟩
    Token.scan source = .ok tokens ∧ readParams ⟨0, 0⟩ tokens = (.ok table, []) ∧
      ∃ segments, SegmentedAs segments tokens [] table ∧ ∀ p ∈ segments,
        (p.entry.2.generic = (ParamInfo.ofType p.entry.2.type).generic ↔
          p.type = none ∨ (∃ t ∈ p.typeTokens, t.kind = .less) ∨
            ((∃ t ∈ p.name, t.kind = .less) ↔ ∃ t ∈ p.typeTokens, t.HidesAngle)) := by
  intro source tokens table
  have hscan : Token.scan source = .ok tokens := Token.scan_of_scanWithin 60 (by decide +kernel)
  have hread : readParams ⟨0, 0⟩ tokens = (.ok table, []) := by decide +kernel
  exact ⟨hscan, hread, generic_agrees_iff hscan (List.Subset.refl tokens) hread⟩

/-- A bracket in the name misleads the note, a comparison the text. -/
theorem generic_disagrees :
    let named : List Token := [⟨.ident, "a", ⟨0, 1⟩⟩, ⟨.less, "<", ⟨1, 2⟩⟩, ⟨.ident, "b", ⟨2, 3⟩⟩,
      ⟨.greater, ">", ⟨3, 4⟩⟩, ⟨.colon, ":", ⟨4, 5⟩⟩, ⟨.ident, "c", ⟨6, 7⟩⟩,
      ⟨.closeParen, ")", ⟨7, 8⟩⟩]
    let compared : List Token := [⟨.ident, "a", ⟨0, 1⟩⟩, ⟨.colon, ":", ⟨1, 2⟩⟩,
      ⟨.ident, "b", ⟨3, 4⟩⟩, ⟨.operator, "<=", ⟨4, 6⟩⟩, ⟨.ident, "c", ⟨6, 7⟩⟩,
      ⟨.closeParen, ")", ⟨7, 8⟩⟩]
    (Token.scan "a<b>: c)" = .ok named ∧
      readParams ⟨8, 8⟩ named = (.ok ⟨[("a<b>", ⟨"c", true, none, true⟩)]⟩, []) ∧
      (ParamInfo.ofType "c").generic = false) ∧
    Token.scan "a: b<=c)" = .ok compared ∧
      readParams ⟨8, 8⟩ compared = (.ok ⟨[("a", ⟨"b<=c", false, none, true⟩)]⟩, []) ∧
      (ParamInfo.ofType "b<=c").generic = true := by
  intro named compared
  exact ⟨⟨Token.scan_of_scanWithin 20 (by decide +kernel), by decide +kernel, by decide⟩,
    Token.scan_of_scanWithin 20 (by decide +kernel), by decide +kernel, by decide⟩

end FuncDecl
