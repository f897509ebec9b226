import FuncDecl.Proofs.Declaration.RoundTrip
import FuncDecl.Proofs.Declaration.Segments

/-!
# The decorators in front of a declaration

What a decorator is, is said by its tokens alone.

* `EvensGroups` and `ClosesGroups`: all groups are closed behind some tokens, and for the first
  time.
* `Decorator.IsArguments`: an argument list goes on to the first token behind which as many groups
  are closed as were opened. `Decorator.readArguments_eq_some_iff` says that this is what is read.
* `Decorator.Dots` and `Decorator.readDots_eq_iff`: the parts of a dotted name are read as far as
  they go.
* `Decorator.Form`: the sign, a name directly behind it, the parts of a dotted name, and an argument
  list where a parenthesis comes next.
* `Decorator.read?_eq_some_iff`: **a decorator is read exactly where its form stands**.
* `Decorator.Form.assembled_eq`: what is put together while a decorator is read is the joined text
  of its tokens, and reaches from the first to the last of them.
* `Decorator.Leading`: a row of decorators with line ends behind each.
  `Decorator.Leading.le_readAll` says that no row reaches further than what is read.
* `Decorator.readAll_longest`: **all that is read at the front of some tokens of a source is the
  longest row of decorators there**.
-/

namespace FuncDecl

/-! ## Groups that are closed -/

/-- As many groups are closed by the tokens as are opened by them or were open before. -/
def EvensGroups (depth : Nat) (ts : List Token) : Prop :=
  depth + ts.countP (·.kind.opensGroup) = ts.countP (·.kind.closesGroup)

/-- All groups are closed behind the tokens, and for the first time. -/
structure ClosesGroups (depth : Nat) (ts : List Token) : Prop where
  evens : EvensGroups depth ts
  first : ∀ front, front <+: ts → front ≠ [] → EvensGroups depth front → front = ts

/-- No mark both opens and closes a group. -/
theorem Token.Kind.closesGroup_of_opensGroup {kind : Token.Kind} (h : kind.opensGroup = true) :
    kind.closesGroup = false := by
  revert h
  cases kind <;> decide

section Groups

variable {depth : Nat} {t : Token} {ts : List Token}

/-- The depth is counted truly as long as no group is closed that was never opened. -/
theorem evensGroups_cons_iff (h : 0 < depth ∨ t.kind.opensGroup = true) :
    EvensGroups depth (t :: ts) ↔ EvensGroups (t.kind.groupDepth depth) ts := by
  rw [EvensGroups, EvensGroups, List.countP_cons, List.countP_cons, Token.Kind.groupDepth]
  cases hopens : t.kind.opensGroup with
  | true =>
    simp only [Token.Kind.closesGroup_of_opensGroup hopens, Bool.false_eq_true, if_true, if_false]
    omega
  | false =>
    have hdepth : 0 < depth := h.resolve_right (by simp [hopens])
    by_cases hcloses : t.kind.closesGroup = true
    · simp only [hcloses, Bool.false_eq_true, if_true, if_false]
      omega
    · simp only [hcloses, Bool.false_eq_true, if_false]
      omega

/-- All groups are closed behind the first token, or it leaves some open that the others close. -/
theorem closesGroups_cons_iff (h : 0 < depth ∨ t.kind.opensGroup = true) :
    ClosesGroups depth (t :: ts) ↔
      t.kind.groupDepth depth = 0 ∧ ts = [] ∨
        0 < t.kind.groupDepth depth ∧ ClosesGroups (t.kind.groupDepth depth) ts := by
  constructor
  · intro hcloses
    rcases Nat.eq_zero_or_pos (t.kind.groupDepth depth) with hzero | hpos
    · -- the first token alone closes all groups
      have heven : EvensGroups depth [t] := by
        rw [evensGroups_cons_iff h, hzero]
        rfl
      have hall := hcloses.first [t] ⟨ts, rfl⟩ (List.cons_ne_nil t []) heven
      exact .inl ⟨hzero, (List.cons.inj hall).2.symm⟩
    · refine .inr ⟨hpos, (evensGroups_cons_iff h).mp hcloses.evens, ?_⟩
      intro front hfront _ heven
      have hall := hcloses.first (t :: front) ((List.prefix_cons_inj t).mpr hfront)
        (List.cons_ne_nil t front) ((evensGroups_cons_iff h).mpr heven)
      exact (List.cons.inj hall).2
  · rintro (⟨hzero, rfl⟩ | ⟨hpos, hcloses⟩)
    · refine ⟨?_, ?_⟩
      · rw [evensGroups_cons_iff h, hzero]
        rfl
      · intro front hfront hne _
        exact ((List.prefix_cons_iff.mp hfront).resolve_left hne).elim fun us hus => by
          rw [hus.1, List.prefix_nil.mp hus.2]
    · refine ⟨(evensGroups_cons_iff h).mpr hcloses.evens, ?_⟩
      intro front hfront hne heven
      obtain ⟨us, rfl, hus⟩ := (List.prefix_cons_iff.mp hfront).resolve_left hne
      rw [evensGroups_cons_iff h] at heven
      have hne' : us ≠ [] := by
        rintro rfl
        exact absurd heven (by simp [EvensGroups]; omega)
      rw [hcloses.first us hus hne' heven]

/-- It takes a token to close a group. -/
theorem ClosesGroups.ne_nil (h : ClosesGroups depth ts) (hdepth : 0 < depth) : ts ≠ [] := by
  rintro rfl
  exact absurd h.evens (Nat.ne_of_gt hdepth)

end Groups

namespace Decorator

/-! ## Argument lists -/

/-- The decorator with more tokens put behind it. Line ends are left out. -/
def taking (d : Decorator) (ts : List Token) : Decorator :=
  ⟨Text.attachAll .spaced d.text ((ts.filter (!·.isNewline)).map Token.word),
    d.span.over (ts.filter (!·.isNewline))⟩

/-- Tokens are taken in one row after the other. -/
theorem taking_append (d : Decorator) (ts us : List Token) :
    d.taking (ts ++ us) = (d.taking ts).taking us := by
  simp only [taking, List.filter_append, List.map_append, Text.attachAll_append, Span.over_append]

/-- One token of an argument list is taken in. -/
theorem readArguments_cons {depth : Nat} {t : Token} (h : 0 < depth ∨ t.kind.opensGroup = true)
    (d : Decorator) (ts : List Token) :
    readArguments d depth (t :: ts) =
      if t.kind.groupDepth depth = 0 then some (d.taking [t], ts)
      else readArguments (d.taking [t]) (t.kind.groupDepth depth) ts := by
  by_cases hn : t.isNewline = true
  · have hkind : t.kind = .newline := by simpa [Token.isNewline] using hn
    have hdepth : 0 < depth := h.resolve_right (by simp [hkind, Token.Kind.opensGroup])
    have htake : d.taking [t] = d := by
      rw [taking, List.filter_cons_of_neg (by simp [hn])]
      rfl
    have hsame : t.kind.groupDepth depth = depth := by
      rw [hkind]
      rfl
    rw [readArguments, if_pos hn, hsame, if_neg (Nat.ne_of_gt hdepth), htake]
  · have htake : d.taking [t] = ⟨Text.attach .spaced d.text t.text, d.span.merge t.span⟩ := by
      rw [taking, List.filter_cons_of_pos (by simp [hn])]
      rfl
    rw [readArguments, if_neg hn, htake]

/-- The tokens of an argument list are those up to where all groups are closed. -/
theorem readArguments_eq_some_iff {d d' : Decorator} {depth : Nat} {ts rest : List Token}
    (h : 0 < depth ∨ ∀ t ∈ ts.head?, t.kind.opensGroup = true) :
    readArguments d depth ts = some (d', rest) ↔
      ∃ args, ts = args ++ rest ∧ args ≠ [] ∧ ClosesGroups depth args ∧ d' = d.taking args := by
  induction ts generalizing d depth with
  | nil => simp +contextual [readArguments]
  | cons t ts ih =>
    have hfirst : 0 < depth ∨ t.kind.opensGroup = true := h.imp_right fun hhead => hhead t rfl
    rw [readArguments_cons hfirst]
    constructor
    · intro hread
      split at hread
      · next hzero =>
        obtain ⟨rfl, rfl⟩ := Prod.mk.inj (Option.some.inj hread)
        exact ⟨[t], rfl, List.cons_ne_nil t [],
          (closesGroups_cons_iff hfirst).mpr (.inl ⟨hzero, rfl⟩), rfl⟩
      · next hzero =>
        have hpos := Nat.pos_of_ne_zero hzero
        obtain ⟨args, rfl, -, hcloses, rfl⟩ := (ih (.inl hpos)).mp hread
        exact ⟨t :: args, rfl, List.cons_ne_nil t args,
          (closesGroups_cons_iff hfirst).mpr (.inr ⟨hpos, hcloses⟩), (taking_append d [t] args).symm⟩
    · rintro ⟨args, hts, hne, hcloses, rfl⟩
      obtain ⟨u, args, rfl⟩ := List.exists_cons_of_ne_nil hne
      rw [List.cons_append, List.cons.injEq] at hts
      obtain ⟨rfl, rfl⟩ := hts
      rcases (closesGroups_cons_iff hfirst).mp hcloses with ⟨hzero, rfl⟩ | ⟨hpos, hcloses⟩
      · rw [if_pos hzero, List.nil_append]
      · rw [if_neg (Nat.ne_of_gt hpos), ih (.inl hpos)]
        exact ⟨args, rfl, hcloses.ne_nil hpos, hcloses, taking_append d [t] args⟩

/-- The tokens go on with an argument list, which may never be closed. -/
def BeginsArguments (ts : List Token) : Prop :=
  ∃ paren rest, ts = paren :: rest ∧ paren.kind = .openParen

/-- The reader looks for arguments by the next token. -/
theorem any_head?_iff {ts : List Token} :
    ts.head?.any (·.kind = .openParen) = true ↔ BeginsArguments ts := by
  cases ts with
  | nil => simp [BeginsArguments]
  | cons t ts => simp [BeginsArguments]

namespace BeginsArguments

variable {ts : List Token}

/-- The first token of an argument list opens a group. -/
theorem opensGroup (h : BeginsArguments ts) : ∀ t ∈ ts.head?, t.kind.opensGroup = true := by
  obtain ⟨paren, rest, rfl, hparen⟩ := h
  intro t ht
  rw [← Option.some.inj ht, hparen]
  rfl

/-- An argument list has a first token. -/
theorem ne_nil (h : BeginsArguments ts) : ts ≠ [] := by
  obtain ⟨paren, rest, rfl, -⟩ := h
  exact List.cons_ne_nil paren rest

/-- What begins an argument list does so with more tokens behind it. -/
theorem append (h : BeginsArguments ts) (rest : List Token) : BeginsArguments (ts ++ rest) := by
  obtain ⟨paren, inner, rfl, hparen⟩ := h
  exact ⟨paren, inner ++ rest, rfl, hparen⟩

/-- Whether an argument list begins is told by the first token. -/
theorem of_append {rest : List Token} (h : BeginsArguments (ts ++ rest)) (hne : ts ≠ []) :
    BeginsArguments ts := by
  obtain ⟨paren, inner, rfl⟩ := List.exists_cons_of_ne_nil hne
  obtain ⟨paren', inner', hts, hparen⟩ := h
  rw [← (List.cons.inj hts).1] at hparen
  exact ⟨paren, inner, rfl, hparen⟩

end BeginsArguments

/-- An argument list: from a parenthesis on, up to where as many groups are closed as opened. -/
def IsArguments (args : List Token) : Prop :=
  BeginsArguments args ∧ ClosesGroups 0 args

/-- The last token of an argument list closes a group, so it ends no line. -/
theorem IsArguments.exists_last {args : List Token} (h : IsArguments args) :
    ∃ front last, args = front ++ [last] ∧ last.isNewline = false := by
  obtain ⟨⟨paren, inner, rfl, hparen⟩, hcloses⟩ := h
  obtain ⟨front, last, hargs⟩ := List.eq_nil_or_concat (paren :: inner)
    |>.resolve_left (List.cons_ne_nil paren inner)
  rw [List.concat_eq_append] at hargs
  refine ⟨front, last, hargs, ?_⟩
  by_contra hlast
  have hkind : last.kind = .newline := by simpa [Token.isNewline] using hlast
  -- a line end opens and closes nothing, so the list would be closed in front of it already
  have heven : EvensGroups 0 front := by
    have heven := hcloses.evens
    rw [hargs, EvensGroups, List.countP_append, List.countP_append] at heven
    simpa [EvensGroups, hkind, Token.Kind.opensGroup, Token.Kind.closesGroup] using heven
  cases front with
  | nil =>
    rw [(List.cons.inj hargs).1, hkind] at hparen
    exact absurd hparen (by decide)
  | cons t front =>
    have hall := hcloses.first (t :: front) ⟨[last], hargs.symm⟩ (List.cons_ne_nil t front) heven
    rw [hargs] at hall
    exact absurd hall (by simp)

/-! ## Dotted names -/

/-- The parts of a dotted name behind its first one. -/
inductive Dots : List Token → Prop
  | nil : Dots []
  | cons {dot name : Token} {ts : List Token} (hdot : dot.text = ".") (hname : name.kind = .ident)
      (rest : Dots ts) : Dots (dot :: name :: ts)

/-- The parts of a dotted name are dots and names. -/
theorem Dots.dot_or_name {ts : List Token} (h : Dots ts) {t : Token} (ht : t ∈ ts) :
    t.text = "." ∨ t.kind = .ident := by
  induction h with
  | nil => exact absurd ht List.not_mem_nil
  | cons hdot hname _ ih =>
    simp only [List.mem_cons] at ht
    rcases ht with rfl | rfl | ht
    · exact .inl hdot
    · exact .inr hname
    · exact ih ht

/-- The tokens go on with a part of a dotted name. -/
def BeginsPart (ts : List Token) : Prop :=
  ∃ dot name rest, ts = dot :: name :: rest ∧ dot.text = "." ∧ name.kind = .ident

/-- A part of a dotted name is a dot and a name. -/
theorem beginsPart_cons_iff {dot name : Token} {rest : List Token} :
    BeginsPart (dot :: name :: rest) ↔ dot.text = "." ∧ name.kind = .ident := by
  simp [BeginsPart]

/-- The decorator with the parts of a dotted name put behind it. -/
def dotted (d : Decorator) (ts : List Token) : Decorator :=
  ⟨ts.foldl (fun text t => text ++ t.text) d.text, d.span.over ts⟩

/-- The parts of a dotted name are read as far as they go. By induction along the parts. -/
theorem readDots_eq_iff {d d' : Decorator} {ts rest : List Token} :
    readDots d ts = (d', rest) ↔
      ∃ dots, ts = dots ++ rest ∧ Dots dots ∧ ¬ BeginsPart rest ∧ d' = d.dotted dots := by
  fun_induction readDots d ts with
  | case1 d dot name ts hpart ih =>
    rw [ih]
    constructor
    · rintro ⟨dots, rfl, hdots, hend, rfl⟩
      exact ⟨dot :: name :: dots, rfl, .cons hpart.1 hpart.2 hdots, hend, rfl⟩
    · rintro ⟨dots, hts, hdots, hend, rfl⟩
      cases hdots with
      | nil =>
        -- stopping before a further part is what `hend` excludes
        rw [List.nil_append] at hts
        exact absurd (hts ▸ beginsPart_cons_iff.mpr hpart) hend
      | cons hdot hname hdots =>
        simp only [List.cons_append, List.cons.injEq] at hts
        obtain ⟨rfl, rfl, rfl⟩ := hts
        exact ⟨_, rfl, hdots, hend, rfl⟩
  | case2 d dot name ts hpart =>
    constructor
    · intro h
      obtain ⟨rfl, rfl⟩ := Prod.mk.inj h
      exact ⟨[], rfl, .nil, fun hend => hpart (beginsPart_cons_iff.mp hend), rfl⟩
    · rintro ⟨dots, hts, hdots, hend, rfl⟩
      cases hdots with
      | nil => exact Prod.ext rfl hts
      | cons hdot hname hdots =>
        simp only [List.cons_append, List.cons.injEq] at hts
        obtain ⟨rfl, rfl, rfl⟩ := hts
        exact absurd ⟨hdot, hname⟩ hpart
  | case3 d ts hshort =>
    constructor
    · intro h
      obtain ⟨rfl, rfl⟩ := Prod.mk.inj h
      refine ⟨[], rfl, .nil, ?_, rfl⟩
      rintro ⟨dot, name, rest, hts, -⟩
      exact hshort dot name rest hts
    · rintro ⟨dots, hts, hdots, hend, rfl⟩
      cases hdots with
      | nil => exact Prod.ext rfl hts
      | cons hdot hname hdots => exact absurd hts (hshort _ _ _)

/-! ## The form of a decorator -/

/-- The tokens of a decorator by what they are. -/
structure Form where
  sign : Token
  name : Token
  dots : List Token
  args : List Token

namespace Form

/-- The tokens behind the sign. -/
def body (f : Form) : List Token :=
  f.name :: (f.dots ++ f.args)

/-- There is a name behind the sign. -/
theorem body_ne_nil (f : Form) : f.body ≠ [] :=
  List.cons_ne_nil _ _

/-- The tokens in their order. -/
def tokens (f : Form) : List Token :=
  f.sign :: f.body

/-- The tokens are a decorator in front of the rest: the name begins where the sign ends, no part of
the dotted name is left over, and neither is an argument list. -/
structure Stands (f : Form) (rest : List Token) : Prop where
  sign : f.sign.kind = .atSign
  name : f.name.kind = .ident
  adjacent : f.name.span.start = f.sign.span.stop
  dots : Dots f.dots
  complete : ¬ BeginsPart (f.args ++ rest)
  args : f.args = [] ∧ ¬ BeginsArguments rest ∨ IsArguments f.args

/-- The decorator that the tokens are: the joined text behind the sign without line ends, and the span
from the sign to the last token. -/
def decorator (f : Form) : Decorator :=
  ⟨Token.joined .spaced (f.body.filter (!·.isNewline)),
    ⟨f.sign.span.start, (f.body.getLast f.body_ne_nil).span.stop⟩⟩

/-- The decorator as it is put together while it is read. -/
def assembled (f : Form) : Decorator :=
  (dotted ⟨f.name.text, f.sign.span.merge f.name.span⟩ f.dots).taking f.args

end Form

/-- **A decorator is read exactly where its form stands.** -/
theorem read?_eq_some_iff {d : Decorator} {ts rest : List Token} :
    read? ts = some (d, rest) ↔
      ∃ f : Form, ts = f.tokens ++ rest ∧ f.Stands rest ∧ d = f.assembled := by
  constructor
  · intro h
    obtain ⟨sign, name, ts, rfl⟩ : ∃ sign name us, ts = sign :: name :: us := by
      rcases ts with _ | ⟨sign, _ | ⟨name, ts⟩⟩
      · exact absurd h (by simp [read?])
      · exact absurd h (by simp [read?])
      · exact ⟨sign, name, ts, rfl⟩
    by_cases hsign : sign.kind = .atSign ∧ name.kind = .ident ∧ name.span.start = sign.span.stop
    · obtain ⟨⟨d₁, rest₁⟩, hread⟩ :
        ∃ r, readDots ⟨name.text, sign.span.merge name.span⟩ ts = r := ⟨_, rfl⟩
      obtain ⟨dots, rfl, hdots, hend, rfl⟩ := readDots_eq_iff.mp hread
      rw [read?_of_readDots hsign hread] at h
      split at h
      · next hparen =>
        have hbegins := any_head?_iff.mp hparen
        obtain ⟨args, rfl, hne, hcloses, rfl⟩ :=
          (readArguments_eq_some_iff (.inr hbegins.opensGroup)).mp h
        refine ⟨⟨sign, name, dots, args⟩, by simp [Form.tokens, Form.body],
          ⟨hsign.1, hsign.2.1, hsign.2.2, hdots, hend, .inr ⟨?_, hcloses⟩⟩, rfl⟩
        exact hbegins.of_append hne
      · next hparen =>
        obtain ⟨rfl, rfl⟩ := Prod.mk.inj (Option.some.inj h)
        exact ⟨⟨sign, name, dots, []⟩, by simp [Form.tokens, Form.body],
          ⟨hsign.1, hsign.2.1, hsign.2.2, hdots, hend, .inl ⟨rfl, mt any_head?_iff.mpr hparen⟩⟩, rfl⟩
    · rw [read?, if_neg hsign] at h
      exact absurd h (by simp)
  · rintro ⟨f, rfl, h, rfl⟩
    have hdotted : dotted ⟨f.name.text, f.sign.span.merge f.name.span⟩ f.dots = _ := rfl
    have hread := readDots_eq_iff.mpr ⟨f.dots, rfl, h.dots, h.complete, hdotted.symm⟩
    rw [Form.tokens, Form.body, List.cons_append, List.cons_append, List.append_assoc,
      read?_of_readDots ⟨h.sign, h.name, h.adjacent⟩ hread]
    rcases h.args with ⟨hargs, hbegins⟩ | ⟨hbegins, hcloses⟩
    · rw [hargs, List.nil_append, if_neg (mt any_head?_iff.mp hbegins), Form.assembled, hargs]
      rfl
    · have hbegins' := hbegins.append rest
      rw [if_pos (any_head?_iff.mpr hbegins'), readArguments_eq_some_iff (.inr hbegins'.opensGroup)]
      exact ⟨f.args, rfl, hbegins.ne_nil, hcloses, rfl⟩

/-! ## Forms in a source -/

end Decorator

/-- Tokens one behind the other reach from the first to the last. -/
theorem Span.over_of_pairwise {span : Span} {ts : List Token}
    (hfirst : span.start ≤ span.stop ∧ ∀ t ∈ ts, span.stop ≤ t.span.start)
    (hpair : ts.Pairwise fun t u => t.span.stop ≤ u.span.start)
    (hspan : ∀ t ∈ ts, t.span.start < t.span.stop) :
    span.over ts = ⟨span.start, (ts.getLast?.map (·.span.stop)).getD span.stop⟩ := by
  induction ts generalizing span with
  | nil => rfl
  | cons t ts ih =>
    obtain ⟨hbehind, hpair⟩ := List.pairwise_cons.mp hpair
    have hle := hfirst.2 t List.mem_cons_self
    have hlt := hspan t List.mem_cons_self
    have hmerge : span.merge t.span = ⟨span.start, t.span.stop⟩ := by
      rw [merge, Nat.min_eq_left (by omega), Nat.max_eq_right (by omega)]
    have hfirst' : span.start ≤ t.span.stop := by omega
    have hover : Span.over ⟨span.start, t.span.stop⟩ ts = _ :=
      ih ⟨hfirst', hbehind⟩ hpair fun u hu => hspan u (List.mem_cons_of_mem t hu)
    rw [over_cons, hmerge, hover, List.getLast?_cons]
    cases ts.getLast? with
    | none => rfl
    | some u => rfl

namespace Text

/-- Nothing is put between two texts if one of the characters that meet is of no word. -/
theorem attach_eq_append {style : CommaStyle} {written text : String}
    (hlast : written.toList.getLast? ≠ some ',')
    (hword : (∀ c ∈ written.toList.getLast?, isWordChar c = false) ∨
      ∀ c ∈ text.toList.head?, isWordChar c = false) :
    attach style written text = written ++ text := by
  rw [attach_eq, if_neg]
  cases hl : written.toList.getLast? with
  | none => simp [wantsSpace]
  | some last =>
    cases hf : text.toList.head? with
    | none => simp [wantsSpace]
    | some first =>
      have hcomma : last ≠ ',' := fun h => hlast (by rw [hl, h])
      rw [wantsSpace, if_neg hcomma, Bool.and_eq_true, not_and_or, Bool.not_eq_true,
        Bool.not_eq_true]
      exact hword.imp (fun h => h last hl) fun h => h first hf

/-- A name does not end in a comma. -/
theorem getLast?_append_ne_comma {text : String} (h : isName text = true) (written : String) :
    (written ++ text).toList.getLast? ≠ some ',' := by
  intro hlast
  have hne : text.toList ≠ [] := by
    intro hnil
    rw [isName, hnil] at h
    exact absurd h (by simp)
  rw [String.toList_append, List.getLast?_append_of_ne_nil _ hne] at hlast
  exact Name.comma_not_mem ⟨text, h⟩ (List.mem_of_getLast? hlast)

end Text

namespace Decorator

/-- The parts of a dotted name are joined without spaces. -/
theorem Dots.attachAll_eq {dots : List Token} (h : Dots dots)
    (hnames : ∀ t ∈ dots, t.kind = .ident → Text.isName t.text = true) {written : String}
    (hlast : written.toList.getLast? ≠ some ',') :
    Text.attachAll .spaced written (dots.map Token.word) =
      dots.foldl (fun text t => text ++ t.text) written := by
  induction h generalizing written with
  | nil => rfl
  | @cons dot name ts hdot hname rest ih =>
    have hpoint : Text.isWordChar '.' = false := by decide +kernel
    have hname' := hnames name (by simp) hname
    have hfirst : Text.attach .spaced written dot.text = written ++ dot.text := by
      refine Text.attach_eq_append hlast (.inr fun c hc => ?_)
      have hc' : some '.' = some c := by simpa [hdot] using hc
      rw [← Option.some.inj hc', hpoint]
    have hsecond : Text.attach .spaced (written ++ dot.text) name.text =
        written ++ dot.text ++ name.text := by
      have hend : (written ++ dot.text).toList.getLast? = some '.' := by
        rw [hdot, String.toList_append]
        exact List.getLast?_concat
      refine Text.attach_eq_append (by rw [hend]; decide) (.inl fun c hc => ?_)
      rw [hend] at hc
      rw [← Option.some.inj hc, hpoint]
    rw [List.map_cons, List.map_cons, Text.attachAll_cons, Text.attachAll_cons]
    show Text.attachAll _ (Text.attach _ (Text.attach _ _ dot.text) name.text) _ = _
    rw [hfirst, hsecond, ih (fun t ht => hnames t (by simp [ht]))
      (Text.getLast?_append_ne_comma hname' _)]
    rfl

namespace Form

variable {source : String} {tokens : List Token} {f : Form} {rest : List Token}

/-- In a source a dotted name does not reach over a line end. -/
theorem newline_not_mem_dots (hscan : Token.scan source = .ok tokens) (hrow : f.tokens <:+: tokens)
    (h : f.Stands rest) : ∀ t ∈ f.dots, t.kind ≠ .newline := by
  intro t ht hkind
  rcases h.dots.dot_or_name ht with hdot | hname
  · have hmem : t ∈ tokens := hrow.subset (by simp [Form.tokens, body, ht])
    have hline := ((Token.Woven.of_scanFrom hscan).piece hmem).newline_iff.mp hkind
    rw [hdot] at hline
    exact absurd hline (by decide)
  · rw [hkind] at hname
    exact absurd hname (by decide)

/-- Line ends are left out of the arguments only. -/
theorem filter_body (h : f.Stands rest) (hdots : ∀ t ∈ f.dots, t.kind ≠ .newline) :
    f.body.filter (!·.isNewline) = f.name :: (f.dots ++ f.args.filter (!·.isNewline)) := by
  have hname : f.name.isNewline = false := by simp [Token.isNewline, h.name]
  have hdots' : f.dots.filter (!·.isNewline) = f.dots := by
    rw [List.filter_eq_self]
    intro t ht
    simp [Token.isNewline, hdots t ht]
  rw [body, List.filter_cons_of_pos (by simp [hname]), List.filter_append, hdots']

/-- The last token ends no line. -/
theorem getLast?_filter_body (h : f.Stands rest) (hdots : ∀ t ∈ f.dots, t.kind ≠ .newline) :
    (f.body.filter (!·.isNewline)).getLast? = f.body.getLast? := by
  rw [filter_body h hdots, body]
  rcases h.args with ⟨hargs, -⟩ | hargs
  · rw [hargs]
    rfl
  · obtain ⟨front, last, hargs, hlast⟩ := hargs.exists_last
    simp [hargs, hlast, List.getLast?_cons, List.getLast?_append]

/-- The text that is put together is the joined text of the tokens. -/
theorem text_assembled (hscan : Token.scan source = .ok tokens) (hrow : f.tokens <:+: tokens)
    (h : f.Stands rest) : f.assembled.text = f.decorator.text := by
  have hmem : ∀ t ∈ f.name :: f.dots, t ∈ tokens := by
    intro t ht
    refine hrow.subset (List.mem_cons_of_mem _ ?_)
    rw [body, ← List.cons_append]
    exact List.mem_append_left _ ht
  have hname := Token.isName_of_mem hscan (hmem f.name List.mem_cons_self) h.name
  have hlast : f.name.text.toList.getLast? ≠ some ',' := by
    simpa using Text.getLast?_append_ne_comma hname ""
  have hdots : Text.attachAll .spaced f.name.text (f.dots.map Token.word) =
      f.dots.foldl (fun text t => text ++ t.text) f.name.text :=
    h.dots.attachAll_eq (fun t ht hkind =>
      Token.isName_of_mem hscan (hmem t (List.mem_cons_of_mem _ ht)) hkind) hlast
  have hfirst : Text.attach .spaced "" f.name.word.text = f.name.text := by
    rw [Text.attach_eq_append (by simp) (.inl (by simp)), String.empty_append]
    rfl
  rw [decorator, Token.joined, filter_body h (newline_not_mem_dots hscan hrow h), List.map_cons,
    Text.attachAll_cons, List.map_append, Text.attachAll_append, hfirst, hdots]
  rfl

/-- The span that is put together reaches from the first token to the last. -/
theorem span_assembled (hscan : Token.scan source = .ok tokens) (hrow : f.tokens <:+: tokens)
    (h : f.Stands rest) : f.assembled.span = f.decorator.span := by
  have hwoven := Token.Woven.of_scanFrom hscan
  have hdots := newline_not_mem_dots hscan hrow h
  have hsub : List.Sublist (f.sign :: f.body.filter (!·.isNewline)) tokens :=
    (List.filter_sublist.cons_cons f.sign).trans hrow.sublist
  obtain ⟨hbehind, hpair⟩ := List.pairwise_cons.mp (hwoven.pairwise.sublist hsub)
  have hover := Span.over_of_pairwise
    ⟨Nat.le_of_lt (hwoven.start_lt_stop (hsub.subset List.mem_cons_self)), hbehind⟩ hpair
    fun t ht => hwoven.start_lt_stop (hsub.subset (List.mem_cons_of_mem _ ht))
  rw [getLast?_filter_body h hdots, List.getLast?_eq_some_getLast f.body_ne_nil,
    filter_body h hdots, Span.over_cons, Span.over_append] at hover
  exact hover

/-- **What is put together while a decorator is read is the joined text of its tokens, and reaches from
the first to the last of them.** -/
theorem assembled_eq (hscan : Token.scan source = .ok tokens) (hrow : f.tokens <:+: tokens)
    (h : f.Stands rest) : f.assembled = f.decorator :=
  calc f.assembled = ⟨f.assembled.text, f.assembled.span⟩ := rfl
    _ = f.decorator := by rw [text_assembled hscan hrow h, span_assembled hscan hrow h]

end Form

/-! ## Rows of decorators -/

/-- Some decorators in front of the rest, with line ends behind each. -/
inductive Leading : List Token → List Form → List Token → Prop
  | nil (ts : List Token) : Leading ts [] ts
  | cons {f : Form} {gap ts : List Token} {fs : List Form} {rest : List Token}
      (stands : f.Stands (gap ++ ts)) (hgap : ∀ t ∈ gap, t.kind = .newline)
      (behind : Leading ts fs rest) : Leading (f.tokens ++ (gap ++ ts)) (f :: fs) rest

/-- What is read is a row of decorators. -/
theorem exists_leading (ts : List Token) :
    ∃ fs, Leading ts fs (readAll ts).2 ∧ (readAll ts).1 = fs.map Form.assembled := by
  induction ts using readAll_induct with
  | stop ts hread =>
    rw [readAll_of_none hread]
    exact ⟨[], .nil ts, rfl⟩
  | more ts d rest hread ih =>
    obtain ⟨fs, hrow, hfs⟩ := ih
    obtain ⟨f, rfl, hstands, rfl⟩ := read?_eq_some_iff.mp hread
    obtain ⟨gap, hgap, hnewlines⟩ := exists_append_skipNewlines rest
    rw [readAll_of_some hread, hfs]
    refine ⟨f :: fs, ?_, rfl⟩
    rw [hgap] at hstands
    nth_rewrite 1 [hgap]
    exact .cons hstands hnewlines hrow

/-- Behind all decorators there is no further one. -/
theorem read?_snd_readAll (ts : List Token) : read? (readAll ts).2 = none := by
  induction ts using readAll_induct with
  | stop ts hread => rw [readAll_of_none hread, hread]
  | more ts d rest hread ih =>
    rw [readAll_of_some hread]
    exact ih

namespace Leading

variable {ts rest : List Token} {fs : List Form}

/-- A row that is not empty begins with a sign, and no line end. -/
theorem skipNewlines_eq (h : Leading ts fs rest) : skipNewlines ts = ts ∨ fs = [] ∧ rest = ts := by
  cases h with
  | nil => exact .inr ⟨rfl, rfl⟩
  | @cons f gap ts fs rest stands hgap behind =>
    refine .inl (skipNewlines_eq_self fun t ht => ?_)
    have hsign : f.sign = t := Option.some.inj ht
    rw [← hsign, stands.sign]
    decide

/-- **No row of decorators reaches further than what is read.** -/
theorem le_readAll (h : Leading ts fs rest) :
    fs.map Form.assembled <+: (readAll ts).1 ∧ (readAll ts).2 <:+ rest := by
  induction h with
  | nil ts => exact ⟨List.nil_prefix, readAll_suffix ts⟩
  | @cons f gap ts fs rest stands hgap behind ih =>
    have hread := read?_eq_some_iff.mpr ⟨f, rfl, stands, rfl⟩
    rw [readAll_of_some hread, skipNewlines_append hgap]
    rcases behind.skipNewlines_eq with hskip | ⟨rfl, rfl⟩
    · rw [hskip]
      exact ⟨(List.prefix_cons_inj f.assembled).mpr ih.1, ih.2⟩
    · exact ⟨(List.prefix_cons_inj f.assembled).mpr List.nil_prefix,
        (readAll_suffix _).trans (List.dropWhile_suffix _)⟩

/-- The tokens of a row of decorators are tokens in front of the rest, in their order. -/
theorem sublist (h : Leading ts fs rest) : List.Sublist (fs.flatMap Form.tokens) ts := by
  induction h with
  | nil ts => exact List.nil_sublist ts
  | cons stands hgap behind ih =>
    rw [List.flatMap_cons]
    exact (List.Sublist.refl _).append (ih.trans (List.sublist_append_right _ _))

/-- Each decorator of a row stands somewhere in the tokens. -/
theorem stands_of_mem (h : Leading ts fs rest) {f : Form} (hf : f ∈ fs) :
    f.tokens <:+: ts ∧ ∃ behind, f.Stands behind := by
  induction h with
  | nil ts => exact absurd hf List.not_mem_nil
  | cons stands hgap behind ih =>
    rcases List.mem_cons.mp hf with rfl | hf
    · exact ⟨(List.prefix_append _ _).isInfix, _, stands⟩
    · obtain ⟨hrow, hstands⟩ := ih hf
      exact ⟨hrow.trans ((List.suffix_append _ _).trans (List.suffix_append _ _)).isInfix, hstands⟩

/-- In a source the decorators of a row are those that its forms stand for. -/
theorem map_assembled (h : Leading ts fs rest) {source : String} {tokens : List Token}
    (hscan : Token.scan source = .ok tokens) (hrow : ts <:+: tokens) :
    fs.map Form.assembled = fs.map Form.decorator := by
  refine List.map_congr_left fun f hf => ?_
  obtain ⟨hform, rest', hstands⟩ := h.stands_of_mem hf
  exact Form.assembled_eq hscan (hform.trans hrow) hstands

end Leading

/-- A row of decorators in a source has their spans one behind the other. -/
theorem Leading.pairwise_spans {ts rest : List Token} {fs : List Form} (h : Leading ts fs rest)
    {source : String} {tokens : List Token} (hscan : Token.scan source = .ok tokens)
    (hrow : ts <:+: tokens) :
    (fs.map Form.decorator).Pairwise (fun d e => d.span.stop ≤ e.span.start) ∧
      ∀ d ∈ fs.map Form.decorator, d.span.start < d.span.stop := by
  have hwoven := Token.Woven.of_scanFrom hscan
  have hpair := hwoven.pairwise.sublist (h.sublist.trans hrow.sublist)
  obtain ⟨hforms, hapart⟩ := List.pairwise_flatMap.mp hpair
  constructor
  · rw [List.pairwise_map]
    refine hapart.imp fun {f g} hfg => ?_
    exact hfg _ (List.mem_cons_of_mem _ (List.getLast_mem _)) _ List.mem_cons_self
  · intro d hd
    obtain ⟨f, hf, rfl⟩ := List.mem_map.mp hd
    have hlast := List.getLast_mem f.body_ne_nil
    have hle := (List.pairwise_cons.mp (hforms f hf)).1 _ hlast
    have hmem : ∀ t ∈ f.tokens, t ∈ tokens := fun t ht =>
      ((h.stands_of_mem hf).1.trans hrow).subset ht
    have hsign := hwoven.start_lt_stop (hmem f.sign List.mem_cons_self)
    have hstop := hwoven.start_lt_stop (hmem _ (List.mem_cons_of_mem f.sign hlast))
    show f.sign.span.start < (f.body.getLast f.body_ne_nil).span.stop
    omega

/-- **The decorators in front of a declaration.** All that is read at the front of some tokens of a
source is a row of decorators, each with the text and the span of its tokens. No other row reaches
further: it is a part of this one. So nothing is read a second time, and the spans are one behind the
other.
Source: `collect` and `decorator`. -/
theorem readAll_longest {source : String} {tokens ts rest : List Token} {ds : List Decorator}
    (hscan : Token.scan source = .ok tokens) (hrow : ts <:+: tokens)
    (hread : readAll ts = (ds, rest)) :
    (∃ fs, Leading ts fs rest ∧ ds = fs.map Form.decorator) ∧
      (∀ fs' rest', Leading ts fs' rest' → fs'.map Form.decorator <+: ds ∧ rest <:+ rest') ∧
      readAll rest = ([], rest) ∧
      ds.Pairwise (fun d e => d.span.stop ≤ e.span.start) ∧
      ∀ d ∈ ds, d.span.start < d.span.stop := by
  obtain ⟨fs, hfs, hds⟩ := exists_leading ts
  have hnone := read?_snd_readAll ts
  rw [hread] at hfs hds hnone
  rw [hfs.map_assembled hscan hrow] at hds
  refine ⟨⟨fs, hfs, hds⟩, fun fs' rest' hfs' => ?_, readAll_of_none hnone, ?_⟩
  · have hle := hfs'.le_readAll
    rwa [hfs'.map_assembled hscan hrow, hread] at hle
  · rw [show ds = fs.map Form.decorator from hds]
    exact hfs.pairwise_spans hscan hrow

/-- A dotted name, arguments over several lines, and behind them arguments that are never closed. -/
theorem readAll_longest_of_unclosed :
    let source := "@a.b\n@c(x,\n  [1])\n\n@d.e(2\nfn"
    let tokens := ((Token.scanWithin 60 0 source.toList).bind Except.toOption).getD []
    let ds : List Decorator := [⟨"a.b", ⟨0, 4⟩⟩, ⟨"c(x, [1])", ⟨5, 17⟩⟩]
    let rest := tokens.drop 17
    Token.scan source = .ok tokens ∧ readAll tokens = (ds, rest) ∧
      rest.map Token.text = ["@", "d", ".", "e", "(", "2", "\n", "fn"] ∧
      (∃ fs, Leading tokens fs rest ∧ ds = fs.map Form.decorator) ∧
      (∀ fs' rest', Leading tokens fs' rest' → fs'.map Form.decorator <+: ds ∧ rest <:+ rest') ∧
      readAll rest = ([], rest) := by
  intro source tokens ds rest
  have hscan : Token.scan source = .ok tokens := Token.scan_of_scanWithin 60 (by decide +kernel)
  have hread : readAll tokens = (ds, rest) := by decide +kernel
  obtain ⟨hrow, hlongest, hagain, -⟩ := readAll_longest hscan (List.infix_refl tokens) hread
  exact ⟨hscan, hread, by decide +kernel, hrow, hlongest, hagain⟩

end Decorator

end FuncDecl
