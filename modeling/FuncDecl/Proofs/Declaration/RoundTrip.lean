import FuncDecl.Proofs.Declaration.Reading
import FuncDecl.Proofs.Declaration.Scanning
import Mathlib.Data.List.Nodup

/-!
# Printed declarations are read back

The tokens of a printed declaration are read as the header that the declaration stands for. Places
are not followed.

* `Decorator.unplaced` and `Header.unplaced`: what is read, without its places.
* `Decoration.exists_read?`: a printed decorator is read up to the end of its line, from its dotted
  name (`Decorator.exists_readDots`) and its arguments (`Phrase.exists_readArguments`).
* `Decoration.Printed.exists_readAll`: so are printed decorators up to the token behind them.
* `Keywords.Proper.find?_spelling` and `Keywords.Proper.find?_function`: modifiers and the keyword
  are told apart.
* `Declaration.readReturnType_words`: a printed return type is read up to the mark that ends the
  header.
* `Declaration.exists_read`: **printed declarations are read back**.
-/

namespace FuncDecl

/-! ## Decorators -/

/-- No comma is in a name. -/
theorem Name.comma_not_mem (n : Name) : ',' ∉ n.text.toList := by
  obtain ⟨c, cs, hchars, hstart, hcs⟩ := n.exists_chars
  have hcomma : Text.isNameChar ',' = false := by decide +kernel
  rw [show n.text.toList = c :: cs from hchars, List.mem_cons, not_or]
  refine ⟨?_, fun hmem => ?_⟩
  · rintro rfl
    rw [Text.isNameChar_of_isNameStart hstart] at hcomma
    exact absurd hcomma (by simp)
  · rw [hcs ',' hmem] at hcomma
    exact absurd hcomma (by simp)

namespace Decorator

/-- A dotted name ends in front of a token that is no dot. -/
theorem readDots_of_head {rest : List Token} (h : ∀ t ∈ rest.head?, t.text ≠ ".") (d : Decorator) :
    readDots d rest = (d, rest) := by
  unfold readDots
  split
  · exact if_neg fun hdot => h _ rfl hdot.1
  · rfl

/-- The parts of a dotted name are read up to a token that is no dot. -/
theorem exists_readDots (names : List Name) {ts : List Token}
    (h : ts.map Token.word = names.flatMap fun n => [.dot, n.word]) (d : Decorator)
    (rest : List Token) (hrest : ∀ t ∈ rest.head?, t.text ≠ ".") :
    ∃ d', readDots d (ts ++ rest) = (d', rest) ∧
      d'.text.toList = d.text.toList ++
        Layout.text (names.flatMap fun n => [(false, .dot), (false, n.word)]) ∧
      (',' ∉ d.text.toList → ',' ∉ d'.text.toList) := by
  induction names generalizing ts d with
  | nil =>
    obtain rfl := List.map_eq_nil_iff.mp h
    exact ⟨d, readDots_of_head hrest d, (List.append_nil _).symm, id⟩
  | cons n names ih =>
    obtain ⟨sd, us, rfl, hus⟩ := Token.exists_cons_of_words h
    obtain ⟨sn, vs, rfl, hvs⟩ := Token.exists_cons_of_words hus
    obtain ⟨d', hread, htext, hcomma⟩ :=
      ih hvs ⟨d.text ++ "." ++ n.text, (d.span.merge sd).merge sn⟩
    refine ⟨d', ?_, ?_, fun hd => hcomma ?_⟩
    · rw [List.cons_append, List.cons_append, readDots, if_pos ⟨rfl, rfl⟩]
      exact hread
    · rw [htext]
      simp [Layout.text, Word.chars, Word.dot, Name.word]
    · simp [hd, n.comma_not_mem]

/-- A token that leaves a group open is taken in. -/
theorem readArguments_of_succ {t : Token} (hline : t.kind ≠ .newline) {depth depth' : Nat}
    (h : t.kind.groupDepth depth = depth' + 1) (d : Decorator) (ts : List Token) :
    readArguments d depth (t :: ts) =
      readArguments ⟨Text.attach .spaced d.text t.text, d.span.merge t.span⟩ (depth' + 1) ts := by
  rw [readArguments, if_neg (by simp [Token.isNewline, hline])]
  simp only [h]
  rfl

/-- A token that closes the last group is taken in and ends the arguments. -/
theorem readArguments_of_zero {t : Token} (hline : t.kind ≠ .newline) {depth : Nat}
    (h : t.kind.groupDepth depth = 0) (d : Decorator) (ts : List Token) :
    readArguments d depth (t :: ts) =
      some (⟨Text.attach .spaced d.text t.text, d.span.merge t.span⟩, ts) := by
  rw [readArguments, if_neg (by simp [Token.isNewline, hline])]
  simp only [h]
  rfl

end Decorator

/-- Inside an argument list a phrase is taken in. -/
theorem Phrase.readArguments (p : Phrase) {ts : List Token} (h : ts.map Token.word = p.words)
    (d : Decorator) (depth : Nat) (rest : List Token) :
    Decorator.readArguments d (depth + 1) (ts ++ rest) =
      Decorator.readArguments ⟨Text.attachAll .spaced d.text p.words, d.span.over ts⟩ (depth + 1)
        rest := by
  induction p generalizing ts d depth rest with
  | nil =>
    obtain rfl := List.map_eq_nil_iff.mp h
    rfl
  | atom a more ih =>
    rw [words] at h
    obtain ⟨sa, us, rfl, hus⟩ := Token.exists_cons_of_words h
    have hline : (a.word.at sa).kind ≠ .newline := by
      rw [Word.at]
      rcases a.kind_word with h | h | h <;> simp [h]
    rw [List.cons_append, Decorator.readArguments_of_succ hline (a.groupDepth _), ih hus]
    rfl
  | comma more ih =>
    rw [words] at h
    obtain ⟨sc, us, rfl, hus⟩ := Token.exists_cons_of_words h
    rw [List.cons_append, Decorator.readArguments_of_succ (by simp [Word.at, Word.comma]) rfl,
      ih hus]
    rfl
  | group b inside more ihin ih =>
    rw [words] at h
    obtain ⟨so, us, rfl, hus⟩ := Token.exists_cons_of_words h
    obtain ⟨front, closing, rfl, hfront, hclosing⟩ := List.map_eq_append_iff.mp hus
    obtain ⟨sc, vs, rfl, hvs⟩ := Token.exists_cons_of_words hclosing
    rw [List.cons_append,
      Decorator.readArguments_of_succ b.kind_opening.1 (b.groupDepth_opening (depth + 1)),
      List.append_assoc, ihin hfront, List.cons_append,
      Decorator.readArguments_of_succ b.kind_closing (b.groupDepth_closing (depth + 1 + 1)), ih hvs,
      words, Text.attachAll_cons, Text.attachAll_append, Text.attachAll_cons, Span.over_cons,
      Span.over_append, Span.over_cons]
    rfl

/-- A parenthesis is never kept apart from the name in front of it. -/
theorem Layout.joined_openParen {last : Option Char} (h : last ≠ some ',') (ws : List Word) :
    joined .spaced last (.openParen :: ws) = joined .spaced none (.openParen :: ws) := by
  have hparen : Text.isWordChar '(' = false := by decide +kernel
  have hspace : Text.wantsSpace .spaced last Word.openParen.chars.head? = false := by
    cases last with
    | none => rfl
    | some c =>
      have hc : c ≠ ',' := fun hc => h (by rw [hc])
      show Text.wantsSpace .spaced (some c) (some '(') = false
      rw [Text.wantsSpace, if_neg hc, hparen, Bool.and_false]
  rw [joined, joined, hspace]
  rfl

/-- An argument list is read up to its closing parenthesis. -/
theorem Phrase.exists_readArguments (p : Phrase) {ts : List Token}
    (h : ts.map Token.word = p.enclosed.words) {d : Decorator} (hlast : ',' ∉ d.text.toList)
    (rest : List Token) :
    ∃ d', Decorator.readArguments d 0 (ts ++ rest) = some (d', rest) ∧
      d'.text.toList = d.text.toList ++ p.enclosed.text := by
  rw [enclosed, Layout.words_joined] at h
  obtain ⟨so, us, rfl, hus⟩ := Token.exists_cons_of_words h
  obtain ⟨inside, closing, rfl, hinside, hclosing⟩ := List.map_eq_append_iff.mp hus
  obtain ⟨sc, vs, rfl, hvs⟩ := Token.exists_cons_of_words hclosing
  obtain rfl := List.map_eq_nil_iff.mp hvs
  have hread : Decorator.readArguments d 0
      (Word.openParen.at so :: (inside ++ [Word.closeParen.at sc]) ++ rest) =
        some (⟨Text.attachAll .spaced d.text (.openParen :: (p.words ++ [.closeParen])),
          ((d.span.merge so).over inside).merge sc⟩, rest) := by
    rw [List.cons_append, Decorator.readArguments_of_succ Bracket.round.kind_opening.1 rfl,
      List.append_assoc, p.readArguments hinside, List.singleton_append,
      Decorator.readArguments_of_zero Bracket.round.kind_closing rfl, Text.attachAll_cons,
      Text.attachAll_append]
    rfl
  refine ⟨_, hread, ?_⟩
  have hplain : ∀ w ∈ Word.openParen :: (p.words ++ [.closeParen]), w.chars ≠ [] := by
    rw [List.forall_mem_cons, List.forall_mem_append, List.forall_mem_singleton]
    exact ⟨by decide, fun w hw => (p.plain_words w hw).chars_ne_nil, by decide⟩
  rw [Text.toList_attachAll .spaced d.text hplain,
    Layout.joined_openParen fun hc => hlast (List.mem_of_getLast? hc)]
  rfl

/-- The decorator without its place. -/
def Decorator.unplaced (d : Decorator) : Decorator :=
  { d with span := default }

/-- The sign and the name behind it are adjacent; of the other words only the texts matter. -/
theorem Decoration.exists_place (x : Decoration) (offset : Nat) :
    ∃ sign name dots args, x.layout.place offset =
        Word.atSign.at sign :: x.head.word.at name :: (dots ++ args) ∧
      name.start = sign.stop ∧ dots.map Token.word = x.tail.flatMap (fun n => [.dot, n.word]) ∧
      args.map Token.word = ((x.args.map Phrase.enclosed).getD []).words := by
  obtain ⟨sign, name, more, hplace, hadjacent, hmore⟩ : ∃ sign name more,
      x.layout.place offset = Word.atSign.at sign :: x.head.word.at name :: more ∧
      name.start = sign.stop ∧ more.map Token.word =
        x.tail.flatMap (fun n => [.dot, n.word]) ++ ((x.args.map Phrase.enclosed).getD []).words := by
    refine ⟨_, _, _, rfl, rfl, ?_⟩
    rw [Layout.word_place, Layout.words_append, Layout.words, List.map_flatMap]
    rfl
  obtain ⟨dots, args, rfl, hdots, hargs⟩ := List.map_eq_append_iff.mp hmore
  exact ⟨sign, name, dots, args, hplace, hadjacent, hdots, hargs⟩

/-- The text of a decorator, part by part. -/
theorem Decoration.text_bare (x : Decoration) :
    x.bare.text = x.head.text.toList ++
      Layout.text (x.tail.flatMap fun n => [(false, .dot), (false, n.word)]) ++
        Layout.text ((x.args.map Phrase.enclosed).getD []) := by
  rw [bare, Layout.text, Layout.text_append, List.append_assoc]
  rfl

/-- A decorator is what it is printed as, if it has the text. -/
theorem Decoration.unplaced_eq (x : Decoration) {d : Decorator}
    (h : d.text.toList = x.bare.text) : d.unplaced = x.decorator := by
  rw [Decorator.unplaced, decorator, text, ← h, String.ofList_toList]

/-- A printed decorator is read up to the end of its line. -/
theorem Decoration.exists_read? (x : Decoration) (offset : Nat) (rest : List Token)
    (hrest : ∀ t ∈ rest.head?, t.word = .newline) :
    ∃ d, Decorator.read? (x.layout.place offset ++ rest) = some (d, rest) ∧
      d.unplaced = x.decorator := by
  obtain ⟨sign, name, dots, args, hplace, hadjacent, hdots, hargs⟩ := x.exists_place offset
  have hbare := x.text_bare
  rw [hplace, List.cons_append, List.cons_append, List.append_assoc]
  cases hx : x.args with
  | none =>
    rw [hx] at hargs hbare
    obtain rfl := List.map_eq_nil_iff.mp hargs
    rw [List.nil_append]
    obtain ⟨d, hread, hd, -⟩ := Decorator.exists_readDots x.tail hdots
      ⟨x.head.text, sign.merge name⟩ rest (fun t ht => by
        rw [show t.text = "\n" from congrArg Word.text (hrest t ht)]
        decide)
    refine ⟨d, ?_, x.unplaced_eq (by rw [hd, hbare]; exact (List.append_nil _).symm)⟩
    -- what follows is a newline or nothing, so no arguments are read
    rw [Decorator.read?_of_readDots ⟨rfl, rfl, hadjacent⟩ hread, if_neg]
    cases hr : rest.head? with
    | none => simp
    | some t => simp [show t.kind = .newline from congrArg Word.kind (hrest t hr)]
  | some v =>
    rw [hx] at hargs hbare
    obtain ⟨so, us, rfl, -⟩ : ∃ so us, args = Word.openParen.at so :: us ∧ _ :=
      Token.exists_cons_of_words hargs
    obtain ⟨d, hread, hd, hcomma⟩ := Decorator.exists_readDots x.tail hdots
      ⟨x.head.text, sign.merge name⟩ (Word.openParen.at so :: us ++ rest) (by
        rintro t ⟨⟩
        show Word.openParen.text ≠ "."
        decide)
    obtain ⟨d', hread', hd'⟩ := v.exists_readArguments hargs (hcomma x.head.comma_not_mem) rest
    refine ⟨d', ?_, x.unplaced_eq (by rw [hd', hd, hbare]; rfl)⟩
    rw [Decorator.read?_of_readDots ⟨rfl, rfl, hadjacent⟩ hread]
    exact (if_pos rfl).trans hread'

/-! ### Lines of decorators -/

/-- The tokens are those of printed decorators, each on a line of its own. -/
inductive Decoration.Printed : List Decoration → List Token → Prop
  | nil : Printed [] []
  | cons {x : Decoration} {xs : List Decoration} {ts : List Token} {newline : Token} (offset : Nat)
      (hnewline : newline.word = .newline) (rest : Printed xs ts) :
      Printed (x :: xs) (x.layout.place offset ++ newline :: ts)

/-- Decorators on lines of their own are cut into their words. -/
theorem Decoration.cutInto_lines {margin : List Char} (hmargin : Text.IsMargin margin)
    (xs : List Decoration) :
    Text.CutInto (xs.flatMap fun x => printLine margin x.layout.text) (Printed xs) := by
  induction xs with
  | nil => exact .nil .nil
  | cons x xs ih =>
    refine ((Text.cutInto_layout hmargin x.fits_layout).append ih).mono ?_
    rintro _ ⟨_, ts, rfl, ⟨_, newline, rfl, hnewline, offset, rfl⟩, hts⟩
    rw [List.append_assoc, List.singleton_append]
    exact .cons offset hnewline hts

/-- Printed decorators are read up to the token behind them. -/
theorem Decoration.Printed.exists_readAll {xs : List Decoration} {ts : List Token}
    (h : Printed xs ts) {head : List Token} (hhead : ∀ t ∈ head.head?, t.kind = .ident) :
    ∃ ds, Decorator.readAll (skipNewlines (ts ++ head)) = (ds, head) ∧
      ds.map Decorator.unplaced = xs.map Decoration.decorator := by
  induction h with
  | nil =>
    refine ⟨[], ?_, rfl⟩
    rw [List.nil_append, skipNewlines_eq_self fun t ht => by simp [hhead t ht],
      Decorator.readAll_of_none (Decorator.read?_eq_none fun t ht => by simp [hhead t ht])]
  | cons offset hnewline rest ih =>
    next x xs ts newline =>
    obtain ⟨ds, hall, hds⟩ := ih
    obtain ⟨d, hread, hd⟩ := x.exists_read? offset (newline :: (ts ++ head))
      (by rintro t ⟨⟩; exact hnewline)
    refine ⟨d :: ds, ?_, by rw [List.map_cons, List.map_cons, hd, hds]⟩
    rw [List.append_assoc, List.cons_append, skipNewlines_eq_self, Decorator.readAll_of_some hread,
      skipNewlines_cons_of_newline (congrArg Word.kind hnewline), hall]
    rintro t ⟨⟩
    simp [Word.atSign]

/-! ## Modifiers -/

namespace Keywords.Proper

variable {k : Keywords} (hk : k.Proper)
include hk

/-- The modifiers stand in the table that is read by, each under its spelling. -/
theorem entries_reading : k.reading.entries = Modifier.all.map fun m => (k.spelling m, m) := by
  refine Table.entries_ofList_of_nodup ?_
  rw [List.map_map]
  exact List.Nodup.map (fun m m' h => hk.spelling_injective m m' h) (by decide)

/-- A modifier is found under its spelling. By induction on the modifiers. -/
theorem lookup_spelling {m : Modifier} {ms : List Modifier} (hm : m ∈ ms) :
    (ms.map fun m => (k.spelling m, m)).lookup (k.spelling m) = some m := by
  induction ms with
  | nil => exact absurd hm List.not_mem_nil
  | cons m' ms ih =>
    rw [List.map_cons, Table.lookup_cons_eq]
    by_cases h : k.spelling m = k.spelling m'
    · rw [if_pos h, hk.spelling_injective m m' h]
    · rw [if_neg h]
      refine ih ((List.mem_cons.mp hm).resolve_left ?_)
      rintro rfl
      exact h rfl

/-- Every modifier is read back from its spelling. -/
theorem find?_spelling (m : Modifier) : k.reading.find? (k.spelling m) = some m := by
  rw [Table.find?, hk.entries_reading]
  exact hk.lookup_spelling (by cases m <;> decide)

/-- The function keyword is no modifier. -/
theorem find?_function : k.reading.find? k.function = none := by
  rw [Table.find?, hk.entries_reading, List.lookup_eq_none_iff]
  intro entry hentry
  obtain ⟨m, -, rfl⟩ := List.mem_map.mp hentry
  rw [bne_iff_ne]
  exact (hk.spelling_ne_function m).symm

/-- Modifiers that are spelled out are read up to the keyword. By induction on the modifiers. -/
theorem readModifiers_spelling (ms : List Modifier) {ts : List Token}
    (h : ts.map Token.word = ms.map (.modifier k)) {rest : List Token}
    (hrest : ∀ t ∈ rest.head?, t.word = .function k) :
    readModifiers k.reading (ts ++ rest) = (ms, rest) := by
  induction ms generalizing ts with
  | nil =>
    obtain rfl := List.map_eq_nil_iff.mp h
    rw [List.nil_append]
    cases rest with
    | nil => rfl
    | cons t rest =>
      have htext : t.text = k.function := congrArg Word.text (hrest t rfl)
      rw [readModifiers, htext, hk.find?_function]
  | cons m ms ih =>
    obtain ⟨sm, us, rfl, hus⟩ := Token.exists_cons_of_words h
    have hfind : k.reading.find? ((Word.modifier k m).at sm).text = some m := hk.find?_spelling m
    rw [List.cons_append, readModifiers, hfind]
    simp only [ih hus]

end Keywords.Proper

/-! ## The header -/

/-- The word of a function is read as its name. -/
theorem FunctionWord.ofToken?_word (f : FunctionWord) (span : Span) :
    FunctionName.ofToken? (f.word.at span) = some ⟨f.registered, span, f.glyph?⟩ := by
  cases f with
  | name n => exact if_pos rfl
  | operator glyph method h =>
    have hall : ∀ entry ∈ operatorMethods, operatorMethods.lookup entry.1 = some entry.2 := by decide
    have hkind : glyphKind glyph ≠ .ident := by
      unfold glyphKind
      split_ifs <;> simp
    refine (if_neg hkind).trans ?_
    show Option.map _ (operatorMethods.lookup glyph) = _
    rw [hall (glyph, method) h]
    rfl

/-- A printed return type is read up to the mark that ends the header. -/
theorem Declaration.readReturnType_words (d : Declaration) {ts : List Token}
    (h : ts.map Token.word = d.returnWords) (ending : HeaderEnd) (span : Span) :
    readReturnType (ts ++ [ending.word.at span]) =
      .ok (d.returnType.map TypeExpr.text, [ending.word.at span]) := by
  rw [returnWords] at h
  cases hd : d.returnType with
  | none =>
    rw [hd] at h
    obtain rfl := List.map_eq_nil_iff.mp h
    cases ending <;> rfl
  | some t =>
    rw [hd] at h
    obtain ⟨sa, us, rfl, hus⟩ := Token.exists_cons_of_words h
    have hends : ending.word.kind.endsType = true := by cases ending <;> rfl
    rw [List.cons_append, readReturnType]
    refine (if_pos rfl).trans ?_
    rw [t.run_typeScan hus, TypeScan.run, if_pos ⟨rfl, hends⟩, TypeScan.finish, if_neg (by simp),
      TypeExpr.attachAll_words, if_neg t.text_ne_empty]
    rfl

/-- The header without its places. -/
def Header.unplaced (h : Header) : Header :=
  { h with
    decorators := h.decorators.map Decorator.unplaced
    lead := default
    name := { h.name with span := default } }

namespace Declaration

/-- The tokens of a printed header, part by part. -/
theorem exists_split (d : Declaration) {k : Keywords} {ending : HeaderEnd} {head : List Token}
    (h : head.map Token.word = d.words k ending) :
    ∃ mods sk sn so params sc returns se, head = mods ++ (Word.function k).at sk ::
        d.name.word.at sn :: Word.openParen.at so :: (params ++ Word.closeParen.at sc ::
          (returns ++ [ending.word.at se])) ∧
      mods.map Token.word = d.modifiers.map (.modifier k) ∧
      params.map Token.word = Param.allWords d.params ∧ returns.map Token.word = d.returnWords := by
  rw [words, lead, List.append_assoc] at h
  obtain ⟨mods, t₁, rfl, hmods, h₁⟩ := List.map_eq_append_iff.mp h
  obtain ⟨sk, t₂, rfl, h₂⟩ := Token.exists_cons_of_words h₁
  obtain ⟨sn, t₃, rfl, h₃⟩ := Token.exists_cons_of_words h₂
  obtain ⟨so, t₄, rfl, h₄⟩ := Token.exists_cons_of_words h₃
  obtain ⟨params, t₅, rfl, hparams, h₅⟩ := List.map_eq_append_iff.mp h₄
  obtain ⟨sc, t₆, rfl, h₆⟩ := Token.exists_cons_of_words h₅
  obtain ⟨returns, t₇, rfl, hreturns, h₇⟩ := List.map_eq_append_iff.mp h₆
  obtain ⟨se, t₈, rfl, h₈⟩ := Token.exists_cons_of_words h₇
  obtain rfl := List.map_eq_nil_iff.mp h₈
  exact ⟨mods, sk, sn, so, params, sc, returns, se, rfl, hmods, hparams, hreturns⟩

/-- A printed header begins with a name, which is a modifier or the keyword. -/
theorem exists_head? (d : Declaration) {k : Keywords} {ending : HeaderEnd} {head : List Token}
    (h : head.map Token.word = d.words k ending) :
    ∃ first, head.head? = some first ∧ first.kind = .ident := by
  rw [words, lead] at h
  cases hm : d.modifiers with
  | nil =>
    rw [hm] at h
    obtain ⟨sk, us, rfl, -⟩ := Token.exists_cons_of_words h
    exact ⟨_, rfl, rfl⟩
  | cons m ms =>
    rw [hm] at h
    obtain ⟨sm, us, rfl, -⟩ := Token.exists_cons_of_words h
    exact ⟨_, rfl, rfl⟩

/-- **Printed declarations are read back.** The tokens of the decorators and of the header are read as
the header that the declaration stands for. -/
theorem exists_read (d : Declaration) {k : Keywords} (hk : k.Proper) {ending : HeaderEnd}
    {lines head : List Token} (hlines : Decoration.Printed d.decorations lines)
    (hhead : head.map Token.word = d.words k ending) :
    ∃ h, Header.read (.ofKeywords k) (lines ++ head) = .ok h ∧ h.unplaced = d.header ending := by
  obtain ⟨first, hfirst, hident⟩ := d.exists_head? hhead
  obtain ⟨mods, sk, sn, so, params, sc, returns, se, hsplit, hmods, hparams, hreturns⟩ :=
    d.exists_split hhead
  have hfirst' : ∀ t ∈ head.head?, t = first := fun t ht => Option.some.inj (ht.symm.trans hfirst)
  obtain ⟨ds, hall, hds⟩ := hlines.exists_readAll (fun t ht => by rw [hfirst' t ht, hident])
  refine ⟨⟨ds, d.modifiers, first.span.merge sk, ⟨d.name.registered, sn, d.name.glyph?⟩,
    ⟨d.params.map fun p => (p.name.text, p.info)⟩, d.returnType.map TypeExpr.text, ending⟩, ?_, ?_⟩
  · refine Header.read_eq_ok_iff.mpr ⟨⟨head, (Word.function k).at sk, d.name.word.at sn,
      Word.openParen.at so, params ++ Word.closeParen.at sc :: (returns ++ [ending.word.at se]),
      returns ++ [ending.word.at se], [ending.word.at se]⟩,
      ⟨hall, ?_, ?_, d.name.ofToken?_word sn, rfl, fun stop => ?_,
        d.readReturnType_words hreturns ending se, fun t ht => by rw [hfirst' t ht]; rfl⟩,
      fun stop => ?_⟩
    · rw [hsplit]
      exact hk.readModifiers_spelling d.modifiers hmods (by rintro t ⟨⟩; rfl)
    · simp [Dialect.isFunctionKeyword, Dialect.ofKeywords, Token.isName, Word.at, Word.function]
    · exact Param.run_all d.params hparams rfl stop .empty d.distinct _
    · cases ending <;> rfl
  · rw [Header.unplaced, header, hds]

end Declaration

end FuncDecl
