import FuncDecl.Proofs.Token.Layout
import FuncDecl.Proofs.Token.Lexemes
import Mathlib.Data.List.Chain

/-!
# Joined tokens

`Text.attach` keeps words apart by looking at two characters, the last one written and the first one
to come. Cutting goes by the kind of a word: a name goes on with other characters than a number
does. The two agree with one exception.

* `Word.Phrased`: the words of names, numbers, strings, commas and brackets.
* `Word.RunsInto w w'`: the first word is a number that ends with a dot, and the second one begins
  with a character that numbers go on with. To `attach` the dot is no part of a word.
* `Word.Phrased.stands_iff`: **a word stands in front of the next one** with what `attach` puts
  between them, unless it runs into it. Each sort of word has its own lemma
  (`Word.Phrased.stands_name`, `Word.Phrased.stands_number_spaced_iff`).
* `Token.CutsInto.joined_iff`: joined words are cut into the same words exactly if none runs into
  the next one. By induction on the words.
* `Token.scan_joined_iff`: **joined tokens are cut into the same words again, unless a number runs
  into the next token**.
-/

namespace FuncDecl

/-- Whether tokens of this kind are names, numbers, strings, commas or brackets of groups. -/
def Token.Kind.isPhrased : Token.Kind → Bool
  | ident | number | str | comma => true
  | openParen | closeParen | openBracket | closeBracket | openBrace | closeBrace => true
  | _ => false

/-! ## Characters of numbers -/

/-- A number goes on with parts of words and with dots. -/
theorem isWordChar_of_isNumberChar {c : Char} (h : isNumberChar c = true) (hdot : c ≠ '.') :
    Text.isWordChar c = true := by
  have hascii : c.toNat < 128 := by
    delta isNumberChar Char.isAlphanum Char.isAlpha Char.isUpper Char.isLower Char.isDigit at h
    simp only [Bool.or_eq_true, Bool.and_eq_true, decide_eq_true_eq, beq_iff_eq,
      UInt32.le_iff_toNat_le] at h
    rcases h with (((h | h) | h) | rfl) | rfl
    · exact Nat.lt_of_le_of_lt h.2 (by decide)
    · exact Nat.lt_of_le_of_lt h.2 (by decide)
    · exact Nat.lt_of_le_of_lt h.2 (by decide)
    · decide
    · decide
  have hall : ∀ n < 128, isNumberChar (Char.ofNat n) = true → n ≠ 46 →
      Text.isWordChar (Char.ofNat n) = true := by decide +kernel
  have hc := hall c.toNat hascii
  rw [Char.ofNat_toNat] at hc
  exact hc h fun hn => hdot ((Char.ofNat_toNat c).symm.trans (congrArg Char.ofNat hn))

namespace Word

/-! ## Words that are joined -/

/-- The words of names, numbers, strings, commas and brackets. -/
inductive Phrased : Word → Prop
  | name (n : Name) : Phrased n.word
  | number {c : Char} {cs : List Char} (hc : c.isDigit = true)
      (hcs : ∀ x ∈ cs, isNumberChar x = true) : Phrased ⟨.number, String.ofList (c :: cs)⟩
  | quoted (q : Quoted) : Phrased q.word
  | mark {w : Word} (h : w ∈ groupMarks) : Phrased w

/-- The first word is a number that ends with a dot, and the second one begins with a character that
numbers go on with. -/
def RunsInto (w w' : Word) : Prop :=
  w.kind = .number ∧ w.chars.getLast? = some '.' ∧ w'.chars.head?.any isNumberChar = true

instance (w w' : Word) : Decidable (w.RunsInto w') :=
  inferInstanceAs (Decidable (_ ∧ _ ∧ _))

/-- The space that `Text.attach` puts between two words. -/
def spaceBetween (style : Text.CommaStyle) (w w' : Word) : List Char :=
  if Text.wantsSpace style w.chars.getLast? w'.chars.head? then [' '] else []

variable {w w' : Word}

/-- No word begins with a dot. -/
theorem Phrased.exists_ne_dot (h : w.Phrased) : ∃ c cs, w.chars = c :: cs ∧ c ≠ '.' := by
  cases h with
  | name n =>
    obtain ⟨c, cs, hc, hstart, -⟩ := n.exists_chars
    refine ⟨c, cs, hc, ?_⟩
    rintro rfl
    exact absurd hstart (by decide +kernel)
  | @number c cs hc hcs =>
    refine ⟨c, cs, String.toList_ofList, ?_⟩
    rintro rfl
    exact absurd hc (by decide)
  | quoted q =>
    refine ⟨q.quote, q.body ++ [q.quote], String.toList_ofList, ?_⟩
    rcases q.isQuote with hq | hq <;> rw [hq] <;> decide
  | mark hmark =>
    have hall : ∀ w ∈ groupMarks, w.chars.any fun c => w.chars = [c] ∧ c ≠ '.' := by decide +kernel
    simp only [List.any_eq_true, decide_eq_true_eq] at hall
    obtain ⟨c, -, hc, hdot⟩ := hall w hmark
    exact ⟨c, [], hc, hdot⟩

/-- A word begins with a part of a word or with a character that goes on with none. -/
theorem Phrased.exists_first (h : w.Phrased) :
    ∃ c cs, w.chars = c :: cs ∧
      (Text.isWordChar c = false → Text.isNameChar c = false ∧ isNumberChar c = false) := by
  obtain ⟨c, cs, hc, hdot⟩ := h.exists_ne_dot
  refine ⟨c, cs, hc, fun hword => ⟨?_, ?_⟩⟩
  · rw [Text.isWordChar, Bool.or_eq_false_iff, Bool.or_eq_false_iff] at hword
    exact hword.1.1
  · rw [← Bool.not_eq_true]
    intro hnumber
    rw [isWordChar_of_isNumberChar hnumber hdot] at hword
    exact absurd hword (by simp)

/-- A word has characters. -/
theorem Phrased.chars_ne_nil (h : w.Phrased) : w.chars ≠ [] := by
  obtain ⟨c, cs, hc, -⟩ := h.exists_first
  rw [hc]
  exact List.cons_ne_nil c cs

/-! ## Where a word stands -/

/-- A number stands exactly where the text does not go on with it. -/
theorem stands_number_iff {c : Char} {cs : List Char} (hc : c.isDigit = true)
    (hcs : ∀ x ∈ cs, isNumberChar x = true) (rest : List Char) :
    Stands ⟨.number, String.ofList (c :: cs)⟩ rest ↔ ∀ x ∈ rest.head?, isNumberChar x = false := by
  constructor
  · rintro ⟨d, ds, hchars, hnext⟩ x hx
    obtain ⟨rfl, rfl⟩ := List.cons.inj (String.toList_ofList.symm.trans hchars)
    rw [Lexeme.next_of_isDigit hc, List.dropWhile_append_of_pos hcs] at hnext
    obtain ⟨-, -, hdrop⟩ := Lexeme.token.inj hnext
    have hhead := List.head?_dropWhile_not isNumberChar rest
    rw [hdrop, hx] at hhead
    simpa using hhead
  · exact fun hrest => stands_of_number rfl String.toList_ofList hc hcs hrest

/-- Commas and brackets stand in front of every text. -/
theorem stands_of_mem_groupMarks (h : w ∈ groupMarks) (rest : List Char) : w.Stands rest := by
  have hall : ∀ w ∈ groupMarks, w.chars.any fun c => w.chars = [c] ∧
      singleMarks.lookup c = some w.kind ∧ c ≠ '~' ∧ ∀ entry ∈ pairMarks, entry.1.1 ≠ c := by
    decide +kernel
  simp only [List.any_eq_true, decide_eq_true_eq] at hall
  obtain ⟨c, -, hc, hkind, htilde, hpair⟩ := hall w h
  refine stands_of_singleMark hc hkind (fun d _ => ?_) fun ht => htilde ht.1
  exact lookup_pairMarks_eq_none fun entry hentry he => absurd he (hpair entry hentry)

/-- A part of a word behind another one is kept apart from it. -/
theorem head?_spaceBetween {style : Text.CommaStyle} {last first : Char} {cs : List Char}
    (hlast : w.chars.getLast? = some last) (hword : Text.isWordChar last = true)
    (hfirst : w'.chars = first :: cs) (rest : List Char) {x : Char}
    (hx : x ∈ (spaceBetween style w w' ++ (w'.chars ++ rest)).head?) :
    x = ' ' ∨ x = first ∧ Text.isWordChar x = false := by
  have hcomma : last ≠ ',' := by
    rintro rfl
    exact absurd hword (by decide +kernel)
  rw [spaceBetween, hlast, hfirst, List.head?_cons, Text.wantsSpace, if_neg hcomma, hword,
    Bool.true_and] at hx
  cases hsecond : Text.isWordChar first with
  | true =>
    rw [if_pos hsecond] at hx
    exact .inl (Option.some.inj hx).symm
  | false =>
    rw [if_neg (by rw [hsecond]; simp)] at hx
    obtain rfl : first = x := Option.some.inj hx
    exact .inr ⟨rfl, hsecond⟩

/-- No space is put behind a dot. -/
theorem spaceBetween_of_dot (hlast : w.chars.getLast? = some '.') (w' : Word)
    (style : Text.CommaStyle) : spaceBetween style w w' = [] := by
  have hcomma : '.' ≠ ',' := by decide
  have hword : Text.isWordChar '.' = false := by decide +kernel
  rw [spaceBetween, hlast]
  cases w'.chars.head? with
  | none => rfl
  | some first =>
    rw [Text.wantsSpace, if_neg hcomma, hword, Bool.false_and]
    rfl

/-- A name stands in front of the next word. -/
theorem Phrased.stands_name (h' : w'.Phrased) (n : Name) (style : Text.CommaStyle)
    (rest : List Char) : n.word.Stands (spaceBetween style n.word w' ++ (w'.chars ++ rest)) := by
  obtain ⟨first, cs', hfirst, hgap⟩ := h'.exists_first
  have hall : ∀ x ∈ n.word.chars, Text.isWordChar x = true := by
    obtain ⟨c, cs, hc, hstart, hcs⟩ := n.exists_chars
    rw [hc, List.forall_mem_cons]
    exact ⟨by simp [Text.isWordChar, Text.isNameChar_of_isNameStart hstart],
      fun x hx => by simp [Text.isWordChar, hcs x hx]⟩
  have hne := (Phrased.name n).chars_ne_nil
  have hlast := List.getLast?_eq_some_getLast hne
  refine n.stands fun x hx => ?_
  rcases head?_spaceBetween hlast (hall _ (List.getLast_mem hne)) hfirst rest hx with rfl | ⟨rfl, hx⟩
  · decide +kernel
  · exact (hgap hx).1

/-- A number stands in front of the next word, unless it runs into it. -/
theorem Phrased.stands_number_spaced_iff (h' : w'.Phrased) {c : Char} {cs : List Char}
    (hc : c.isDigit = true) (hcs : ∀ x ∈ cs, isNumberChar x = true) (style : Text.CommaStyle)
    (rest : List Char) :
    Stands ⟨.number, String.ofList (c :: cs)⟩
        (spaceBetween style ⟨.number, String.ofList (c :: cs)⟩ w' ++ (w'.chars ++ rest)) ↔
      ¬RunsInto ⟨.number, String.ofList (c :: cs)⟩ w' := by
  obtain ⟨first, cs', hfirst, hgap⟩ := h'.exists_first
  obtain ⟨last, hlast⟩ : ∃ last, (c :: cs).getLast? = some last := ⟨_, List.getLast?_cons⟩
  have hend : (⟨.number, String.ofList (c :: cs)⟩ : Word).chars.getLast? = some last := by
    rwa [show (⟨.number, String.ofList (c :: cs)⟩ : Word).chars = c :: cs from String.toList_ofList]
  rw [stands_number_iff hc hcs, RunsInto, hend, hfirst]
  by_cases hdot : last = '.'
  · -- no space is put behind the dot, and the text goes on with the first character to come
    subst hdot
    rw [spaceBetween_of_dot hend]
    simp
  · have hnumber : isNumberChar last = true := by
      rcases List.mem_cons.mp (List.mem_of_getLast? hlast) with rfl | hmem
      · simp [isNumberChar, Char.isAlphanum, hc]
      · exact hcs last hmem
    refine iff_of_true (fun x hx => ?_) fun hruns => hdot (Option.some.inj hruns.2.1)
    rw [← hfirst] at hx
    rcases head?_spaceBetween hend (isWordChar_of_isNumberChar hnumber hdot) hfirst rest hx with
      rfl | ⟨rfl, hx⟩
    · decide
    · exact (hgap hx).2

/-- **A word stands in front of the next one** with what `Text.attach` puts between them, unless it is
a number that runs into it. -/
theorem Phrased.stands_iff (h : w.Phrased) (h' : w'.Phrased) (style : Text.CommaStyle)
    (rest : List Char) :
    w.Stands (spaceBetween style w w' ++ (w'.chars ++ rest)) ↔ ¬w.RunsInto w' := by
  cases h with
  | name n =>
    exact iff_of_true (h'.stands_name n style rest) fun hruns => absurd hruns.1 (by simp [Name.word])
  | number hc hcs => exact h'.stands_number_spaced_iff hc hcs style rest
  | quoted q =>
    exact iff_of_true (q.stands _) fun hruns => absurd hruns.1 (by simp [Quoted.word])
  | mark hmark =>
    have hkinds : ∀ w ∈ groupMarks, w.kind ≠ .number := by decide
    exact iff_of_true (stands_of_mem_groupMarks hmark _) fun hruns => hkinds w hmark hruns.1

/-- A word stands at the end of a text. -/
theorem Phrased.stands_nil (h : w.Phrased) : w.Stands [] := by
  cases h with
  | name n => exact n.stands (by simp)
  | number hc hcs => exact (stands_number_iff hc hcs []).mpr (by simp)
  | quoted q => exact q.stands []
  | mark hmark => exact stands_of_mem_groupMarks hmark []

/-- Whatever stands behind the first character of a word, a token is cut off there. -/
theorem Phrased.exists_next (h : w.Phrased) {c : Char} {cs : List Char} (hc : w.chars = c :: cs)
    (rest : List Char) : ∃ kind text rest', Lexeme.next c (cs ++ rest) = .token kind text rest' := by
  have hstands : w.Stands rest →
      ∃ kind text rest', Lexeme.next c (cs ++ rest) = .token kind text rest' := by
    rintro ⟨d, ds, hd, hnext⟩
    obtain ⟨rfl, rfl⟩ := List.cons.inj (hd.symm.trans hc)
    exact ⟨_, _, _, hnext⟩
  cases h with
  | name n =>
    obtain ⟨d, ds, hd, hstart, -⟩ := n.exists_chars
    obtain rfl : d = c := (List.cons.inj (hd.symm.trans hc)).1
    exact ⟨_, _, _, Lexeme.next_of_isNameStart hstart _⟩
  | @number d ds hdigit hds =>
    obtain rfl : d = c := (List.cons.inj (String.toList_ofList.symm.trans hc)).1
    exact ⟨_, _, _, Lexeme.next_of_isDigit hdigit _⟩
  | quoted q => exact hstands (q.stands rest)
  | mark hmark => exact hstands (stands_of_mem_groupMarks hmark rest)

end Word

/-! ## Words that are cut off -/

/-- The text is cut into the words. -/
def Token.CutsInto (offset : Nat) (text : List Char) (ws : List Word) : Prop :=
  ∃ ts, scanFrom offset text = .ok ts ∧ ts.map word = ws

namespace Token.CutsInto

variable {offset : Nat} {style : Text.CommaStyle} {w : Word} {ws : List Word}

/-- The empty text is cut into no words. -/
theorem nil_iff : CutsInto offset [] ws ↔ ws = [] := by
  unfold CutsInto
  rw [scanFrom]
  constructor
  · rintro ⟨ts, hts, rfl⟩
    rw [← Except.ok.inj hts]
    rfl
  · rintro rfl
    exact ⟨[], rfl, rfl⟩

/-- A word is cut off from the front of a text if and only if it stands there. -/
theorem cons_iff (hw : w.Phrased) (rest : List Char) :
    CutsInto offset (w.chars ++ rest) (w :: ws) ↔
      w.Stands rest ∧ CutsInto (offset + Text.byteLength w.chars) rest ws := by
  constructor
  · rintro ⟨ts, hscan, hwords⟩
    obtain ⟨c, cs, hc⟩ := List.exists_cons_of_ne_nil hw.chars_ne_nil
    obtain ⟨kind, text, rest', hnext⟩ := hw.exists_next hc rest
    have hsplit := Lexeme.splits_next c (cs ++ rest)
    rw [hnext, ← List.cons_append, ← hc] at hsplit
    rw [hc, List.cons_append, scanFrom_of_token hnext] at hscan
    cases hrest : scanFrom (offset + Text.byteLength text) rest' with
    | error fault =>
      rw [hrest] at hscan
      cases hscan
    | ok us =>
      rw [hrest, prepend_ok] at hscan
      obtain rfl := Except.ok.inj hscan
      obtain ⟨hword, hbehind⟩ := List.cons.inj hwords
      obtain rfl : text = w.chars := by
        rw [← hword]
        exact String.toList_ofList.symm
      obtain rfl : rest' = rest := List.append_cancel_left hsplit.2
      obtain rfl : kind = w.kind := congrArg Word.kind hword
      exact ⟨⟨c, cs, hc, hnext⟩, us, hrest, hbehind⟩
  · rintro ⟨hstands, us, hscan, hwords⟩
    refine ⟨_, (scanFrom_of_stands hstands offset).trans (by rw [hscan, prepend_ok]), ?_⟩
    exact congrArg (w :: ·) hwords

/-- A space in front of the text is skipped. -/
theorem space_iff (gap : Bool) (text : List Char) :
    CutsInto offset ((if gap then [' '] else []) ++ text) ws ↔
      CutsInto (offset + if gap then 1 else 0) text ws := by
  cases gap with
  | false => exact Iff.rfl
  | true =>
    have hblank : Text.isBlank ' ' = true := by decide +kernel
    unfold CutsInto
    rw [if_pos rfl, List.singleton_append, scanFrom_blank hblank (by decide)]
    rfl

/-- **Joined words** are cut into the same words if and only if none runs into the next one. -/
theorem joined_iff (h : ∀ w ∈ ws, w.Phrased) (last : Option Char) :
    CutsInto offset (Layout.joined style last ws).text ws ↔
      ws.IsChain fun w w' => ¬w.RunsInto w' := by
  induction ws generalizing offset last with
  | nil => exact iff_of_true (nil_iff.mpr rfl) .nil
  | cons w ws ih =>
    rw [List.forall_mem_cons] at h
    rw [Layout.joined, Layout.text, space_iff, cons_iff h.1, ih h.2]
    cases ws with
    | nil => exact iff_of_true ⟨h.1.stands_nil, .nil⟩ (List.isChain_singleton w)
    | cons w' ws =>
      rw [List.forall_mem_cons] at h
      rw [List.isChain_cons_cons, ← h.1.stands_iff h.2.1 style
        (Layout.joined style w'.chars.getLast? ws).text]
      rfl

end Token.CutsInto

/-! ## Tokens of a source -/

/-- What is found as a name, a number, a string, a comma or a bracket is spelled like one. -/
theorem Lexeme.Found.phrased {c : Char} {cs text rest : List Char} {kind : Token.Kind}
    (h : Found c cs (token kind text rest)) (hkind : kind.isPhrased = true) :
    Word.Phrased ⟨kind, String.ofList text⟩ := by
  cases h with
  | newline => exact absurd hkind (by decide)
  | name hc => exact .name ⟨_, isName_text (.name hc)⟩
  | number hc => exact .number hc fun x hx => List.mem_takeWhile_imp hx
  | string hc hclose =>
    obtain ⟨inner, rfl, hinner⟩ := exists_stringBody_of_closeString hclose
    exact .quoted ⟨c, inner, hc, hinner⟩
  | pair hc hcs hlookup =>
    have hall : ∀ entry ∈ pairMarks, entry.2.isPhrased = false := by decide
    rw [hall _ (mem_of_lookup hlookup)] at hkind
    exact absurd hkind (by simp)
  | single hlookup =>
    have hall : ∀ entry ∈ singleMarks, entry.2.isPhrased = true →
        (⟨entry.2, String.ofList [entry.1]⟩ : Word) ∈ Word.groupMarks := by decide +kernel
    exact .mark (hall _ (mem_of_lookup hlookup) hkind)

namespace Token

/-- A token of a source of one of these kinds has such a word. -/
theorem phrased_of_mem {source : String} {ts : List Token} (h : scan source = .ok ts) {t : Token}
    (ht : t ∈ ts) (hkind : t.kind.isPhrased = true) : t.word.Phrased := by
  obtain ⟨c, cs, rest, hnext⟩ := exists_next_of_mem_scanFrom h ht
  have hfound := Lexeme.found_next c cs
  rw [hnext] at hfound
  have hphrased := hfound.phrased hkind
  rwa [String.ofList_toList] at hphrased

/-- **Joined tokens are cut into the same words again, unless a number runs into the next token.** Of
names, numbers, strings, commas and brackets that were cut off from any sources, the joined text has
the same kinds and texts in the same order if and only if no number that ends with a dot stands in
front of a token that begins with a character that numbers go on with. This holds in both styles.
Source: `is_word`, `append_token` and `lex`. -/
theorem scan_joined_iff {ts : List Token}
    (htaken : ∀ t ∈ ts, ∃ source us, scan source = .ok us ∧ t ∈ us)
    (hkinds : ∀ t ∈ ts, t.kind.isPhrased = true) (style : Text.CommaStyle) :
    (∃ us, scan (ts.foldl (fun written t => Text.attach style written t.text) "") = .ok us ∧
        us.map word = ts.map word) ↔
      ts.IsChain fun t u => ¬t.word.RunsInto u.word := by
  have hphrased : ∀ w ∈ ts.map word, w.Phrased := by
    rw [List.forall_mem_map]
    intro t ht
    obtain ⟨source, us, hscan, hmem⟩ := htaken t ht
    exact phrased_of_mem hscan hmem (hkinds t ht)
  have htext : (ts.foldl (fun written t => Text.attach style written t.text) "").toList =
      (Layout.joined style none (ts.map word)).text := by
    have hall := Text.toList_attachAll style "" fun w hw => (hphrased w hw).chars_ne_nil
    rwa [Text.attachAll, List.foldl_map, String.toList_empty, List.nil_append] at hall
  have hcuts : CutsInto 0 (Layout.joined style none (ts.map word)).text (ts.map word) ↔ _ :=
    CutsInto.joined_iff hphrased none
  rw [← htext, List.isChain_map] at hcuts
  exact hcuts

/-- Numbers with a dot at their end in front of a letter that is not of ASCII, a string and a bracket,
and a string with a comma at its end. -/
theorem scan_joined_iff_of_dots :
    let source := "f(1. é 2. 'x,' _a 3.e, \x7b4.])"
    let ts : List Token := [⟨.ident, "f", ⟨0, 1⟩⟩, ⟨.openParen, "(", ⟨1, 2⟩⟩, ⟨.number, "1.", ⟨2, 4⟩⟩,
      ⟨.ident, "é", ⟨5, 7⟩⟩, ⟨.number, "2.", ⟨8, 10⟩⟩, ⟨.str, "'x,'", ⟨11, 15⟩⟩,
      ⟨.ident, "_a", ⟨16, 18⟩⟩, ⟨.number, "3.e", ⟨19, 22⟩⟩, ⟨.comma, ",", ⟨22, 23⟩⟩,
      ⟨.openBrace, "\x7b", ⟨24, 25⟩⟩, ⟨.number, "4.", ⟨25, 27⟩⟩, ⟨.closeBracket, "]", ⟨27, 28⟩⟩,
      ⟨.closeParen, ")", ⟨28, 29⟩⟩]
    scan source = .ok ts ∧ (∀ t ∈ ts, t.kind.isPhrased = true) ∧
      (ts.IsChain fun t u => ¬t.word.RunsInto u.word) ∧
      ts.foldl (fun written t => Text.attach .spaced written t.text) "" =
        "f(1.é 2.'x,' _a 3.e, \x7b4.])" ∧
      ∃ us, scan "f(1.é 2.'x,' _a 3.e, \x7b4.])" = .ok us ∧ us.map word = ts.map word := by
  intro source ts
  have hscan : scan source = .ok ts := scan_of_scanWithin 40 (by decide +kernel)
  have hkinds : ∀ t ∈ ts, t.kind.isPhrased = true := by decide
  have htext : ts.foldl (fun written t => Text.attach .spaced written t.text) "" =
      "f(1.é 2.'x,' _a 3.e, \x7b4.])" := by decide +kernel
  have hchain : ts.IsChain fun t u => ¬t.word.RunsInto u.word := by decide +kernel
  have hsame := (scan_joined_iff (fun t ht => ⟨source, ts, hscan, ht⟩) hkinds .spaced).mpr hchain
  rw [htext] at hsame
  exact ⟨hscan, hkinds, hchain, htext, hsame⟩

/-- A number with a dot at its end and a name: their joined text is one number. -/
theorem not_scan_joined_of_dot :
    let source := "1. a"
    let ts : List Token := [⟨.number, "1.", ⟨0, 2⟩⟩, ⟨.ident, "a", ⟨3, 4⟩⟩]
    scan source = .ok ts ∧ (∀ t ∈ ts, t.kind.isPhrased = true) ∧
      ∀ style, ts.foldl (fun written t => Text.attach style written t.text) "" = "1.a" ∧
        scan "1.a" = .ok [⟨.number, "1.a", ⟨0, 3⟩⟩] ∧
        ¬∃ us, scan (ts.foldl (fun written t => Text.attach style written t.text) "") = .ok us ∧
          us.map word = ts.map word := by
  intro source ts
  have hscan : scan source = .ok ts := scan_of_scanWithin 9 (by decide +kernel)
  have hjoined : scan "1.a" = .ok [⟨.number, "1.a", ⟨0, 3⟩⟩] := scan_of_scanWithin 9 (by decide +kernel)
  refine ⟨hscan, by decide, fun style => ?_⟩
  have htext : ts.foldl (fun written t => Text.attach style written t.text) "" = "1.a" := by
    cases style <;> decide +kernel
  refine ⟨htext, hjoined, ?_⟩
  rintro ⟨us, hus, hwords⟩
  rw [htext, hjoined] at hus
  rw [← Except.ok.inj hus] at hwords
  exact absurd hwords (by decide)

end Token

end FuncDecl
