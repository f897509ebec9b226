import FuncDecl.Proofs.Text.Bytes
import FuncDecl.Proofs.Token.Words

/-!
# Layouts

A layout is a row of words, each with or without a space in front of it.

* `Token.scanFrom_cons`: a text is cut by what stands at its front, from an offset on. The lemmas
  behind it say the same for each sort of lexeme.
* `Token.scanWithin` and `Token.scan_of_scanWithin`: cutting in a number of steps, by which given
  texts are cut by evaluation alone.
* `Layout.text`, `Layout.words` and `Layout.place`: the text of a layout, its words, and its tokens
  from an offset on.
* `Layout.Fits next`: every word stands in front of what follows. **A layout that fits is cut into
  its words** (`Layout.scanFrom_text`).
* `Layout.joined` sets the spaces as `Text.attach` does, so that its text is what `attach` puts
  together (`Text.toList_attachAll`).
* `Word.Plain`: the words that types, default values and arguments are made of. Put together, they
  fit (`Layout.fits_joined`).
-/

namespace FuncDecl

/-! ## Scanning from an offset -/

namespace Token

/-- The tokens of a text behind those in front of it, unless the text has a fault. -/
def prepend (ts : List Token) (scanned : Except LexFault (List Token)) :
    Except LexFault (List Token) :=
  scanned.map (ts ++ ·)

/-- Without tokens in front, nothing is added. -/
@[simp] theorem prepend_nil (scanned : Except LexFault (List Token)) :
    prepend [] scanned = scanned := by
  cases scanned <;> rfl

/-- Tokens in front of tokens. -/
@[simp] theorem prepend_ok (ts us : List Token) : prepend ts (.ok us) = .ok (ts ++ us) := rfl

/-- Tokens that are put in front one after the other. -/
@[simp] theorem prepend_prepend (ts us : List Token) (scanned : Except LexFault (List Token)) :
    prepend ts (prepend us scanned) = prepend (ts ++ us) scanned := by
  cases scanned with
  | error fault => rfl
  | ok vs => rw [prepend_ok, prepend_ok, prepend_ok, List.append_assoc]

/-- A text is cut by what stands at its front. -/
theorem scanFrom_cons (offset : Nat) (c : Char) (cs : List Char) :
    scanFrom offset (c :: cs) =
      match Lexeme.next c cs with
      | .skipped text rest => scanFrom (offset + Text.byteLength text) rest
      | .token kind text rest =>
        prepend [⟨kind, String.ofList text, ⟨offset, offset + Text.byteLength text⟩⟩]
          (scanFrom (offset + Text.byteLength text) rest)
      | .openString text =>
        .error ⟨.unterminatedString, ⟨offset, offset + Text.byteLength text⟩⟩
      | .stray d => .error ⟨.unexpectedCharacter d, ⟨offset, offset + d.utf8Size⟩⟩ := by
  rw [scanFrom]
  split
  · next h => rw [h]
  · next h =>
    rw [h]
    rfl
  · next h => rw [h]
  · next h => rw [h]

/-- The tokens of a text that is cut in at most the given number of steps. A given text is cut in this
way by evaluation alone. -/
def scanWithin : Nat → Nat → List Char → Option (Except LexFault (List Token))
  | _, _, [] => some (.ok [])
  | 0, _, _ :: _ => none
  | steps + 1, offset, c :: cs =>
    match Lexeme.next c cs with
    | .skipped text rest => scanWithin steps (offset + Text.byteLength text) rest
    | .token kind text rest =>
      (scanWithin steps (offset + Text.byteLength text) rest).map
        (prepend [⟨kind, String.ofList text, ⟨offset, offset + Text.byteLength text⟩⟩])
    | .openString text =>
      some (.error ⟨.unterminatedString, ⟨offset, offset + Text.byteLength text⟩⟩)
    | .stray d => some (.error ⟨.unexpectedCharacter d, ⟨offset, offset + d.utf8Size⟩⟩)

/-- A text that is cut within some steps is cut so. By induction on the number of steps. -/
theorem scanFrom_of_scanWithin {steps offset : Nat} {cs : List Char}
    {result : Except LexFault (List Token)} (h : scanWithin steps offset cs = some result) :
    scanFrom offset cs = result := by
  induction steps generalizing offset cs result with
  | zero =>
    cases cs with
    | nil => rw [scanFrom, ← Option.some.inj h]
    | cons c cs => exact absurd h (by simp [scanWithin])
  | succ steps ih =>
    cases cs with
    | nil => rw [scanFrom, ← Option.some.inj h]
    | cons c cs =>
      rw [scanWithin] at h
      rw [scanFrom_cons]
      cases hnext : Lexeme.next c cs with
      | skipped text rest => exact ih (by simpa only [hnext] using h)
      | token kind text rest =>
        simp only [hnext, Option.map_eq_some_iff] at h
        obtain ⟨behind, hbehind, rfl⟩ := h
        exact congrArg (prepend _) (ih hbehind)
      | openString text => exact Option.some.inj (by simpa only [hnext] using h)
      | stray d => exact Option.some.inj (by simpa only [hnext] using h)

/-- The same for a whole source, by which a given source is cut by evaluation. -/
theorem scan_of_scanWithin (steps : Nat) {source : String} {result : Except LexFault (List Token)}
    (h : scanWithin steps 0 source.toList = some result) : scan source = result :=
  scanFrom_of_scanWithin h

/-- A token at the front is put in front of the tokens of the rest. -/
theorem scanFrom_of_token {c : Char} {cs text rest : List Char} {kind : Token.Kind}
    (h : Lexeme.next c cs = .token kind text rest) (offset : Nat) :
    scanFrom offset (c :: cs) =
      prepend [⟨kind, String.ofList text, ⟨offset, offset + Text.byteLength text⟩⟩]
        (scanFrom (offset + Text.byteLength text) rest) := by
  rw [scanFrom_cons, h]

/-- A word is cut off where it stands. -/
theorem scanFrom_of_stands {w : Word} {rest : List Char} (h : w.Stands rest) (offset : Nat) :
    scanFrom offset (w.chars ++ rest) =
      prepend [⟨w.kind, w.text, ⟨offset, offset + Text.byteLength w.chars⟩⟩]
        (scanFrom (offset + Text.byteLength w.chars) rest) := by
  obtain ⟨c, cs, hchars, hnext⟩ := h
  have hscan := scanFrom_of_token hnext offset
  rwa [← List.cons_append, ← hchars, Word.chars, String.ofList_toList] at hscan

/-- A blank or a comment at the front leaves the tokens of the rest. -/
theorem scanFrom_of_skipped {c : Char} {cs text rest : List Char}
    (h : Lexeme.next c cs = .skipped text rest) (offset : Nat) :
    scanFrom offset (c :: cs) = scanFrom (offset + Text.byteLength text) rest := by
  rw [scanFrom_cons, h]

/-- A string that is never closed is a fault over its whole text. -/
theorem scanFrom_of_openString {c : Char} {cs text : List Char}
    (h : Lexeme.next c cs = .openString text) (offset : Nat) :
    scanFrom offset (c :: cs) =
      .error ⟨.unterminatedString, ⟨offset, offset + Text.byteLength text⟩⟩ := by
  rw [scanFrom_cons, h]

/-- A character that begins no token is a fault over that character. -/
theorem scanFrom_of_stray {c d : Char} {cs : List Char} (h : Lexeme.next c cs = .stray d)
    (offset : Nat) :
    scanFrom offset (c :: cs) = .error ⟨.unexpectedCharacter d, ⟨offset, offset + d.utf8Size⟩⟩ := by
  rw [scanFrom_cons, h]

/-- A blank is skipped. -/
theorem scanFrom_blank {c : Char} (h : Text.isBlank c = true) (hn : c ≠ '\n') (offset : Nat)
    (cs : List Char) :
    scanFrom offset (c :: cs) = scanFrom (offset + Text.byteLength [c]) cs :=
  scanFrom_of_skipped (by rw [Lexeme.next, if_neg hn, if_pos h]) offset

/-- A line feed is a token of its own. -/
theorem scanFrom_newline (offset : Nat) (cs : List Char) :
    scanFrom offset ('\n' :: cs) =
      prepend [⟨.newline, "\n", ⟨offset, offset + 1⟩⟩] (scanFrom (offset + 1) cs) :=
  scanFrom_of_token (c := '\n') rfl offset

/-- Blanks are skipped. -/
theorem scanFrom_blanks {margin : List Char} (h : ∀ c ∈ margin, Text.isBlank c = true ∧ c ≠ '\n')
    (offset : Nat) (cs : List Char) :
    scanFrom offset (margin ++ cs) = scanFrom (offset + Text.byteLength margin) cs := by
  induction margin generalizing offset with
  | nil => rfl
  | cons c margin ih =>
    rw [List.forall_mem_cons] at h
    rw [List.cons_append, scanFrom_blank h.1.1 h.1.2, ih h.2, Nat.add_assoc, ← Text.byteLength_append]
    rfl

end Token

/-! ## Layouts -/

/-- Words in a row, each with whether a space stands in front of it. -/
abbrev Layout := List (Bool × Word)

namespace Layout

/-- The text of a layout. -/
def text : Layout → List Char
  | [] => []
  | (gap, w) :: l => (if gap then [' '] else []) ++ (w.chars ++ text l)

/-- The words of a layout. -/
def words (l : Layout) : List Word :=
  l.map Prod.snd

/-- The tokens of a layout whose text begins at an offset. -/
def place (offset : Nat) : Layout → List Token
  | [] => []
  | (gap, w) :: l =>
    let start := offset + if gap then 1 else 0
    let stop := start + Text.byteLength w.chars
    ⟨w.kind, w.text, ⟨start, stop⟩⟩ :: place stop l

/-- The first character of a layout with another character behind it. -/
def first (next : Char) : Layout → Char
  | [] => next
  | (gap, w) :: _ => if gap then ' ' else w.chars.headD ' '

/-- Every word of the layout stands in front of what follows, where another character follows the
layout. -/
def Fits (next : Char) : Layout → Prop
  | [] => True
  | (_, w) :: l => w.Before (first next l) ∧ Fits next l

/-- The tokens of a layout have its words. -/
theorem word_place (offset : Nat) (l : Layout) : (l.place offset).map Token.word = l.words := by
  induction l generalizing offset with
  | nil => rfl
  | cons entry l ih =>
    obtain ⟨gap, w⟩ := entry
    rw [place, List.map_cons, ih]
    rfl

/-- The text of two layouts in a row. -/
theorem text_append (l m : Layout) : text (l ++ m) = l.text ++ m.text := by
  induction l with
  | nil => rfl
  | cons entry l ih =>
    obtain ⟨gap, w⟩ := entry
    rw [List.cons_append, text, text, ih, List.append_assoc, List.append_assoc]

/-- The first character of two layouts in a row. -/
theorem first_append (next : Char) (l m : Layout) :
    first next (l ++ m) = first (first next m) l := by
  cases l with
  | nil => rfl
  | cons entry l => rfl

/-- Two layouts in a row fit if the first one fits in front of the second. -/
theorem fits_append {next : Char} {l m : Layout} :
    Fits next (l ++ m) ↔ Fits (first next m) l ∧ Fits next m := by
  induction l with
  | nil => simp [Fits]
  | cons entry l ih =>
    obtain ⟨gap, w⟩ := entry
    rw [List.cons_append, Fits, Fits, ih, first_append, and_assoc]

/-- The text of a layout that fits begins with its first character. -/
theorem exists_text_eq_first {next : Char} {l : Layout} (h : l.Fits next) (rest : List Char) :
    ∃ cs, l.text ++ next :: rest = l.first next :: cs := by
  cases l with
  | nil => exact ⟨rest, rfl⟩
  | cons entry l =>
    obtain ⟨gap, w⟩ := entry
    cases gap with
    | true => exact ⟨_, rfl⟩
    | false =>
      obtain ⟨c, cs, hc, -⟩ := h.1 []
      refine ⟨cs ++ (text l ++ next :: rest), ?_⟩
      simp [text, first, hc]

/-- **A layout that fits is cut into its words.** -/
theorem scanFrom_text {next : Char} {l : Layout} (h : l.Fits next) (offset : Nat)
    (rest : List Char) :
    Token.scanFrom offset (l.text ++ next :: rest) =
      Token.prepend (l.place offset)
        (Token.scanFrom (offset + Text.byteLength l.text) (next :: rest)) := by
  induction l generalizing offset with
  | nil => exact (Token.prepend_nil _).symm
  | cons entry l ih =>
    obtain ⟨gap, w⟩ := entry
    obtain ⟨cs, hcs⟩ := exists_text_eq_first h.2 rest
    have hspace : Token.scanFrom offset (text ((gap, w) :: l) ++ next :: rest) =
        Token.scanFrom (offset + if gap then 1 else 0) (w.chars ++ (text l ++ next :: rest)) := by
      cases gap with
      | true =>
        have hblank : Text.isBlank ' ' = true := by decide +kernel
        rw [text, List.append_assoc, List.append_assoc]
        exact Token.scanFrom_blank hblank (by decide) offset _
      | false => rw [text, List.append_assoc, List.append_assoc]; rfl
    have hword := Token.scanFrom_of_stands (h.1 cs) (offset + if gap then 1 else 0)
    rw [← hcs, ih h.2, Token.prepend_prepend] at hword
    have hgap : Text.byteLength (if gap then [' '] else []) = if gap then 1 else 0 := by
      cases gap <;> rfl
    rw [hspace, hword, place, text, Text.byteLength_append, Text.byteLength_append, hgap,
      ← Nat.add_assoc, ← Nat.add_assoc]
    rfl

/-! ## Words that are put together -/

/-- Words with the spaces that `Text.attach` puts between them, behind a text that ends with a given
character. -/
def joined (style : Text.CommaStyle) (last : Option Char) : List Word → Layout
  | [] => []
  | w :: ws => (Text.wantsSpace style last w.chars.head?, w) :: joined style w.chars.getLast? ws

/-- Setting spaces leaves the words. -/
theorem words_joined (style : Text.CommaStyle) (last : Option Char) (ws : List Word) :
    (joined style last ws).words = ws := by
  induction ws generalizing last with
  | nil => rfl
  | cons w ws ih => exact congrArg (w :: ·) (ih w.chars.getLast?)

end Layout

/-- The text that is put together from words, behind what is already written. -/
def Text.attachAll (style : CommaStyle) (written : String) (ws : List Word) : String :=
  ws.foldl (fun written w => attach style written w.text) written

/-- What is put together is the text of the layout. -/
theorem Text.toList_attachAll (style : CommaStyle) (written : String) {ws : List Word}
    (h : ∀ w ∈ ws, w.chars ≠ []) :
    (attachAll style written ws).toList =
      written.toList ++ (Layout.joined style written.toList.getLast? ws).text := by
  induction ws generalizing written with
  | nil => exact (List.append_nil _).symm
  | cons w ws ih =>
    rw [List.forall_mem_cons] at h
    obtain ⟨x, hx⟩ : ∃ x, w.chars.getLast? = some x := ⟨_, List.getLast?_eq_some_getLast h.1⟩
    have hlast : (attach style written w.text).toList.getLast? = w.chars.getLast? := by
      rw [attach_eq]
      split
      · rw [String.toList_append, List.getLast?_append, show w.text.toList.getLast? = _ from hx, hx]
        rfl
      · rw [String.toList_append, List.getLast?_append, show w.text.toList.getLast? = _ from hx, hx]
        rfl
    rw [attachAll, List.foldl_cons]
    refine (ih (attach style written w.text) h.2).trans ?_
    rw [hlast, Layout.joined, Layout.text, attach_eq]
    by_cases hspace : wantsSpace style written.toList.getLast? w.text.toList.head? = true
    · rw [if_pos hspace, if_pos (show wantsSpace style _ w.chars.head? = true from hspace)]
      simp [Word.chars]
    · rw [if_neg hspace, if_neg (show ¬wantsSpace style _ w.chars.head? = true from hspace)]
      simp [Word.chars]

/-! ## Plain words -/

namespace Word

/-- Commas and the brackets of groups. -/
def groupMarks : List Word :=
  [⟨.comma, ","⟩, ⟨.openParen, "("⟩, ⟨.closeParen, ")"⟩, ⟨.openBracket, "["⟩, ⟨.closeBracket, "]"⟩,
    ⟨.openBrace, "\x7b"⟩, ⟨.closeBrace, "\x7d"⟩]

/-- The words that types, default values and arguments are made of. -/
inductive Plain : Word → Prop
  | name (n : Name) : Plain n.word
  | digits (n : Digits) : Plain n.word
  | quoted (q : Quoted) : Plain q.word
  | mark {w : Word} (h : w ∈ groupMarks) : Plain w
  | less : Plain ⟨.less, "<"⟩
  | greater : Plain ⟨.greater, ">"⟩

/-- A character that goes on with no plain word. -/
def isGap (c : Char) : Bool :=
  !Text.isWordChar c && !isNumberChar c && c != '='

/-- A plain word stands in front of every character that goes on with none. -/
theorem Plain.before {w : Word} (h : w.Plain) {next : Char} (hnext : isGap next = true) :
    w.Before next := by
  simp only [isGap, Bool.and_eq_true, Bool.not_eq_true', bne_iff_ne] at hnext
  obtain ⟨⟨hword, hnumber⟩, heq⟩ := hnext
  cases h with
  | name n =>
    rw [Text.isWordChar, Bool.or_eq_false_iff, Bool.or_eq_false_iff] at hword
    exact n.before hword.1.1
  | digits n => exact n.before hnumber
  | quoted q => exact q.before next
  | mark h =>
    have hall : ∀ w ∈ groupMarks, w ∈ solid := by decide
    exact before_of_mem_solid (hall w h) next
  | less => exact before_of_mem_nearlySolid (by decide) heq
  | greater => exact before_of_mem_nearlySolid (by decide) heq

/-- The first character of a plain word is part of a word or goes on with none. -/
theorem Plain.exists_first {w : Word} (h : w.Plain) :
    ∃ c cs, w.chars = c :: cs ∧ c ≠ '=' ∧ (Text.isWordChar c = true ∨ isGap c = true) := by
  cases h with
  | name n =>
    obtain ⟨c, cs, hc, hstart, -⟩ := n.exists_chars
    refine ⟨c, cs, hc, ?_, Or.inl ?_⟩
    · rintro rfl
      exact absurd hstart (by decide +kernel)
    · simp [Text.isWordChar, Text.isNameChar_of_isNameStart hstart]
  | digits n =>
    obtain ⟨c, cs, hc⟩ := n.exists_chars
    have hdigit : c.isDigit = true := n.isDigits.2 c (by rw [show n.text.toList = _ from hc]; simp)
    refine ⟨c, cs, hc, ?_, Or.inl (Text.isWordChar_of_isDigit hdigit)⟩
    rintro rfl
    exact absurd hdigit (by decide)
  | quoted q =>
    refine ⟨q.quote, q.body ++ [q.quote], String.toList_ofList, ?_, Or.inl ?_⟩
    · rcases q.isQuote with h | h <;> rw [h] <;> decide
    · rcases q.isQuote with h | h <;> rw [h] <;> decide +kernel
  | mark h =>
    have hall : ∀ w ∈ groupMarks, w.chars.any fun c => w.chars = [c] ∧ c ≠ '=' ∧ isGap c = true := by
      decide +kernel
    simp only [List.any_eq_true, decide_eq_true_eq] at hall
    obtain ⟨c, -, hc, heq, hgap⟩ := hall w h
    exact ⟨c, [], hc, heq, Or.inr hgap⟩
  | less => exact ⟨'<', [], rfl, by decide, Or.inr (by decide +kernel)⟩
  | greater => exact ⟨'>', [], rfl, by decide, Or.inr (by decide +kernel)⟩

/-- A plain word has characters. -/
theorem Plain.chars_ne_nil {w : Word} (h : w.Plain) : w.chars ≠ [] := by
  obtain ⟨c, cs, hc, -⟩ := h.exists_first
  rw [hc]
  exact List.cons_ne_nil c cs

/-- A plain word ends with a part of a word, or stands in front of all that plain words begin with. -/
theorem Plain.last_cases {w : Word} (h : w.Plain) :
    (∃ c, w.chars.getLast? = some c ∧ c ≠ ',' ∧ Text.isWordChar c = true) ∨
      ∀ next, next ≠ '=' → w.Before next := by
  have hcomma : ∀ c, Text.isWordChar c = true → c ≠ ',' := by
    rintro c hc rfl
    exact absurd hc (by decide +kernel)
  cases h with
  | name n =>
    obtain ⟨c, cs, hc, hstart, hcs⟩ := n.exists_chars
    have hall : ∀ x ∈ n.word.chars, Text.isWordChar x = true := by
      rw [hc, List.forall_mem_cons]
      exact ⟨by simp [Text.isWordChar, Text.isNameChar_of_isNameStart hstart],
        fun x hx => by simp [Text.isWordChar, hcs x hx]⟩
    have hlast := List.getLast?_eq_some_getLast (Plain.name n).chars_ne_nil
    have hmem := hall _ (List.getLast_mem (Plain.name n).chars_ne_nil)
    exact Or.inl ⟨_, hlast, hcomma _ hmem, hmem⟩
  | digits n =>
    have hlast := List.getLast?_eq_some_getLast (Plain.digits n).chars_ne_nil
    have hmem := Text.isWordChar_of_isDigit
      (n.isDigits.2 _ (List.getLast_mem (Plain.digits n).chars_ne_nil))
    exact Or.inl ⟨_, hlast, hcomma _ hmem, hmem⟩
  | quoted q => exact Or.inr fun next _ => q.before next
  | mark h =>
    have hall : ∀ w ∈ groupMarks, w ∈ solid := by decide
    exact Or.inr fun next _ => before_of_mem_solid (hall w h) next
  | less => exact Or.inr fun next hnext => before_of_mem_nearlySolid (by decide) hnext
  | greater => exact Or.inr fun next hnext => before_of_mem_nearlySolid (by decide) hnext

/-- A plain word stands in front of another one from which no space keeps it apart. -/
theorem Plain.before_plain {w w' : Word} (h : w.Plain) (h' : w'.Plain) {style : Text.CommaStyle}
    (hspace : Text.wantsSpace style w.chars.getLast? w'.chars.head? = false) :
    w.Before (w'.chars.headD ' ') := by
  obtain ⟨c, cs, hc, heq, hfirst⟩ := h'.exists_first
  rw [hc] at hspace ⊢
  rcases h.last_cases with ⟨last, hlast, hcomma, hword⟩ | hbefore
  · rw [hlast, List.head?_cons, Text.wantsSpace, if_neg hcomma, hword, Bool.true_and] at hspace
    exact h.before (hfirst.resolve_left (by rw [hspace]; simp))
  · exact hbefore c heq

end Word

/-- Plain words that are put together fit. -/
theorem Layout.fits_joined {style : Text.CommaStyle} {ws : List Word} (h : ∀ w ∈ ws, w.Plain)
    {next : Char} (hnext : Word.isGap next = true) (last : Option Char) :
    (joined style last ws).Fits next := by
  induction ws generalizing last with
  | nil => trivial
  | cons w ws ih =>
    rw [List.forall_mem_cons] at h
    refine ⟨?_, ih h.2 _⟩
    cases ws with
    | nil => exact h.1.before hnext
    | cons w' ws =>
      rw [joined, first]
      split
      · exact h.1.before (by decide +kernel)
      · next hspace => exact h.1.before_plain (h.2 w' (by simp)) (by simpa using hspace)

end FuncDecl
