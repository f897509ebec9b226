import FuncDecl.Proofs.Token.Spelling

/-!
# Words

A word is a token without its place. It stands in front of a text if it is what is cut off there.

* `Text.forall_blank`: what holds of every blank is checked one by one. From it comes that a blank
  goes on with no name and no number.
* `Word.Stands w rest` and `Word.Before w c`: the word is cut off in front of a text, and in front
  of every text that begins with a character.
* `Name`, `Digits` and `Quoted`: texts that are spelled like names, numbers and strings. They stand
  in front of every text that does not go on with them (`Name.stands`, `Word.stands_of_number`,
  `Quoted.stands`).
* `Word.stands_of_singleMark` and `Word.stands_of_pairMark`: the same for marks of one and of two
  characters.
* `Word.solid` and `Word.nearlySolid`: the marks that no character goes on with, and those that only
  an equals sign goes on with (`Word.before_of_mem_solid`, `Word.before_of_mem_nearlySolid`).
-/

namespace FuncDecl

/-- A token without its place. -/
structure Word where
  kind : Token.Kind
  text : String
deriving DecidableEq, Repr

/-- The word of a token. -/
def Token.word (t : Token) : Word :=
  ⟨t.kind, t.text⟩

/-! ## Characters -/

namespace Text

/-- A code point that a table covers lies in one of its ranges. -/
theorem RangeTable.exists_range {table : RangeTable} {n : Nat} (h : table.covers n = true) :
    ∃ range ∈ table, range.1 ≤ n ∧ n ≤ range.2 := by
  induction table with
  | nil => simp [covers] at h
  | cons range table ih =>
    rw [covers, Bool.and_eq_true, Bool.or_eq_true, decide_eq_true_eq, decide_eq_true_eq] at h
    rcases h.2 with hhigh | hrest
    · exact ⟨range, List.mem_cons_self, h.1, hhigh⟩
    · obtain ⟨found, hfound, hn⟩ := ih hrest
      exact ⟨found, List.mem_cons_of_mem range hfound, hn⟩

/-- The code points of the blanks. -/
def blankPoints : List Nat :=
  blankRanges.flatMap fun range => List.range' range.1 (range.2 + 1 - range.1)

/-- What holds of every blank is checked one by one. -/
theorem forall_blank {P : Char → Prop} (h : ∀ n ∈ blankPoints, P (Char.ofNat n)) {c : Char}
    (hc : isBlank c = true) : P c := by
  obtain ⟨range, hrange, hlow, hhigh⟩ := RangeTable.exists_range hc
  have hmem : c.toNat ∈ List.range' range.1 (range.2 + 1 - range.1) :=
    List.mem_range'_1.mpr ⟨hlow, by omega⟩
  have hpoint := h c.toNat (List.mem_flatMap.mpr ⟨range, hrange, hmem⟩)
  rwa [Char.ofNat_toNat] at hpoint

/-- A blank is no letter. -/
theorem isLetter_of_isBlank {c : Char} (h : isBlank c = true) : isLetter c = false :=
  forall_blank (P := fun c => isLetter c = false) (by decide +kernel) h

/-- A blank goes on with no name. -/
theorem isNameChar_of_isBlank {c : Char} (h : isBlank c = true) : isNameChar c = false :=
  forall_blank (P := fun c => isNameChar c = false) (by decide +kernel) h

/-- A blank goes on with no number. -/
theorem isNumberChar_of_isBlank {c : Char} (h : isBlank c = true) : isNumberChar c = false :=
  forall_blank (P := fun c => isNumberChar c = false) (by decide +kernel) h

/-- What begins a name is no blank. -/
theorem isBlank_of_isNameStart {c : Char} (h : isNameStart c = true) : isBlank c = false := by
  rw [← Bool.not_eq_true]
  intro hblank
  rw [isNameStart, isLetter_of_isBlank hblank, Bool.false_or, beq_iff_eq] at h
  rw [h] at hblank
  exact absurd hblank (by decide +kernel)

/-- The code points of the ten digits. -/
theorem toNat_of_isDigit {c : Char} (h : c.isDigit = true) :
    c.toNat ∈ [48, 49, 50, 51, 52, 53, 54, 55, 56, 57] := by
  simp only [Char.isDigit, Bool.and_eq_true, decide_eq_true_eq, UInt32.le_iff_toNat_le] at h
  have hn : c.toNat = c.val.toNat := rfl
  have h0 : '0'.val.toNat = 48 := rfl
  have h9 : '9'.val.toNat = 57 := rfl
  simp only [List.mem_cons, List.not_mem_nil, or_false]
  omega

/-- A digit begins no name and is no blank. -/
theorem isNameStart_of_isDigit {c : Char} (h : c.isDigit = true) :
    isNameStart c = false ∧ isBlank c = false := by
  have hall : ∀ n ∈ [48, 49, 50, 51, 52, 53, 54, 55, 56, 57],
      letterRanges.covers n = false ∧ n ≠ 95 ∧ blankRanges.covers n = false := by decide +kernel
  obtain ⟨hletter, hne, hblank⟩ := hall _ (toNat_of_isDigit h)
  refine ⟨?_, hblank⟩
  rw [isNameStart, isLetter, hletter, Bool.false_or, beq_eq_false_iff_ne]
  rintro rfl
  exact hne rfl

/-- A digit can be part of a word. -/
theorem isWordChar_of_isDigit {c : Char} (h : c.isDigit = true) : isWordChar c = true := by
  have hall : ∀ n ∈ [48, 49, 50, 51, 52, 53, 54, 55, 56, 57], numeralRanges.covers n = true := by
    decide +kernel
  have hnumeral : isNumeral c = true := hall _ (toNat_of_isDigit h)
  simp [isWordChar, isNameChar, hnumeral]

/-- What a name can begin with, it can go on with. -/
theorem isNameChar_of_isNameStart {c : Char} (h : isNameStart c = true) : isNameChar c = true := by
  rw [isNameStart, Bool.or_eq_true] at h
  rcases h with h | h
  · simp [isNameChar, h]
  · simp [isNameChar, beq_iff_eq.mp h]

/-- A character that begins no name, no number and no string, and is no blank. -/
def isPunct (c : Char) : Bool :=
  c != '\n' && !isBlank c && !isNameStart c && !c.isDigit && c != '"' && c != '\''

end Text

/-! ## Words in front of a text -/

namespace Word

/-- The characters of a word. -/
def chars (w : Word) : List Char :=
  w.text.toList

/-- The word is cut off at the front of its own text with `rest` behind it. -/
def Stands (w : Word) (rest : List Char) : Prop :=
  ∃ c cs, w.chars = c :: cs ∧ Lexeme.next c (cs ++ rest) = .token w.kind w.chars rest

/-- The word stands in front of every text that begins with the character. -/
def Before (w : Word) (c : Char) : Prop :=
  ∀ rest, w.Stands (c :: rest)

end Word

/-- A run of characters of one sort ends where the text ends or goes on with another sort. -/
theorem run_append {p : Char → Bool} {cs rest : List Char} (hcs : ∀ x ∈ cs, p x = true)
    (hrest : ∀ x ∈ rest.head?, p x = false) :
    (cs ++ rest).takeWhile p = cs ∧ (cs ++ rest).dropWhile p = rest := by
  rw [List.takeWhile_append_of_pos hcs, List.dropWhile_append_of_pos hcs]
  cases rest with
  | nil => exact ⟨List.append_nil cs, rfl⟩
  | cons c rest =>
    have hc : ¬p c = true := by rw [hrest c rfl]; simp
    rw [List.takeWhile_cons_of_neg hc, List.dropWhile_cons_of_neg hc, List.append_nil]
    exact ⟨rfl, rfl⟩

/-! ### Names -/

/-- A text that is spelled like a name. -/
structure Name where
  text : String
  isName : Text.isName text = true
deriving DecidableEq

/-- The word of a name. -/
def Name.word (n : Name) : Word :=
  ⟨.ident, n.text⟩

/-- A name begins with a character that a name can begin with, and goes on with name characters. -/
theorem Name.exists_chars (n : Name) :
    ∃ c cs, n.word.chars = c :: cs ∧ Text.isNameStart c = true ∧ ∀ x ∈ cs, Text.isNameChar x = true := by
  have h := n.isName
  rw [Text.isName] at h
  rw [Word.chars, word]
  cases htext : n.text.toList with
  | nil =>
    rw [htext] at h
    exact absurd h (by simp)
  | cons c cs =>
    rw [htext, Bool.and_eq_true, List.all_eq_true] at h
    exact ⟨c, cs, rfl, h.1, h.2⟩

/-- Where a name begins, all name characters that follow belong to it. -/
theorem Lexeme.next_of_isNameStart {c : Char} (h : Text.isNameStart c = true) (cs : List Char) :
    next c cs =
      token .ident (c :: cs.takeWhile Text.isNameChar) (cs.dropWhile Text.isNameChar) := by
  have hn : c ≠ '\n' := by
    rintro rfl
    exact absurd h (by decide +kernel)
  have ht : c ≠ '~' := by
    rintro rfl
    exact absurd h (by decide +kernel)
  rw [next, if_neg hn, if_neg (by rw [Text.isBlank_of_isNameStart h]; simp),
    if_neg fun hc => ht hc.1, if_pos h]

/-- A name stands in front of every text that does not go on with it. -/
theorem Name.stands (n : Name) {rest : List Char}
    (hrest : ∀ c ∈ rest.head?, Text.isNameChar c = false) : n.word.Stands rest := by
  obtain ⟨a, cs, hchars, ha, hcs⟩ := n.exists_chars
  obtain ⟨htake, hdrop⟩ := run_append hcs hrest
  refine ⟨a, cs, hchars, ?_⟩
  rw [Lexeme.next_of_isNameStart ha, htake, hdrop, hchars]
  rfl

/-- A name stands in front of every character that is of none. -/
theorem Name.before (n : Name) {c : Char} (hc : Text.isNameChar c = false) : n.word.Before c :=
  fun _ => n.stands (by simpa using hc)

/-! ### Numbers -/

/-- A text that is spelled by digits alone. -/
structure Digits where
  text : String
  isDigits : text ≠ "" ∧ ∀ c ∈ text.toList, c.isDigit = true

/-- The word of a number. -/
def Digits.word (n : Digits) : Word :=
  ⟨.number, n.text⟩

/-- A number has a first character. -/
theorem Digits.exists_chars (n : Digits) : ∃ c cs, n.word.chars = c :: cs :=
  List.exists_cons_of_ne_nil fun h => n.isDigits.1 (String.toList_eq_nil_iff.mp h)

/-- Where a number begins, all number characters that follow belong to it. -/
theorem Lexeme.next_of_isDigit {c : Char} (h : c.isDigit = true) (cs : List Char) :
    next c cs = token .number (c :: cs.takeWhile isNumberChar) (cs.dropWhile isNumberChar) := by
  obtain ⟨hstart, hblank⟩ := Text.isNameStart_of_isDigit h
  have hn : c ≠ '\n' := by
    rintro rfl
    exact absurd h (by decide)
  have ht : c ≠ '~' := by
    rintro rfl
    exact absurd h (by decide)
  rw [next, if_neg hn, if_neg (by rw [hblank]; simp), if_neg fun hc => ht hc.1,
    if_neg (by rw [hstart]; simp), if_pos h]

/-- A number stands in front of every text that does not go on with it. -/
theorem Word.stands_of_number {w : Word} {a : Char} {cs rest : List Char} (hkind : w.kind = .number)
    (hchars : w.chars = a :: cs) (ha : a.isDigit = true) (hcs : ∀ x ∈ cs, isNumberChar x = true)
    (hrest : ∀ c ∈ rest.head?, isNumberChar c = false) : w.Stands rest := by
  obtain ⟨htake, hdrop⟩ := run_append hcs hrest
  refine ⟨a, cs, hchars, ?_⟩
  rw [Lexeme.next_of_isDigit ha, htake, hdrop, hchars, hkind]

/-- A number stands in front of every character that goes on with none. -/
theorem Digits.before (n : Digits) {c : Char} (hc : isNumberChar c = false) :
    n.word.Before c := by
  intro rest
  have hnumber : ∀ x : Char, x.isDigit = true → isNumberChar x = true := by
    intro x hx
    simp [isNumberChar, Char.isAlphanum, hx]
  obtain ⟨a, cs, hchars⟩ := n.exists_chars
  have hall : ∀ x ∈ n.word.chars, x.isDigit = true := n.isDigits.2
  rw [hchars, List.forall_mem_cons] at hall
  exact Word.stands_of_number rfl hchars hall.1 (fun x hx => hnumber x (hall.2 x hx))
    (by simpa using hc)

/-! ### Strings -/

/-- What may stand between the quotation marks of a string: no line end, and no quotation mark of the
same sort and no backslash unless a backslash is in front of it. -/
inductive StringBody (quote : Char) : List Char → Prop
  | nil : StringBody quote []
  | plain {c : Char} {cs : List Char} (hline : c ≠ '\n') (hquote : c ≠ quote) (hslash : c ≠ '\\')
      (rest : StringBody quote cs) : StringBody quote (c :: cs)
  | escaped {c : Char} {cs : List Char} (hline : c ≠ '\n') (rest : StringBody quote cs) :
      StringBody quote ('\\' :: c :: cs)

/-- A string reaches up to its closing quotation mark. By induction on what is between the marks. -/
theorem closeString_of_stringBody {quote : Char} (hquote : quote = '"' ∨ quote = '\'')
    {body : List Char} (h : StringBody quote body) (rest : List Char) :
    closeString quote false (body ++ quote :: rest) = some (body ++ [quote], rest) := by
  have hline : quote ≠ '\n' := by rcases hquote with rfl | rfl <;> decide
  have hslash : '\\' ≠ quote := by rcases hquote with rfl | rfl <;> decide
  induction h with
  | nil => simp [closeString, hline]
  | plain hl hq hs _ ih =>
    rw [List.cons_append, closeString, if_neg hl, if_neg (by simp [hq]), beq_false_of_ne hs,
      Bool.and_false, ih]
    rfl
  | escaped hl _ ih => simp [closeString, hl, hslash, ih]

/-- A string with its quotation marks. -/
structure Quoted where
  quote : Char
  body : List Char
  isQuote : quote = '"' ∨ quote = '\''
  isBody : StringBody quote body

/-- The word of a string. -/
def Quoted.word (q : Quoted) : Word :=
  ⟨.str, String.ofList (q.quote :: (q.body ++ [q.quote]))⟩

/-- A string stands in front of every text. -/
theorem Quoted.stands (q : Quoted) (rest : List Char) : q.word.Stands rest := by
  have hchars : q.word.chars = q.quote :: (q.body ++ [q.quote]) := String.toList_ofList
  have hclose := closeString_of_stringBody q.isQuote q.isBody rest
  refine ⟨q.quote, q.body ++ [q.quote], hchars, ?_⟩
  have hpunct : q.quote ≠ '\n' ∧ Text.isBlank q.quote = false ∧ q.quote ≠ '~' ∧
      Text.isNameStart q.quote = false ∧ q.quote.isDigit = false := by
    rcases q.isQuote with h | h <;> rw [h] <;> decide +kernel
  obtain ⟨h₁, h₂, h₃, h₄, h₅⟩ := hpunct
  rw [hchars, Lexeme.next, if_neg h₁, if_neg (by rw [h₂]; simp), if_neg fun hc => h₃ hc.1,
    if_neg (by rw [h₄]; simp), if_neg (by rw [h₅]; simp), if_pos q.isQuote, List.append_assoc,
    List.singleton_append, hclose]
  rfl

/-- A string stands in front of every character. -/
theorem Quoted.before (q : Quoted) (c : Char) : q.word.Before c :=
  fun rest => q.stands (c :: rest)

/-! ### Marks -/

/-- Where no name, number, string, blank or comment begins, a mark is looked for. -/
theorem Lexeme.next_of_isPunct {c : Char} (h : Text.isPunct c = true) {cs : List Char}
    (ht : ¬(c = '~' ∧ cs.head? = some '~')) : next c cs = mark c cs := by
  simp only [Text.isPunct, Bool.and_eq_true, bne_iff_ne, Bool.not_eq_true'] at h
  obtain ⟨⟨⟨⟨⟨hn, hblank⟩, hstart⟩, hdigit⟩, hq⟩, hq'⟩ := h
  rw [next, if_neg hn, if_neg (by rw [hblank]; simp), if_neg ht, if_neg (by rw [hstart]; simp),
    if_neg (by rw [hdigit]; simp), if_neg (by rintro (h | h) <;> contradiction)]

/-- What is looked up is an entry. -/
theorem mem_of_lookup {α β : Type} [BEq α] [LawfulBEq α] {entries : List (α × β)} {a : α} {b : β}
    (h : entries.lookup a = some b) : (a, b) ∈ entries := by
  obtain ⟨front, back, rfl, -⟩ := List.lookup_eq_some_iff.mp h
  exact List.mem_append_right front List.mem_cons_self

/-- A mark begins neither a name nor a number nor a string, and is no blank. -/
theorem isPunct_of_lookup {c : Char} {kind : Token.Kind} (h : singleMarks.lookup c = some kind) :
    Text.isPunct c = true := by
  have hall : ∀ entry ∈ singleMarks, Text.isPunct entry.1 = true := by decide +kernel
  exact hall (c, kind) (mem_of_lookup h)

/-- A mark of one character stands in front of a text that makes no other mark or comment with it. -/
theorem Word.stands_of_singleMark {w : Word} {c : Char} {rest : List Char} (hw : w.chars = [c])
    (h : singleMarks.lookup c = some w.kind)
    (hpair : ∀ d ∈ rest.head?, pairMarks.lookup (c, d) = none)
    (ht : ¬(c = '~' ∧ rest.head? = some '~')) : w.Stands rest := by
  refine ⟨c, [], hw, ?_⟩
  rw [List.nil_append, Lexeme.next_of_isPunct (isPunct_of_lookup h) ht, hw]
  cases rest with
  | nil => rw [Lexeme.mark, Lexeme.singleMark, h]
  | cons d rest => rw [Lexeme.mark, hpair d rfl, Lexeme.singleMark, h]

/-- A mark of one character stands in front of a character that makes no other mark or comment with
it. -/
theorem Word.before_of_singleMark {w : Word} {c next : Char} (hw : w.chars = [c])
    (h : singleMarks.lookup c = some w.kind) (hpair : pairMarks.lookup (c, next) = none)
    (ht : ¬(c = '~' ∧ next = '~')) : w.Before next :=
  fun _ => stands_of_singleMark hw h (by simpa using hpair) (by simpa using ht)

/-- A mark of two characters stands in front of every text. -/
theorem Word.stands_of_pairMark {w : Word} {c c' : Char} (hw : w.chars = [c, c'])
    (h : pairMarks.lookup (c, c') = some w.kind) (hc : Text.isPunct c = true) (ht : c ≠ '~')
    (rest : List Char) : w.Stands rest := by
  refine ⟨c, [c'], hw, ?_⟩
  rw [List.singleton_append, Lexeme.next_of_isPunct hc fun h => ht h.1, Lexeme.mark, h, hw]

/-- A mark of two characters stands in front of every character. -/
theorem Word.before_of_pairMark {w : Word} {c c' : Char} {kind : Token.Kind}
    (hw : w.chars = [c, c']) (h : pairMarks.lookup (c, c') = some w.kind)
    (hc : singleMarks.lookup c = some kind) (ht : c ≠ '~') (next : Char) : w.Before next :=
  fun rest => stands_of_pairMark hw h (isPunct_of_lookup hc) ht (next :: rest)

namespace Word

/-- The marks that make no other mark with any character. -/
def solid : List Word :=
  [⟨.comma, ","⟩, ⟨.openParen, "("⟩, ⟨.closeParen, ")"⟩, ⟨.colon, ":"⟩, ⟨.atSign, "@"⟩,
    ⟨.openBrace, "\x7b"⟩, ⟨.closeBrace, "\x7d"⟩, ⟨.openBracket, "["⟩, ⟨.closeBracket, "]"⟩,
    ⟨.semicolon, ";"⟩, ⟨.operator, "."⟩]

/-- The marks that only an equals sign goes on with. -/
def nearlySolid : List Word :=
  [⟨.less, "<"⟩, ⟨.greater, ">"⟩, ⟨.equals, "="⟩]

/-- Two characters make no mark if no entry of the table has them both. -/
theorem lookup_pairMarks_eq_none {c next : Char}
    (h : ∀ entry ∈ pairMarks, entry.1.1 = c → entry.1.2 ≠ next) :
    pairMarks.lookup (c, next) = none := by
  refine List.lookup_eq_none_iff.mpr fun entry hentry => ?_
  rw [bne_iff_ne]
  intro he
  rw [Prod.ext_iff] at he
  exact h entry hentry he.1.symm he.2.symm

/-- A mark that goes on with no character stands in front of all of them. -/
theorem before_of_mem_solid {w : Word} (h : w ∈ solid) (next : Char) : w.Before next := by
  have hall : ∀ w ∈ solid, w.chars.any fun c => w.chars = [c] ∧
      singleMarks.lookup c = some w.kind ∧ c ≠ '~' ∧ ∀ entry ∈ pairMarks, entry.1.1 ≠ c := by
    decide +kernel
  simp only [List.any_eq_true, decide_eq_true_eq] at hall
  obtain ⟨c, -, hc, hkind, ht, hpair⟩ := hall w h
  exact before_of_singleMark hc hkind
    (lookup_pairMarks_eq_none fun entry hentry he => absurd he (hpair entry hentry)) fun h => ht h.1

/-- A mark that only an equals sign goes on with stands in front of all others. -/
theorem before_of_mem_nearlySolid {w : Word} (h : w ∈ nearlySolid) {next : Char}
    (hnext : next ≠ '=') : w.Before next := by
  have hall : ∀ w ∈ nearlySolid, w.chars.any fun c => w.chars = [c] ∧
      singleMarks.lookup c = some w.kind ∧ c ≠ '~' ∧
      ∀ entry ∈ pairMarks, entry.1.1 = c → entry.1.2 = '=' := by decide +kernel
  simp only [List.any_eq_true, decide_eq_true_eq] at hall
  obtain ⟨c, -, hc, hkind, ht, hpair⟩ := hall w h
  refine before_of_singleMark hc hkind (lookup_pairMarks_eq_none fun entry hentry he => ?_)
    fun h => ht h.1
  rw [hpair entry hentry he]
  exact hnext.symm

end Word

end FuncDecl
