import FuncDecl.Proofs.Token.Lexemes
import FuncDecl.Proofs.Token.Lines
import Mathlib.Data.List.DropRight

/-!
# Where a text cannot be cut

A fault is placed at the first piece of a text that is no lexeme.

* `Lexeme.next_of_extend`: **what ends in front of the tail of a text is found without the tail**.
  One lemma for each sort of lexeme leads up to it.
* `LexFault.Arises`: the fault that the piece at the front of a text gives.
* `Token.exists_front_of_scanFrom_error`: **the text in front of a fault has none**.
* `Text.Escapes`: behind this part of a string, a quotation mark does not close it. It is told by
  the number of backslashes at the end; the scan finds the same (`Text.foldl_escape_iff`).
* `LexCause.Tells text after`: what a cause says about a piece of the source. It is a character that
  begins no token, or a string that its line does not close.
* `Token.scan_fault_localised`: **a fault is placed at the first piece of a source that is no
  lexeme**, with a text in front of it that is cut without a fault, and a cause that tells.
-/

namespace FuncDecl

/-! ## Cutting off the end of a text -/

/-- A run that ends in front of the end of a text is the same run without that end. -/
theorem run_of_append {p : Char → Bool} {cs rest tail : List Char}
    (h : (cs ++ tail).dropWhile p = rest ++ tail) :
    (cs ++ tail).takeWhile p = cs.takeWhile p ∧ cs.dropWhile p = rest := by
  induction cs with
  | nil =>
    have hsplit : tail.takeWhile p ++ (rest ++ tail) = [] ++ tail := by
      rw [List.nil_append, ← h]
      exact List.takeWhile_append_dropWhile
    rw [← List.append_assoc] at hsplit
    obtain ⟨htake, hrest⟩ := List.append_eq_nil_iff.mp (List.append_cancel_right hsplit)
    exact ⟨htake, hrest.symm⟩
  | cons c cs ih =>
    simp only [List.cons_append, List.takeWhile_cons, List.dropWhile_cons] at h ⊢
    by_cases hc : p c = true
    · simp only [hc, if_true] at h ⊢
      exact ⟨congrArg (c :: ·) (ih h).1, (ih h).2⟩
    · simp only [hc] at h ⊢
      exact ⟨rfl, List.append_cancel_right h⟩

/-- A string that is closed in front of the tail of a text is closed without the tail. -/
theorem closeString_of_append {quote : Char} {escaped : Bool} {cs body rest tail : List Char}
    (h : closeString quote escaped (cs ++ tail) = some (body, rest ++ tail)) :
    closeString quote escaped cs = some (body, rest) := by
  induction cs generalizing escaped body with
  | nil =>
    -- a closed string has at least its last quotation mark
    obtain ⟨inner, rfl, -⟩ := exists_stringBody_of_closeString h
    have hlength := congrArg List.length (closeString_append h)
    simp only [List.length_append, List.length_cons, List.nil_append] at hlength
    omega
  | cons c cs ih =>
    rw [List.cons_append, closeString] at h
    rw [closeString]
    by_cases hline : c = '\n'
    · rw [if_pos hline] at h
      exact absurd h (by simp)
    · rw [if_neg hline] at h ⊢
      by_cases hclose : (!escaped && c == quote) = true
      · rw [if_pos hclose] at h ⊢
        obtain ⟨rfl, hrest⟩ := Prod.mk.inj (Option.some.inj h)
        rw [List.append_cancel_right hrest]
      · rw [if_neg hclose] at h ⊢
        cases hrec : closeString quote (!escaped && c == '\\') (cs ++ tail) with
        | none => simp [hrec] at h
        | some found =>
          obtain ⟨body', rest'⟩ := found
          simp only [hrec, Option.some.injEq, Prod.mk.injEq] at h
          obtain ⟨rfl, rfl⟩ := h
          rw [ih hrec]

namespace Lexeme

section Extend

variable {l : Lexeme} {tail : List Char}

/-- A lexeme is known by what it is with more text behind it. -/
theorem extend_injective (more : List Char) : Function.Injective (extend more) := by
  intro l l' h
  cases l <;> cases l' <;> simp_all [extend]

/-- Blanks and comments that end in front of the tail of a text. -/
theorem exists_of_extend_eq_skipped {text rest : List Char} (h : skipped text rest = l.extend tail) :
    ∃ rest', l = skipped text rest' ∧ rest = rest' ++ tail := by
  cases l <;> simp_all [extend]

/-- A token that ends in front of the tail of a text. -/
theorem exists_of_extend_eq_token {kind : Token.Kind} {text rest : List Char}
    (h : token kind text rest = l.extend tail) :
    ∃ rest', l = token kind text rest' ∧ rest = rest' ++ tail := by
  cases l <;> simp_all [extend]

/-- A string that is never closed has nothing behind it. -/
theorem eq_of_extend_eq_openString {text : List Char} (h : openString text = l.extend tail) :
    l = openString text := by
  cases l <;> simp_all [extend]

end Extend

/-- A name or a number that ends in front of the tail of a text. -/
theorem token_run_of_extend {p : Char → Bool} {kind : Token.Kind} {c : Char} {cs tail : List Char}
    {l : Lexeme}
    (h : token kind (c :: (cs ++ tail).takeWhile p) ((cs ++ tail).dropWhile p) = l.extend tail) :
    token kind (c :: cs.takeWhile p) (cs.dropWhile p) = l := by
  obtain ⟨rest, rfl, hrest⟩ := exists_of_extend_eq_token h
  obtain ⟨htake, hdrop⟩ := run_of_append hrest
  rw [htake, hdrop]

/-- A comment that ends in front of the tail of a text is found without the tail. -/
theorem comment_of_extend {c : Char} {cs tail : List Char} {l : Lexeme}
    (hcs : (cs ++ tail).head? = some '~')
    (h : skipped (c :: (cs ++ tail).takeWhile isInLine) ((cs ++ tail).dropWhile isInLine) =
      l.extend tail) :
    cs.head? = some '~' ∧ skipped (c :: cs.takeWhile isInLine) (cs.dropWhile isInLine) = l := by
  obtain ⟨rest, rfl, hrest⟩ := exists_of_extend_eq_skipped h
  obtain ⟨htake, hdrop⟩ := run_of_append hrest
  refine ⟨?_, by rw [htake, hdrop]⟩
  -- the comment does not reach the tail, so the second tilde stands in front of it
  cases cs with
  | nil =>
    obtain ⟨more, rfl⟩ := List.head?_eq_some_iff.mp hcs
    exact absurd htake (by simp [isInLine])
  | cons d cs => exact hcs

/-- A mark that ends in front of the tail of a text is found without the tail. -/
theorem mark_of_extend {c : Char} {cs tail : List Char} {l : Lexeme}
    (h : mark c (cs ++ tail) = l.extend tail) : mark c cs = l := by
  cases cs with
  | nil =>
    cases tail with
    | nil => exact extend_injective [] (by rw [← h]; exact (singleMark_append c [] []).symm)
    | cons d tail =>
      rw [List.nil_append, mark] at h
      cases hpair : pairMarks.lookup (c, d) with
      | some kind =>
        -- a mark of two characters would reach into the tail
        rw [hpair] at h
        obtain ⟨rest, -, hrest⟩ := exists_of_extend_eq_token h
        have hlength := congrArg List.length hrest
        simp only [List.length_append, List.length_cons] at hlength
        omega
      | none =>
        rw [hpair] at h
        exact extend_injective _ ((singleMark_append c [] (d :: tail)).symm.trans h)
  | cons d cs =>
    apply extend_injective tail
    rw [← h, List.cons_append, mark, mark]
    cases pairMarks.lookup (c, d) with
    | some kind => rfl
    | none => exact (singleMark_append c (d :: cs) tail).symm

/-- **What ends in front of the tail of a text is found without the tail.** -/
theorem next_of_extend {c : Char} {cs tail : List Char} {l : Lexeme}
    (hl : ∀ text, l ≠ openString text) (h : next c (cs ++ tail) = l.extend tail) :
    next c cs = l := by
  unfold next at h ⊢
  by_cases hnewline : c = '\n'
  · rw [if_pos hnewline] at h ⊢
    exact extend_injective tail h
  rw [if_neg hnewline] at h ⊢
  by_cases hblank : Text.isBlank c = true
  · rw [if_pos hblank] at h ⊢
    exact extend_injective tail h
  rw [if_neg hblank] at h ⊢
  -- the only test that looks past `c`: the second tilde must lie in `cs`, not in `tail`
  by_cases hcomment : c = '~' ∧ (cs ++ tail).head? = some '~'
  · rw [if_pos hcomment] at h
    obtain ⟨hhead, hskipped⟩ := comment_of_extend hcomment.2 h
    rw [if_pos ⟨hcomment.1, hhead⟩, hskipped]
  have hcomment' : ¬(c = '~' ∧ cs.head? = some '~') := by
    rintro ⟨hc, hhead⟩
    exact hcomment ⟨hc, by rw [List.head?_append, hhead]; rfl⟩
  rw [if_neg hcomment] at h
  rw [if_neg hcomment']
  by_cases hname : Text.isNameStart c = true
  · rw [if_pos hname] at h ⊢
    exact token_run_of_extend h
  rw [if_neg hname] at h ⊢
  by_cases hdigit : c.isDigit = true
  · rw [if_pos hdigit] at h ⊢
    exact token_run_of_extend h
  rw [if_neg hdigit] at h ⊢
  by_cases hquote : c = '"' ∨ c = '\''
  · rw [if_pos hquote] at h ⊢
    cases hclose : closeString c false (cs ++ tail) with
    | none =>
      rw [hclose] at h
      exact absurd (eq_of_extend_eq_openString h) (hl _)
    | some found =>
      obtain ⟨body, rest⟩ := found
      rw [hclose] at h
      obtain ⟨rest', rfl, rfl⟩ := exists_of_extend_eq_token h
      rw [closeString_of_append hclose]
  · rw [if_neg hquote] at h ⊢
    exact mark_of_extend h

/-- The same for a lexeme that is told by its own text and what follows it. -/
theorem exists_next_of_splits {c : Char} {cs text before tail : List Char} {l : Lexeme}
    (hl : ∀ text, l ≠ openString text) (hsplit : text ≠ [] ∧ text ++ (before ++ tail) = c :: cs)
    (h : next c cs = l.extend tail) : ∃ cs', text = c :: cs' ∧ next c (cs' ++ before) = l := by
  obtain ⟨hne, htext⟩ := hsplit
  cases text with
  | nil => exact absurd rfl hne
  | cons d text =>
    rw [List.cons_append] at htext
    obtain ⟨rfl, rfl⟩ := List.cons.inj htext
    rw [← List.append_assoc] at h
    exact ⟨text, rfl, next_of_extend hl h⟩

end Lexeme

/-! ## The text in front of a fault -/

/-- The fault is that of the lexeme at the front of the text `c :: cs`, which begins at `start`. -/
inductive LexFault.Arises (start : Nat) (c : Char) (cs : List Char) : LexFault → Prop
  | openString {text : List Char} (h : Lexeme.next c cs = .openString text) :
      Arises start c cs ⟨.unterminatedString, ⟨start, start + Text.byteLength text⟩⟩
  | stray {d : Char} (h : Lexeme.next c cs = .stray d) :
      Arises start c cs ⟨.unexpectedCharacter d, ⟨start, start + d.utf8Size⟩⟩

/-- **The text in front of a fault has none.** -/
theorem Token.exists_front_of_scanFrom_error {offset : Nat} {cs : List Char} {fault : LexFault}
    (h : scanFrom offset cs = .error fault) :
    ∃ before c rest ts, cs = before ++ c :: rest ∧ scanFrom offset before = .ok ts ∧
      fault.Arises (offset + Text.byteLength before) c rest := by
  fun_induction scanFrom offset cs with
  | case1 => exact absurd h (by simp)
  | case2 offset c cs text rest hnext ih =>
    obtain ⟨before, d, tail, ts, rfl, hbefore, harises⟩ := ih h
    have hsplit := Lexeme.splits_next c cs
    rw [hnext] at hsplit
    obtain ⟨cs', rfl, hcut⟩ := Lexeme.exists_next_of_splits (l := .skipped text before) (by simp)
      hsplit hnext
    refine ⟨c :: cs' ++ before, d, tail, ts, by rw [← hsplit.2, List.append_assoc], ?_, ?_⟩
    · rw [List.cons_append, scanFrom_of_skipped hcut, hbefore]
    · rwa [Text.byteLength_append, ← Nat.add_assoc]
  | case3 offset c cs kind text rest hnext stop =>
    rename_i ih
    cases hrest : scanFrom stop rest with
    | ok us =>
      rw [hrest] at h
      exact absurd h (by simp [Except.map])
    | error fault' =>
      rw [hrest] at h
      obtain rfl := Except.error.inj h
      obtain ⟨before, d, tail, ts, rfl, hbefore, harises⟩ := ih hrest
      have hsplit := Lexeme.splits_next c cs
      rw [hnext] at hsplit
      obtain ⟨cs', rfl, hcut⟩ := Lexeme.exists_next_of_splits (l := .token kind text before) (by simp)
        hsplit hnext
      have hscan := scanFrom_of_token hcut offset
      rw [hbefore, prepend_ok] at hscan
      refine ⟨c :: cs' ++ before, d, tail, _, by rw [← hsplit.2, List.append_assoc], hscan, ?_⟩
      rwa [Text.byteLength_append, ← Nat.add_assoc]
  | case4 offset c cs text hnext =>
    obtain rfl := Except.error.inj h
    exact ⟨[], c, cs, [], rfl, by rw [scanFrom], .openString hnext⟩
  | case5 offset c cs d hnext =>
    obtain rfl := Except.error.inj h
    exact ⟨[], c, cs, [], rfl, by rw [scanFrom], .stray hnext⟩

/-! ## Strings that are not closed -/

namespace Text

/-- How many backslashes a text ends with. -/
def backslashes (cs : List Char) : Nat :=
  (cs.rtakeWhile (· == '\\')).length

/-- Behind this text, which begins a string, a quotation mark does not close the string. A backslash
takes away the meaning of the next character, also of another backslash, so this is so where the text
ends with an odd number of them. -/
def Escapes (cs : List Char) : Prop :=
  backslashes cs % 2 = 1

/-- A text takes away the meaning of the next character exactly if it ends with a backslash that has
its own. -/
theorem escapes_concat_iff {cs : List Char} {c : Char} :
    Escapes (cs ++ [c]) ↔ ¬ Escapes cs ∧ c = '\\' := by
  unfold Escapes backslashes
  rw [List.rtakeWhile_concat]
  by_cases hc : c = '\\'
  · simp only [hc, beq_self_eq_true, if_true, List.length_append, List.length_singleton, and_true]
    omega
  · simp [hc]

/-- Whether a character takes away the meaning of the next one, where `escaped` says whether it has
lost its own. -/
def escape (escaped : Bool) (c : Char) : Bool :=
  !escaped && c == '\\'

/-- Going through a string character by character tells whether the next one has lost its meaning.
By induction from the end. -/
theorem foldl_escape_iff (cs : List Char) : cs.foldl escape false = true ↔ Escapes cs := by
  induction cs using List.reverseRecOn with
  | nil => simp [Escapes, backslashes]
  | append_singleton cs c ih =>
    rw [List.foldl_append, escapes_concat_iff, ← ih]
    simp [escape]

end Text

/-- A string that is not closed has no quotation mark that would close it. -/
theorem foldl_escape_of_closeString {quote : Char} {escaped : Bool} {cs front back : List Char}
    (h : closeString quote escaped cs = none) (hcs : cs.takeWhile isInLine = front ++ quote :: back) :
    front.foldl Text.escape escaped = true := by
  induction cs generalizing escaped front with
  | nil => simp at hcs
  | cons c cs ih =>
    rw [closeString] at h
    rw [List.takeWhile_cons] at hcs
    by_cases hline : c = '\n'
    · rw [hline, if_neg (by decide)] at hcs
      simp at hcs
    rw [if_neg hline] at h
    rw [if_pos (by simpa [isInLine] using hline)] at hcs
    by_cases hclose : (!escaped && c == quote) = true
    · rw [if_pos hclose] at h
      exact absurd h (by simp)
    rw [if_neg hclose] at h
    cases front with
    | nil =>
      obtain ⟨rfl, -⟩ := List.cons.inj hcs
      simpa using hclose
    | cons d front =>
      obtain ⟨rfl, hfront⟩ := List.cons.inj hcs
      rw [List.foldl_cons]
      apply ih _ hfront
      cases hrec : closeString quote (!escaped && c == '\\') cs with
      | none => exact hrec
      | some found => simp [hrec] at h

/-! ## What is wrong -/

/-- The characters of marks. -/
def Text.glyphs : List Char :=
  ",()<>=:@\x7b\x7d[];+-*/%&|^~!.?".toList

/-- The character is no blank and begins no token. -/
structure Text.BeginsNothing (c : Char) : Prop where
  blank : isBlank c = false
  letter : isLetter c = false
  underscore : c ≠ '_'
  digit : c.isDigit = false
  quote : c ≠ '"' ∧ c ≠ '\''
  mark : c ∉ glyphs

/-- A character that no mark begins with, and no name, number, string or blank, begins nothing. -/
theorem Text.beginsNothing_of_stray {c : Char} (hc : isPunct c = true)
    (hmark : singleMarks.lookup c = none) : BeginsNothing c := by
  simp only [isPunct, Bool.and_eq_true, bne_iff_ne, Bool.not_eq_true', isNameStart,
    Bool.or_eq_false_iff, beq_eq_false_iff_ne] at hc
  obtain ⟨⟨⟨⟨⟨-, hblank⟩, hletter, hunderscore⟩, hdigit⟩, hdouble⟩, hsingle⟩ := hc
  refine ⟨hblank, hletter, hunderscore, hdigit, ⟨hdouble, hsingle⟩, fun hmem => ?_⟩
  have hglyphs : glyphs = singleMarks.map Prod.fst := by decide
  rw [hglyphs] at hmem
  obtain ⟨entry, hentry, rfl⟩ := List.mem_map.mp hmem
  exact absurd (List.lookup_eq_none_iff.mp hmark entry hentry) (by simp)

/-- The cause says what is wrong with the piece `text` of a source, behind which `after` follows. A
string that is not closed goes up to the end of its line, and every quotation mark of its sort in it has
lost its meaning. -/
inductive LexCause.Tells (text after : List Char) : LexCause → Prop
  | unexpectedCharacter {c : Char} (htext : text = [c]) (hc : Text.BeginsNothing c) :
      Tells text after (.unexpectedCharacter c)
  | unterminatedString {quote : Char} {inside : List Char} (hquote : quote = '"' ∨ quote = '\'')
      (htext : text = quote :: inside) (hline : '\n' ∉ inside)
      (hafter : ∀ c ∈ after.head?, c = '\n')
      (hinside : ∀ front back, inside = front ++ quote :: back → Text.Escapes front) :
      Tells text after .unterminatedString

/-- The fault at the front of a text covers a piece of it, and its cause tells what is wrong with
that piece. -/
theorem LexFault.Arises.exists_tells {start : Nat} {c : Char} {cs : List Char} {fault : LexFault}
    (h : fault.Arises start c cs) : ∃ text after, c :: cs = text ++ after ∧
      fault.span = ⟨start, start + Text.byteLength text⟩ ∧ fault.cause.Tells text after := by
  cases h with
  | openString hnext =>
    have hfound := Lexeme.found_next c cs
    rw [hnext] at hfound
    cases hfound with
    | openString hquote hclose =>
      refine ⟨c :: cs.takeWhile isInLine, cs.dropWhile isInLine, by simp, rfl, ?_⟩
      refine .unterminatedString hquote rfl ?_ ?_ ?_
      · intro hmem
        exact absurd (List.mem_takeWhile_imp hmem) (by decide)
      · intro d hd
        have hstop := List.head?_dropWhile_not isInLine cs
        rw [hd] at hstop
        simpa [isInLine] using hstop
      · intro front back hfront
        exact (Text.foldl_escape_iff front).mp (foldl_escape_of_closeString hclose hfront)
  | stray hnext =>
    have hfound := Lexeme.found_next c cs
    rw [hnext] at hfound
    cases hfound with
    | stray hc hmark =>
      exact ⟨[c], cs, rfl, rfl, .unexpectedCharacter rfl (Text.beginsNothing_of_stray hc hmark)⟩

/-- **A fault is placed at the first piece of a source that is no lexeme.** The text in front of it is
cut without a fault, and the piece is what the cause of the fault says.
Source: `lex`, with `string` and `glyph` of `Lexer`. -/
theorem Token.scan_fault_localised {source : String} {fault : LexFault}
    (h : scan source = .error fault) :
    ∃ before text after : String, source = before ++ text ++ after ∧
      fault.span = ⟨before.utf8ByteSize, before.utf8ByteSize + text.utf8ByteSize⟩ ∧
      (∃ ts, scan before = .ok ts) ∧ fault.cause.Tells text.toList after.toList := by
  obtain ⟨before, c, rest, ts, hsource, hbefore, harises⟩ := exists_front_of_scanFrom_error h
  obtain ⟨text, after, hrest, hspan, htells⟩ := harises.exists_tells
  refine ⟨String.ofList before, String.ofList text, String.ofList after, ?_, ?_, ⟨ts, ?_⟩, ?_⟩
  · rw [← String.toList_inj, hsource, hrest]
    simp
  · rw [hspan, Nat.zero_add, ← Text.byteLength_toList, ← Text.byteLength_toList,
      String.toList_ofList, String.toList_ofList]
  · rw [scan, String.toList_ofList, hbefore]
  · rwa [String.toList_ofList, String.toList_ofList]

/-- A comment and strings with all sorts of quotation marks stand in front of a string in which one is
escaped, a backslash is not, and none closes it. -/
theorem Token.scan_fault_localised_of_escapes :
    let source := "é = 'it\\'s \"' ~~ \"\n\"ü\\\" \\\\\\\" '\n\"next\""
    let fault : LexFault := ⟨.unterminatedString, ⟨20, 32⟩⟩
    scan source = .error fault ∧
      ∃ before text after : String, source = before ++ text ++ after ∧
        fault.span = ⟨before.utf8ByteSize, before.utf8ByteSize + text.utf8ByteSize⟩ ∧
        (∃ ts, scan before = .ok ts) ∧ fault.cause.Tells text.toList after.toList := by
  intro source fault
  have hscan : scan source = .error fault := scan_of_scanWithin 20 (by decide +kernel)
  exact ⟨hscan, scan_fault_localised hscan⟩

end FuncDecl
