import FuncDecl.Proofs.Token.Words
import Mathlib.Data.List.TakeWhile

/-!
# What stands at the front of a text

What is said about single lexemes is read off one list of all that can be found.

* `Lexeme.Found c cs`: all that `Lexeme.next` can find, each with the characters that decide it.
  `Lexeme.found_next` says that the list is complete.
* `exists_stringBody_of_closeString`: what is between the quotation marks of a string.
* `Lexeme.Found.newline_cases`: a line feed is a token of its own and in the text of no other one.
* `Lexeme.Found.less_mem_iff`: the character `<` stands alone, in front of an equals sign or in a
  string.
* `Lexeme.Found.isName_text`: a token that is a name is spelled like one.
* `Lexeme.Found.stands`: **a token is told by its own text**. It is found again in front of a blank
  and at the end of a text.
-/

namespace FuncDecl

/-! ## All that can be found -/

/-- The lexeme is what stands at the front of the text `c :: cs`. -/
inductive Lexeme.Found (c : Char) (cs : List Char) : Lexeme → Prop
  | newline (hc : c = '\n') : Found c cs (token .newline [c] cs)
  | blank (hline : c ≠ '\n') (hc : Text.isBlank c = true) : Found c cs (skipped [c] cs)
  | comment (hc : c = '~') (hcs : cs.head? = some '~') :
      Found c cs (skipped (c :: cs.takeWhile isInLine) (cs.dropWhile isInLine))
  | name (hc : Text.isNameStart c = true) :
      Found c cs
        (token .ident (c :: cs.takeWhile Text.isNameChar) (cs.dropWhile Text.isNameChar))
  | number (hc : c.isDigit = true) :
      Found c cs (token .number (c :: cs.takeWhile isNumberChar) (cs.dropWhile isNumberChar))
  | string {body rest : List Char} (hc : c = '"' ∨ c = '\'')
      (hclose : closeString c false cs = some (body, rest)) : Found c cs (token .str (c :: body) rest)
  | openString (hc : c = '"' ∨ c = '\'') (hclose : closeString c false cs = none) :
      Found c cs (openString (c :: cs.takeWhile isInLine))
  | pair {d : Char} {rest : List Char} {kind : Token.Kind} (hc : Text.isPunct c = true)
      (hcs : cs = d :: rest) (hkind : pairMarks.lookup (c, d) = some kind) :
      Found c cs (token kind [c, d] rest)
  | single {kind : Token.Kind} (hkind : singleMarks.lookup c = some kind) :
      Found c cs (token kind [c] cs)
  | stray (hc : Text.isPunct c = true) (hkind : singleMarks.lookup c = none) :
      Found c cs (stray c)

namespace Lexeme

/-- A mark of one character, or a character that begins nothing, is in the list. -/
theorem found_singleMark {c : Char} (hc : Text.isPunct c = true) (cs : List Char) :
    Found c cs (singleMark c cs) := by
  unfold singleMark
  split
  · next kind hkind => exact .single hkind
  · next hkind => exact .stray hc hkind

/-- A mark of one or two characters is in the list. -/
theorem found_mark {c : Char} (hc : Text.isPunct c = true) (cs : List Char) :
    Found c cs (mark c cs) := by
  unfold mark
  split
  · next d rest =>
    split
    · next kind hkind => exact .pair hc rfl hkind
    · exact found_singleMark hc _
  · exact found_singleMark hc _

/-- What `next` finds is in the list. -/
theorem found_next (c : Char) (cs : List Char) : Found c cs (next c cs) := by
  unfold next
  split
  · next hc => exact .newline hc
  · next hline =>
    split
    · next hblank => exact .blank hline hblank
    · next hblank =>
      split
      · next hcomment => exact .comment hcomment.1 hcomment.2
      · split
        · next hname => exact .name hname
        · next hname =>
          split
          · next hdigit => exact .number hdigit
          · next hdigit =>
            split
            · next hquote =>
              split
              · next body rest hclose => exact .string hquote hclose
              · next hclose => exact .openString hquote hclose
            · next hquote =>
              rw [not_or] at hquote
              refine found_mark ?_ cs
              simp [Text.isPunct, hline, hblank, hname, hdigit, hquote]

end Lexeme

/-! ## Strings -/

/-- What a string is closed with: the text in front of its last quotation mark is the inside of a
string, behind the backslash that the scan may have just passed. -/
theorem exists_stringBody_of_closeString {quote : Char} {escaped : Bool}
    {cs body rest : List Char} (h : closeString quote escaped cs = some (body, rest)) :
    ∃ inner, body = inner ++ [quote] ∧
      StringBody quote (if escaped then '\\' :: inner else inner) := by
  induction cs generalizing escaped body with
  | nil => simp [closeString] at h
  | cons c cs ih =>
    rw [closeString] at h
    split at h
    · simp at h
    · next hline =>
      split at h
      · next hclose =>
        rw [Bool.and_eq_true, Bool.not_eq_true', beq_iff_eq] at hclose
        obtain ⟨rfl, rfl⟩ := hclose
        obtain ⟨rfl, -⟩ := Prod.mk.inj (Option.some.inj h)
        exact ⟨[], rfl, .nil⟩
      · next hopen =>
        split at h
        · next body' rest' hrec =>
          obtain ⟨rfl, rfl⟩ := Prod.mk.inj (Option.some.inj h)
          obtain ⟨inner, rfl, hinner⟩ := ih hrec
          refine ⟨c :: inner, rfl, ?_⟩
          -- the flag stands for a backslash already read, which the body puts in front
          cases escaped with
          | true => exact .escaped hline hinner
          | false =>
            by_cases hslash : c = '\\'
            · subst hslash
              exact hinner
            · rw [Bool.not_false, Bool.true_and, beq_false_of_ne hslash] at hinner
              exact .plain hline (by simpa using hopen) hslash hinner
        · simp at h

/-- No line feed stands inside a string. -/
theorem StringBody.newline_not_mem {quote : Char} {body : List Char} (h : StringBody quote body) :
    '\n' ∉ body := by
  induction h with
  | nil => exact List.not_mem_nil
  | plain hline _ _ _ ih => simp [ih, Ne.symm hline]
  | escaped hline _ ih => simp [ih, Ne.symm hline]

/-! ## Names and numbers -/

/-- The text of a name consists of name characters. -/
theorem isNameChar_of_mem {c x : Char} {cs : List Char} (hc : Text.isNameStart c = true)
    (hx : x ∈ c :: cs.takeWhile Text.isNameChar) : Text.isNameChar x = true := by
  rcases List.mem_cons.mp hx with rfl | hx
  · exact Text.isNameChar_of_isNameStart hc
  · exact List.mem_takeWhile_imp hx

/-- The text of a number consists of number characters. -/
theorem isNumberChar_of_mem {c x : Char} {cs : List Char} (hc : c.isDigit = true)
    (hx : x ∈ c :: cs.takeWhile isNumberChar) : isNumberChar x = true := by
  rcases List.mem_cons.mp hx with rfl | hx
  · simp [isNumberChar, Char.isAlphanum, hc]
  · exact List.mem_takeWhile_imp hx

namespace Lexeme.Found

variable {c : Char} {cs : List Char} {kind : Token.Kind} {text rest : List Char}

/-! ## Line feeds -/

/-- A line feed is a token of its own and in the text of no other one. -/
theorem newline_cases (h : Found c cs (token kind text rest)) :
    kind = .newline ∧ text = ['\n'] ∨ kind ≠ .newline ∧ '\n' ∉ text := by
  cases h with
  | newline hc => exact .inl ⟨rfl, by rw [hc]⟩
  | name hc =>
    refine .inr ⟨by simp, fun hmem => ?_⟩
    exact absurd (isNameChar_of_mem hc hmem) (by decide +kernel)
  | number hc =>
    refine .inr ⟨by simp, fun hmem => ?_⟩
    exact absurd (isNumberChar_of_mem hc hmem) (by decide)
  | string hc hclose =>
    obtain ⟨inner, rfl, hinner⟩ := exists_stringBody_of_closeString hclose
    have hquote : '\n' ≠ c := by rcases hc with rfl | rfl <;> decide
    have hline : '\n' ∉ inner := StringBody.newline_not_mem hinner
    exact .inr ⟨by simp, by simp [hquote, hline]⟩
  | pair hc hcs hkind =>
    have hall : ∀ entry ∈ pairMarks, entry.2 ≠ .newline ∧ entry.1.1 ≠ '\n' ∧ entry.1.2 ≠ '\n' := by
      decide
    obtain ⟨hne, hfirst, hsecond⟩ := hall _ (mem_of_lookup hkind)
    exact .inr ⟨hne, by simp [Ne.symm hfirst, Ne.symm hsecond]⟩
  | single hkind =>
    have hall : ∀ entry ∈ singleMarks, entry.2 ≠ .newline ∧ entry.1 ≠ '\n' := by decide
    obtain ⟨hne, hc⟩ := hall _ (mem_of_lookup hkind)
    exact .inr ⟨hne, by simpa using Ne.symm hc⟩

/-! ## Angle brackets -/

/-- The character `<` stands alone, in front of an equals sign or in a string. -/
theorem less_mem_iff (h : Found c cs (token kind text rest)) :
    '<' ∈ text ↔
      kind = .less ∨ kind = .operator ∧ text = ['<', '='] ∨ kind = .str ∧ '<' ∈ text := by
  cases h with
  | newline hc =>
    subst hc
    decide
  | name hc =>
    refine iff_of_false (fun hmem => ?_) (by simp)
    exact absurd (isNameChar_of_mem hc hmem) (by decide +kernel)
  | number hc =>
    refine iff_of_false (fun hmem => ?_) (by simp)
    exact absurd (isNumberChar_of_mem hc hmem) (by decide)
  | string hc hclose => simp
  | pair hc hcs hkind =>
    have hall : ∀ entry ∈ pairMarks, ('<' ∈ [entry.1.1, entry.1.2] ↔ entry.2 = .less ∨
        entry.2 = .operator ∧ [entry.1.1, entry.1.2] = ['<', '='] ∨
        entry.2 = .str ∧ '<' ∈ [entry.1.1, entry.1.2]) := by
      decide
    exact hall _ (mem_of_lookup hkind)
  | single hkind =>
    have hall : ∀ entry ∈ singleMarks, ('<' ∈ [entry.1] ↔ entry.2 = .less ∨
        entry.2 = .operator ∧ [entry.1] = ['<', '='] ∨ entry.2 = .str ∧ '<' ∈ [entry.1]) := by
      decide
    exact hall _ (mem_of_lookup hkind)

/-! ## Names -/

/-- A token that is a name is spelled like one. -/
theorem isName_text (h : Found c cs (token .ident text rest)) :
    Text.isName (String.ofList text) = true := by
  generalize hkind : Token.Kind.ident = kind at h
  cases h with
  | name hc =>
    rw [Text.isName, String.toList_ofList, Bool.and_eq_true, List.all_eq_true]
    exact ⟨hc, fun x hx => List.mem_takeWhile_imp hx⟩
  | newline => exact absurd hkind (by simp)
  | number => exact absurd hkind (by simp)
  | string => exact absurd hkind (by simp)
  | pair _ _ hlookup =>
    have hall : ∀ entry ∈ pairMarks, Token.Kind.ident ≠ entry.2 := by decide
    exact absurd hkind (hall _ (mem_of_lookup hlookup))
  | single hlookup =>
    have hall : ∀ entry ∈ singleMarks, Token.Kind.ident ≠ entry.2 := by decide
    exact absurd hkind (hall _ (mem_of_lookup hlookup))

/-! ## In front of a blank -/

/-- **A token is told by its own text.** What was found in front of some text is found again in front
of every blank and at the end of a text. -/
theorem stands (h : Found c cs (token kind text rest)) {rest' : List Char}
    (hrest : ∀ b ∈ rest'.head?, Text.isBlank b = true) :
    (⟨kind, String.ofList text⟩ : Word).Stands rest' := by
  cases h with
  | newline hc =>
    subst hc
    exact ⟨'\n', [], String.toList_ofList, by rw [Word.chars, String.toList_ofList]; rfl⟩
  | name hc =>
    exact Name.stands ⟨_, isName_text (.name hc)⟩ fun b hb => Text.isNameChar_of_isBlank (hrest b hb)
  | number hc =>
    exact Word.stands_of_number rfl String.toList_ofList hc (fun x hx => List.mem_takeWhile_imp hx)
      fun b hb => Text.isNumberChar_of_isBlank (hrest b hb)
  | string hc hclose =>
    obtain ⟨inner, rfl, hinner⟩ := exists_stringBody_of_closeString hclose
    exact Quoted.stands ⟨c, inner, hc, hinner⟩ rest'
  | @pair d _ _ hc hcs hkind =>
    have hall : ∀ entry ∈ pairMarks, entry.1.1 ≠ '~' := by decide
    exact Word.stands_of_pairMark (w := ⟨kind, String.ofList [c, d]⟩) String.toList_ofList hkind hc
      (hall _ (mem_of_lookup hkind)) rest'
  | single hkind =>
    refine Word.stands_of_singleMark String.toList_ofList hkind (fun b hb => ?_) fun ht => ?_
    · have hall : ∀ entry ∈ pairMarks, Text.isBlank entry.1.2 = false := by decide +kernel
      refine Word.lookup_pairMarks_eq_none fun entry hentry _ hsecond => ?_
      have hblank := hrest b hb
      rw [← hsecond, hall entry hentry] at hblank
      exact absurd hblank (by simp)
    · exact absurd (hrest '~' ht.2) (by decide +kernel)

end Lexeme.Found

/-- A name in a source is spelled like one. -/
theorem Token.isName_of_mem {source : String} {ts : List Token} (h : scan source = .ok ts) {t : Token}
    (ht : t ∈ ts) (hkind : t.kind = .ident) : Text.isName t.text = true := by
  obtain ⟨c, cs, rest, hnext⟩ := exists_next_of_mem_scanFrom h ht
  have hfound := Lexeme.found_next c cs
  rw [hnext, hkind] at hfound
  rw [← String.ofList_toList (s := t.text)]
  exact hfound.isName_text

end FuncDecl
