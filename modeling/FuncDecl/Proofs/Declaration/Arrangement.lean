import FuncDecl.Proofs.Declaration.Canonical
import FuncDecl.Proofs.Token.Lexemes
import Mathlib.Data.List.Chain

/-!
# Arrangements

An arrangement is a row of words, each behind a gap of blanks, which may be empty or reach over line
ends.

* `Word.Listed`, `Word.Follows`: the words that a list of parameters is made of, and which of them
  may stand behind which.
* `Arrangement.text`, `Arrangement.words`: the text of an arrangement and its words.
* `Arrangement.Legible`: the gaps are blank, and one stands between names and numbers.
* `Arrangement.Glues`: an equals sign stands directly behind a `>`. It is cut off together with it,
  and `Arrangement.gluedWords` are the words with this exception made.
* `Arrangement.exists_scanFrom_text`: **an arrangement is cut into its glued words** and line ends.
  By induction on the arrangement.
* `Arrangement.gluedWords_cases` and `Arrangement.glues_iff`: what the glued words are, and that
  they tell whether anything is glued.
-/

namespace FuncDecl

/-- Words in a row, each behind a gap. -/
abbrev Arrangement := List (List Char × Word)

/-! ## Words of parameters -/

namespace Word

/-- The operator that `>` makes with an equals sign. -/
def greaterEquals : Word := ⟨.operator, ">="⟩

/-- Names and numbers: only a gap keeps two of them apart. -/
def isRun (w : Word) : Bool :=
  w.kind == .ident || w.kind == .number

/-- The words that a list of parameters is made of. -/
def Listed (w : Word) : Prop :=
  w.Plain ∨ w = colon ∨ w = equals

/-- The second word may stand behind the first one: of the marks that an equals sign goes on with, it
stands behind `>` alone. -/
def Follows (w w' : Word) : Prop :=
  w' = equals → w ≠ less ∧ w ≠ equals

variable {w : Word}

/-- No word of a list of parameters is a line end. -/
theorem Listed.kind_ne_newline (h : w.Listed) : w.kind ≠ .newline := by
  rcases h with h | rfl | rfl
  · cases h with
    | name n => exact fun h => by cases h
    | digits n => exact fun h => by cases h
    | quoted q => exact fun h => by cases h
    | mark h =>
      have hall : ∀ w ∈ groupMarks, w.kind ≠ .newline := by decide
      exact hall w h
    | less => decide
    | greater => decide
  · decide
  · decide

/-- A word that is no name and no number begins with a character that goes on with none of them, and
only the equals sign begins with one. -/
theorem Listed.exists_first (h : w.Listed) :
    ∃ c cs, w.chars = c :: cs ∧
      (w.isRun = false → Text.isNameChar c = false ∧ isNumberChar c = false) ∧
      (w ≠ equals → c ≠ '=') := by
  rcases h with h | rfl | rfl
  · obtain ⟨c, cs, hc, heq, -⟩ := h.exists_first
    refine ⟨c, cs, hc, fun hrun => ?_, fun _ => heq⟩
    cases h with
    | name n => cases hrun
    | digits n => cases hrun
    | quoted q =>
      obtain rfl : q.quote = c := (List.cons.inj (String.toList_ofList.symm.trans hc)).1
      rcases q.isQuote with hq | hq <;> rw [hq] <;> decide +kernel
    | mark hmark =>
      have hall : ∀ w ∈ groupMarks, w.chars.all fun c =>
          Text.isNameChar c = false ∧ isNumberChar c = false := by decide +kernel
      have hfirst := List.all_eq_true.mp (hall w hmark) c (by rw [hc]; exact List.mem_cons_self)
      exact of_decide_eq_true hfirst
    | less =>
      obtain rfl : '<' = c := (List.cons.inj hc).1
      decide +kernel
    | greater =>
      obtain rfl : '>' = c := (List.cons.inj hc).1
      decide +kernel
  · exact ⟨':', [], rfl, fun _ => by decide +kernel, fun _ => by decide⟩
  · exact ⟨'=', [], rfl, fun _ => by decide +kernel, fun h => absurd rfl h⟩

/-- A word stands in front of every character that does not go on with it. -/
theorem Listed.before (h : w.Listed) {c : Char}
    (hrun : w.isRun = true → Text.isNameChar c = false ∧ isNumberChar c = false)
    (heq : w ∈ nearlySolid → c ≠ '=') : w.Before c := by
  rcases h with h | rfl | rfl
  · cases h with
    | name n => exact n.before (hrun rfl).1
    | digits n => exact n.before (hrun rfl).2
    | quoted q => exact q.before c
    | mark h =>
      have hall : ∀ w ∈ groupMarks, w ∈ solid := by decide
      exact before_of_mem_solid (hall w h) c
    | less => exact before_of_mem_nearlySolid (by decide) (heq (by decide))
    | greater => exact before_of_mem_nearlySolid (by decide) (heq (by decide))
  · exact before_of_mem_solid (by decide) c
  · exact before_of_mem_nearlySolid (by decide) (heq (by decide))

/-- Every word stands in front of a blank. -/
theorem Listed.before_blank (h : w.Listed) {c : Char} (hc : Text.isBlank c = true) :
    w.Before c := by
  refine h.before (fun _ => ⟨Text.isNameChar_of_isBlank hc, Text.isNumberChar_of_isBlank hc⟩) ?_
  rintro - rfl
  exact absurd hc (by decide +kernel)

/-- A word stands at the end of a text. -/
theorem Listed.stands_nil (h : w.Listed) : w.Stands [] := by
  obtain ⟨c, cs, hc, hnext⟩ := h.before_blank (c := ' ') (by decide +kernel) []
  have hfound := Lexeme.found_next c (cs ++ [' '])
  rw [hnext] at hfound
  have hstands : (⟨w.kind, String.ofList w.chars⟩ : Word).Stands [] := hfound.stands (by simp)
  rwa [chars, String.ofList_toList] at hstands

end Word

/-! ## Gaps -/

/-- A gap is cut into its line ends. -/
theorem Token.exists_scanFrom_gap {gap : List Char} (h : ∀ c ∈ gap, Text.isBlank c = true)
    (offset : Nat) (cs : List Char) :
    ∃ lines : List Token, (∀ t ∈ lines, t.isNewline = true) ∧
      scanFrom offset (gap ++ cs) = prepend lines (scanFrom (offset + Text.byteLength gap) cs) := by
  induction gap generalizing offset with
  | nil => exact ⟨[], by simp, (prepend_nil _).symm⟩
  | cons c gap ih =>
    rw [List.forall_mem_cons] at h
    obtain ⟨lines, hlines, hscan⟩ := ih h.2 (offset + Text.byteLength [c])
    rw [Nat.add_assoc, ← Text.byteLength_append, List.singleton_append] at hscan
    by_cases hc : c = '\n'
    · subst hc
      refine ⟨⟨.newline, "\n", ⟨offset, offset + 1⟩⟩ :: lines, ?_, ?_⟩
      · rw [List.forall_mem_cons]
        exact ⟨rfl, hlines⟩
      · rw [List.cons_append, scanFrom_newline]
        exact (congrArg (prepend _) hscan).trans (prepend_prepend _ _ _)
    · refine ⟨lines, hlines, ?_⟩
      rw [List.cons_append, scanFrom_blank h.1 hc, hscan]

namespace Arrangement

/-- The text of an arrangement. -/
def text : Arrangement → List Char
  | [] => []
  | (gap, w) :: l => gap ++ (w.chars ++ text l)

/-- The words of an arrangement. -/
def words (l : Arrangement) : List Word :=
  l.map Prod.snd

/-- The words of two arrangements in a row. -/
theorem words_append (l m : Arrangement) : words (l ++ m) = l.words ++ m.words :=
  List.map_append

/-- An equals sign stands directly behind a `>`. -/
def Glues (l : Arrangement) : Prop :=
  ∃ front gap back, l = front ++ (gap, .greater) :: ([], .equals) :: back

/-- The words that the text is cut into, line ends apart. -/
def gluedWords : Arrangement → List Word
  | [] => []
  | [e] => [e.2]
  | e :: e' :: l =>
    if e.2 = .greater ∧ e' = ([], .equals) then .greaterEquals :: gluedWords l
    else e.2 :: gluedWords (e' :: l)

/-- The gaps are blank, and one stands between names and numbers. -/
structure Legible (l : Arrangement) : Prop where
  blank : ∀ e ∈ l, ∀ c ∈ e.1, Text.isBlank c = true
  apart : l.IsChain fun e e' => e.2.isRun = true → e'.2.isRun = true → e'.1 ≠ []

variable {l : Arrangement}

/-- A word with a gap in front of it is cut off. -/
theorem exists_scanFrom_cons {gap : List Char} {w : Word} {rest : List Char} {ws : List Word}
    (hgap : ∀ c ∈ gap, Text.isBlank c = true) (hw : w.Stands rest) (hkind : w.kind ≠ .newline)
    (hrest : ∀ offset, ∃ ts, Token.scanFrom offset rest = .ok ts ∧
      (ts.filter fun t => !t.isNewline).map Token.word = ws) (offset : Nat) :
    ∃ ts, Token.scanFrom offset (gap ++ (w.chars ++ rest)) = .ok ts ∧
      (ts.filter fun t => !t.isNewline).map Token.word = w :: ws := by
  obtain ⟨lines, hlines, hscan⟩ := Token.exists_scanFrom_gap hgap offset (w.chars ++ rest)
  obtain ⟨ts, hts, hwords⟩ := hrest (offset + Text.byteLength gap + Text.byteLength w.chars)
  rw [Token.scanFrom_of_stands hw, hts, Token.prepend_ok, Token.prepend_ok] at hscan
  refine ⟨_, hscan, ?_⟩
  have hnone : (lines.filter fun t => !t.isNewline) = [] := by
    rw [List.filter_eq_nil_iff]
    intro t ht
    simp [hlines t ht]
  rw [List.filter_append, hnone, List.nil_append, List.singleton_append,
    List.filter_cons_of_pos (by simpa [Token.isNewline] using hkind), List.map_cons, hwords]
  rfl

/-- What is left of a legible arrangement is legible. -/
theorem Legible.tail {e : List Char × Word} (h : Legible (e :: l)) : l.Legible :=
  ⟨fun e' he' => h.blank e' (List.mem_cons_of_mem e he'), h.apart.tail⟩

/-- A word stands in front of the rest of the arrangement unless the next word is glued to it. -/
theorem Legible.stands {e e' : List Char × Word} (h : Legible (e :: e' :: l)) (he : e.2.Listed)
    (he' : e'.2.Listed) (hfollows : e.2.Follows e'.2)
    (hglue : ¬(e.2 = .greater ∧ e' = ([], .equals))) : e.2.Stands (text (e' :: l)) := by
  have happart := (List.isChain_cons_cons.mp h.apart).1
  have hblank := h.blank e' (by simp)
  obtain ⟨gap', w'⟩ := e'
  cases gap' with
  | cons c gap' => exact he.before_blank (hblank c List.mem_cons_self) _
  | nil =>
    obtain ⟨c, cs, hc, hrun, heq⟩ := he'.exists_first
    rw [text, List.nil_append, hc]
    refine he.before (fun hrun' => hrun ?_) (fun hsolid => heq ?_) _
    · rw [← Bool.not_eq_true]
      exact fun hboth => happart hrun' hboth rfl
    · rintro rfl
      obtain ⟨hless, hne⟩ := hfollows rfl
      have hgreater : e.2 ≠ .greater := fun hgreater => hglue ⟨hgreater, rfl⟩
      rcases List.mem_cons.mp hsolid with hmem | hmem
      · exact hless hmem
      · rcases List.mem_cons.mp hmem with hmem | hmem
        · exact hgreater hmem
        · exact hne (List.mem_singleton.mp hmem)

/-- **An arrangement is cut into its words,** where `>` takes an equals sign with it. -/
theorem exists_scanFrom_text (h : l.Legible) (hlisted : ∀ e ∈ l, e.2.Listed)
    (hfollows : l.IsChain fun e e' => e.2.Follows e'.2) (offset : Nat) :
    ∃ ts, Token.scanFrom offset l.text = .ok ts ∧
      (ts.filter fun t => !t.isNewline).map Token.word = l.gluedWords := by
  fun_induction gluedWords l generalizing offset with
  | case1 => exact ⟨[], by rw [text, Token.scanFrom], rfl⟩
  | case2 e =>
    have he := hlisted e List.mem_cons_self
    refine exists_scanFrom_cons (h.blank e List.mem_cons_self) he.stands_nil he.kind_ne_newline
      (fun offset => ⟨[], by rw [Token.scanFrom], rfl⟩) offset
  | case3 e e' l hglue ih =>
    obtain ⟨gap, w⟩ := e
    obtain ⟨rfl, rfl⟩ := hglue
    have htext : text ((gap, .greater) :: ([], .equals) :: l) =
        gap ++ (Word.greaterEquals.chars ++ text l) := by
      simp [text, Word.chars, Word.greater, Word.equals, Word.greaterEquals]
    rw [htext]
    refine exists_scanFrom_cons (h.blank (gap, .greater) List.mem_cons_self) ?_ (by decide)
      (fun offset => ih h.tail.tail (fun e he => hlisted e (by simp [he])) hfollows.tail.tail offset)
      offset
    exact Word.stands_of_pairMark rfl rfl (by decide +kernel) (by decide) _
  | case4 e e' l hglue ih =>
    have hpair := (List.isChain_cons_cons.mp hfollows).1
    have he := hlisted e (by simp)
    exact exists_scanFrom_cons (h.blank e List.mem_cons_self)
      (h.stands he (hlisted e' (by simp)) hpair hglue) he.kind_ne_newline
      (fun offset => ih h.tail (fun e he => hlisted e (List.mem_cons_of_mem _ he)) hfollows.tail
        offset) offset

/-! ## Glued words -/

/-- The glued words are the words up to the first equals sign that is glued, if there is one. -/
theorem gluedWords_cases (l : Arrangement) :
    ¬l.Glues ∧ l.gluedWords = l.words ∨
      ∃ front gap back, l = front ++ (gap, .greater) :: ([], .equals) :: back ∧
        l.gluedWords = words front ++ .greaterEquals :: gluedWords back := by
  fun_induction gluedWords l with
  | case1 => exact .inl ⟨fun ⟨front, gap, back, h⟩ => by simp at h, rfl⟩
  | case2 e =>
    refine .inl ⟨fun ⟨front, gap, back, h⟩ => ?_, rfl⟩
    have hlength := congrArg List.length h
    simp only [List.length_append, List.length_cons, List.length_nil] at hlength
    omega
  | case3 e e' l hglue ih =>
    obtain ⟨gap, w⟩ := e
    obtain ⟨rfl, rfl⟩ := hglue
    exact .inr ⟨[], gap, l, rfl, rfl⟩
  | case4 e e' l hglue ih =>
    rcases ih with ⟨hnone, hwords⟩ | ⟨front, gap, back, hl, hwords⟩
    · refine .inl ⟨?_, by rw [hwords]; rfl⟩
      rintro ⟨front, gap, back, h⟩
      cases front with
      | nil =>
        obtain ⟨rfl, hrest⟩ := List.cons.inj h
        exact hglue ⟨rfl, (List.cons.inj hrest).1⟩
      | cons x front => exact hnone ⟨front, gap, back, (List.cons.inj h).2⟩
    · exact .inr ⟨e :: front, gap, back, by rw [hl]; rfl, by rw [hwords]; rfl⟩

/-- Whether an equals sign is glued can be told by the words that the text is cut into. -/
theorem glues_iff : l.Glues ↔ l.gluedWords ≠ l.words := by
  rcases l.gluedWords_cases with ⟨hnone, hglued⟩ | ⟨front, gap, back, rfl, hglued⟩
  · exact iff_of_false hnone (not_not_intro hglued)
  · refine iff_of_true ⟨front, gap, back, rfl⟩ fun h => ?_
    rw [hglued, words_append] at h
    have hword : Word.greaterEquals = .greater := (List.cons.inj (List.append_cancel_left h)).1
    exact absurd hword (by decide)

instance : Decidable l.Glues :=
  decidable_of_iff _ glues_iff.symm

/-- No other word is lost. -/
theorem mem_gluedWords {w : Word} (h : w ∈ l.words) (hgreater : w ≠ .greater)
    (hequals : w ≠ .equals) : w ∈ l.gluedWords := by
  fun_induction gluedWords l with
  | case1 => exact h
  | case2 e => exact h
  | case3 e e' l hglue ih =>
    obtain ⟨hfirst, rfl⟩ := hglue
    simp only [words, List.map_cons, List.mem_cons, hfirst, hgreater, hequals, false_or] at h
    exact List.mem_cons_of_mem _ (ih h)
  | case4 e e' l hglue ih =>
    rcases List.mem_cons.mp h with rfl | h
    · exact List.mem_cons_self
    · exact List.mem_cons_of_mem _ (ih h)

end Arrangement

end FuncDecl
