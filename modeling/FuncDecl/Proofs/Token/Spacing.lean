import FuncDecl.Proofs.Token.Lexemes
import FuncDecl.Proofs.Token.Lines

/-!
# Spacing

The words of a source may be set apart by any blanks.

* `Text.spread`: texts in a row, each with a gap behind it.
* `Word.DelimitsItself`: the word is found wherever a blank or the end of the text follows it. The
  words of a source do so (`Token.delimitsItself_of_mem`).
* `Token.exists_scanFrom_spread`: such words are found again when blanks set them apart. By
  induction on the words.
* `Token.scan_spread`: **tokens delimit themselves**. Whatever blanks are put between the tokens of
  a source, the same kinds and texts are found.
-/

namespace FuncDecl

/-- Texts in a row, each with a gap behind it; where the gaps run out, nothing stands between. -/
def Text.spread : List String → List String → String
  | [], _ => ""
  | text :: texts, [] => text ++ spread texts []
  | text :: texts, gap :: gaps => text ++ gap ++ spread texts gaps

/-- The word stands in front of every blank and at the end of a text. -/
def Word.DelimitsItself (w : Word) : Prop :=
  ∀ rest : List Char, (∀ b ∈ rest.head?, Text.isBlank b = true) → w.Stands rest

/-- A text behind a margin begins with a blank. -/
theorem Text.isBlank_head? {margin : List Char} (h : IsMargin margin) (hne : margin ≠ [])
    (rest : List Char) : ∀ b ∈ (margin ++ rest).head?, isBlank b = true := by
  obtain ⟨c, cs, rfl⟩ := List.exists_cons_of_ne_nil hne
  intro b hb
  rw [← Option.some.inj hb]
  exact (h c List.mem_cons_self).1

namespace Token

/-- The word of a token of a source delimits itself. -/
theorem delimitsItself_of_mem {source : String} {ts : List Token} (h : scan source = .ok ts)
    {t : Token} (ht : t ∈ ts) : t.word.DelimitsItself := by
  intro rest hrest
  obtain ⟨c, cs, rest', hnext⟩ := exists_next_of_mem_scanFrom h ht
  have hfound := Lexeme.found_next c cs
  rw [hnext] at hfound
  have hstands := hfound.stands hrest
  rwa [String.ofList_toList] at hstands

/-- Words that delimit themselves are found when blanks set them apart. -/
theorem exists_scanFrom_spread {ws : List Word} (hws : ∀ w ∈ ws, w.DelimitsItself)
    {gaps : List String} (hlen : gaps.length = ws.length - 1)
    (hgaps : ∀ gap ∈ gaps, gap ≠ "" ∧ Text.IsMargin gap.toList) (offset : Nat) :
    ∃ us, scanFrom offset (Text.spread (ws.map Word.text) gaps).toList = .ok us ∧
      us.map word = ws := by
  induction ws generalizing gaps offset with
  | nil =>
    refine ⟨[], ?_, rfl⟩
    rw [List.map_nil, Text.spread, String.toList_empty, scanFrom]
  | cons w ws ih =>
    rw [List.forall_mem_cons] at hws
    cases gaps with
    | nil =>
      -- the last word, at the end of the text
      obtain rfl : ws = [] := List.eq_nil_of_length_eq_zero hlen.symm
      have hscan := scanFrom_of_stands (hws.1 [] (by simp)) offset
      rw [scanFrom, prepend_ok, List.append_nil, List.append_nil] at hscan
      have htext : (Text.spread ([w].map Word.text) []).toList = w.chars := by
        rw [List.map_cons, List.map_nil, Text.spread, Text.spread, String.append_empty]
        rfl
      exact ⟨_, (congrArg (scanFrom offset) htext).trans hscan, rfl⟩
    | cons gap gaps =>
      rw [List.forall_mem_cons] at hgaps
      obtain ⟨⟨hne, hmargin⟩, hgaps⟩ := hgaps
      have hlen' : gaps.length = ws.length - 1 := by
        simp only [List.length_cons] at hlen
        omega
      have hblank := Text.isBlank_head? hmargin (mt String.toList_eq_nil_iff.mp hne)
        (Text.spread (ws.map Word.text) gaps).toList
      have hscan := scanFrom_of_stands (hws.1 _ hblank) offset
      obtain ⟨us, hus, hwords⟩ := ih hws.2 hlen' hgaps
        (offset + Text.byteLength w.chars + Text.byteLength gap.toList)
      rw [scanFrom_blanks hmargin, hus, prepend_ok] at hscan
      have htext : (Text.spread ((w :: ws).map Word.text) (gap :: gaps)).toList =
          w.chars ++ (gap.toList ++ (Text.spread (ws.map Word.text) gaps).toList) := by
        rw [List.map_cons, Text.spread, String.append_assoc, String.toList_append,
          String.toList_append]
        rfl
      exact ⟨_, (congrArg (scanFrom offset) htext).trans hscan, congrArg (w :: ·) hwords⟩

/-- **Tokens delimit themselves.** Whatever blanks are put between the tokens of a source, the text
that results is cut into tokens of the same kinds and texts in the same order.
Source: `lex`. -/
theorem scan_spread {source : String} {ts : List Token} (h : scan source = .ok ts)
    {gaps : List String} (hlen : gaps.length = ts.length - 1)
    (hgaps : ∀ gap ∈ gaps, gap ≠ "" ∧ Text.IsMargin gap.toList) :
    ∃ us, scan (Text.spread (ts.map text) gaps) = .ok us ∧ us.map word = ts.map word := by
  have hwords : ∀ w ∈ ts.map word, w.DelimitsItself :=
    List.forall_mem_map.mpr fun t ht => delimitsItself_of_mem h ht
  obtain ⟨us, hus, hsame⟩ :=
    exists_scanFrom_spread hwords (hlen.trans (by rw [List.length_map])) hgaps 0
  rw [List.map_map] at hus
  exact ⟨us, hus, hsame⟩

/-- Two tildes that are no comment, a number with a point, a string with an escape; the comment at the
end is gone. -/
theorem scan_spread_of_tildes :
    let source := "é1~ ~2.x_<=-> '\\''~~é"
    let ts : List Token := [⟨.ident, "é1", ⟨0, 3⟩⟩, ⟨.operator, "~", ⟨3, 4⟩⟩,
      ⟨.operator, "~", ⟨5, 6⟩⟩, ⟨.number, "2.x_", ⟨6, 10⟩⟩, ⟨.operator, "<=", ⟨10, 12⟩⟩,
      ⟨.arrow, "->", ⟨12, 14⟩⟩, ⟨.str, "'\\''", ⟨15, 19⟩⟩]
    let gaps := [" ", "\t\r", "\u00a0", " \u2003", "\x0c", "\u2028 "]
    scan source = .ok ts ∧ gaps.length = ts.length - 1 ∧
      (∀ gap ∈ gaps, gap ≠ "" ∧ Text.IsMargin gap.toList) ∧
      ∃ us, scan "é1 ~\t\r~\u00a02.x_ \u2003<=\x0c->\u2028 '\\''" = .ok us ∧
        us.map word = ts.map word := by
  intro source ts gaps
  have hscan : scan source = .ok ts := scan_of_scanWithin 20 (by decide +kernel)
  have hblank : (gaps.all fun gap => gap != "" &&
      gap.toList.all fun c => Text.isBlank c && c != '\n') = true := by decide +kernel
  simp only [List.all_eq_true, Bool.and_eq_true, bne_iff_ne] at hblank
  have hgaps : ∀ gap ∈ gaps, gap ≠ "" ∧ Text.IsMargin gap.toList := hblank
  exact ⟨hscan, rfl, hgaps, scan_spread hscan rfl hgaps⟩

end Token

end FuncDecl
